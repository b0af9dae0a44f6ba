import Resumable.Analysis

/-!
# Call sites

A site is a call of a restore point.  Sites are numbered in the order of the code; the number is
what a suspended method leaves behind to find its way back.  New labels are numbered after those of
the method: first the places where the sites are re-entered, then the labels of the prologue, then
ten labels around each reachable site.

* `sitesOf` : the sites of a method;
* `CallShape` : the operands of a call and those below them;
* `PrologueLabels`, `SiteLabels` : the new labels.
-/

namespace Resumable

/-- a call of a restore point -/
structure Site where
  index : Nat
  /-- index of the call in the method's own code -/
  position : Nat
  kind : InvokeKind
  callee : MethodId
  unpatchable : Bool
  /-- the frame before the call; an unreachable call has none -/
  frame : Option Frame
  /-- where the call is re-entered -/
  resume : Label

/-- a label some places after the first free one -/
def freshLabel (base : UInt32) (n : Nat) : Label := ⟨base + UInt32.ofNat n⟩

/-- the calls of restore points from a position on; the next one gets the given number -/
def sitesFrom (a : Analysis) (base : UInt32) : Nat → Nat → List Insn → List Site
  | _, _, [] => []
  | index, position, i :: is =>
    match i with
    | .invoke kind callee =>
      if callee ∈ a.restorePoints then
        { index, position, kind, callee
          unpatchable := decide (callee ∈ a.unpatchable)
          frame := (a.frames[position]?).join
          resume := freshLabel base index } :: sitesFrom a base (index + 1) (position + 1) is
      else sitesFrom a base index (position + 1) is
    | _ => sitesFrom a base index (position + 1) is

/-- the sites of the analyzed code -/
def sitesOf (a : Analysis) (base : UInt32) : List Site := sitesFrom a base 0 0 a.insns

/-! ## labels -/

/-- labels of the prologue -/
structure PrologueLabels where
  /-- the method's own code starts -/
  body : Label
  /-- nothing is saved for this activation -/
  noState : Label
  /-- a saved number belongs to no site; there is such a place unless the only site is reachable -/
  invalid : Option Label

/-- labels around a reachable site -/
structure SiteLabels where
  pre : Label
  call : Label
  staged : Label
  invoke : Label
  invokeEnd : Label
  handler : Label
  rethrow : Label
  after : Label
  noYield : Label
  post : Label

def SiteLabels.ofBase (base : UInt32) : SiteLabels :=
  let l := freshLabel base
  { pre := l 0, call := l 1, staged := l 2, invoke := l 3, invokeEnd := l 4
    handler := l 5, rethrow := l 6, after := l 7, noYield := l 8, post := l 9 }

/-- a saved number may belong to no reachable site -/
def mayMisdispatch (sites : List Site) : Bool :=
  1 < sites.length || sites.any fun s => s.frame.isNone

/-- labels of the prologue, after those of the sites -/
def PrologueLabels.ofSites (base : UInt32) (sites : List Site) : PrologueLabels :=
  let n := sites.length
  { body := freshLabel base n
    noState := freshLabel base (n + 1)
    invalid := if mayMisdispatch sites then some (freshLabel base (n + 2)) else none }

/-- labels taken before those of the first reachable site -/
def labelsBeforeSites (sites : List Site) : Nat :=
  sites.length + 2 + if mayMisdispatch sites then 1 else 0

/-! ## operands -/

/-- the operand stack before a call -/
structure CallShape where
  /-- what lies below the operands of the call, its top first -/
  below : List Category
  /-- the receiver, if there is one, and the arguments in order -/
  window : List Category
  hasReceiver : Bool
  result : Option Kind

namespace CallShape

def receiver (s : CallShape) : Option Category := if s.hasReceiver then s.window.head? else none

def args (s : CallShape) : List Category := if s.hasReceiver then s.window.drop 1 else s.window

/-- the shape of a call in a frame that holds its operands -/
def of? (kind : InvokeKind) (desc : MethodDesc) (f : Frame) : Option CallShape :=
  let width := desc.params.length + if kind.hasReceiver then 1 else 0
  if width ≤ f.stack.length then
    some
      { below := f.stack.drop width
        window := (f.stack.take width).reverse
        hasReceiver := kind.hasReceiver
        result := desc.ret.map FieldType.kind }
  else none

end CallShape

/-- locals with their slots -/
def slotted (locals : List Category) : List (UInt16 × Category) :=
  locals.zipIdx.map fun e => (UInt16.ofNat e.2, e.1)

end Resumable
