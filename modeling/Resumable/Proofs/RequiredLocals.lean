import Mathlib.Order.Bounds.Basic
import Resumable.Assembly.Build
import Resumable.Proofs.Held

/-!
# Locals that a method needs

A method needs slots for its receiver and its parameters, and every slot that its code reads or writes.  The least
number of slots is counted without a bound and then put into a word of 16 bits.  Slots have numbers of 16 bits, so
the last one needs one slot more than such a word can count: the number is right exactly if it fits.

* `Insn.Reaches`, `Method.Covered` : the slots that an instruction and a method need;
* `Method.covered_iff` : the numbers of slots that are enough are those from the least one on;
* `Method.length_entry` : the slots of a frame;
* `Method.required_locals_iff` : when the least number is found, and when accesses stay in the frame.
-/

namespace Resumable

/-- the instruction uses the slots below a number -/
inductive Insn.Reaches : Insn → Nat → Prop
  | load (k : Kind) (slot : UInt16) : Reaches (.load k slot) (slot.toNat + k.width)
  | store (k : Kind) (slot : UInt16) : Reaches (.store k slot) (slot.toNat + k.width)
  | increment (slot : UInt16) (delta : Int32) : Reaches (.increment slot delta) (slot.toNat + 1)
  | returnSubroutine (slot : UInt16) : Reaches (.returnSubroutine slot) (slot.toNat + 1)

namespace Method

variable {m : Method} {d : MethodDesc} {n : Nat}

/-- slots of the receiver, if there is one -/
def receiverSlots (m : Method) : Nat := if m.isStatic then 0 else 1

/-- so many slots hold every local that the code uses -/
def Accessed (m : Method) (n : Nat) : Prop := ∀ i ∈ m.code, ∀ r, i.Reaches r → r ≤ n

/-- so many slots hold the receiver and the parameters too -/
structure Covered (m : Method) (d : MethodDesc) (n : Nat) : Prop where
  parameters : m.receiverSlots + d.paramSlots ≤ n
  accessed : m.Accessed n

/-! ## the least number -/

/-- slots that the parameters and the code need, without a bound -/
def neededLocals (m : Method) : Nat := m.code.foldl (fun n i => max n (localsOf i)) m.parameterSlots

/-- what is required is what is needed, in 16 bits -/
theorem requiredLocals_toNat (m : Method) : m.requiredLocals.toNat = m.neededLocals % UInt16.size :=
  UInt16.toNat_ofNat'

theorem parameterSlots_eq (hd : MethodDesc.parse? m.desc = some d) :
    m.parameterSlots = m.receiverSlots + d.paramSlots := by
  unfold parameterSlots receiverSlots
  rw [hd, Nat.add_comm]
  rfl

theorem reaches_iff {i : Insn} : (∀ r, i.Reaches r → r ≤ n) ↔ localsOf i ≤ n := by
  constructor
  · intro h
    cases i with
    | load k slot => exact h _ (.load k slot)
    | store k slot => exact h _ (.store k slot)
    | increment slot delta => exact h _ (.increment slot delta)
    | returnSubroutine slot => exact h _ (.returnSubroutine slot)
    | _ => exact Nat.zero_le n
  · intro h r hr
    cases hr <;> exact h

theorem foldl_max_le_iff (is : List Insn) (a : Nat) :
    is.foldl (fun n i => max n (localsOf i)) a ≤ n ↔ a ≤ n ∧ ∀ i ∈ is, localsOf i ≤ n := by
  induction is generalizing a with
  | nil => simp
  | cons i is ih => rw [List.foldl_cons, ih, max_le_iff, List.forall_mem_cons, and_assoc]

/-- **The numbers of slots that are enough** are those from the least one on -/
theorem covered_iff (hd : MethodDesc.parse? m.desc = some d) : m.Covered d n ↔ m.neededLocals ≤ n := by
  unfold neededLocals
  rw [foldl_max_le_iff, parameterSlots_eq hd]
  constructor
  · exact fun h => ⟨h.parameters, fun i hi => reaches_iff.1 (h.accessed i hi)⟩
  · exact fun h => ⟨h.1, fun i hi => reaches_iff.2 (h.2 i hi)⟩

theorem isLeast_neededLocals (hd : MethodDesc.parse? m.desc = some d) :
    IsLeast {n | m.Covered d n} m.neededLocals :=
  ⟨(covered_iff hd).2 (Nat.le_refl _), fun _ hn => (covered_iff hd).1 hn⟩

/-- 16 bits hold some number that is enough exactly if they hold the least one -/
theorem exists_covered_iff (hd : MethodDesc.parse? m.desc = some d) :
    (∃ n < UInt16.size, m.Covered d n) ↔ m.neededLocals < UInt16.size := by
  constructor
  · rintro ⟨n, hn, hcovered⟩
    exact Nat.lt_of_le_of_lt ((covered_iff hd).1 hcovered) hn
  · exact fun h => ⟨m.neededLocals, h, (isLeast_neededLocals hd).1⟩

/-! ## frames -/

theorem length_flatMap_slots (ts : List FieldType) :
    (ts.flatMap fun t => Frame.slots (.ofType t)).length = ts.foldr (fun t n => t.width + n) 0 := by
  induction ts with
  | nil => rfl
  | cons t ts ih =>
    rw [List.flatMap_cons, List.length_append, ih, List.foldr_cons]
    congr 1
    cases t <;> rfl

/-- **A frame** has slots for the receiver and the parameters, and more if more are asked for -/
theorem length_entry (owner : String) (m : Method) (d : MethodDesc) (maxLocals : Nat) :
    (Frame.entry owner m.isStatic d maxLocals).locals.length = max maxLocals (m.receiverSlots + d.paramSlots) := by
  have hreceiver : (if m.isStatic then [] else [Category.ref owner]).length = m.receiverSlots := by
    unfold receiverSlots
    split <;> rfl
  unfold Frame.entry MethodDesc.paramSlots
  simp only [List.length_append, List.length_replicate, hreceiver, length_flatMap_slots]
  omega

theorem Accessed.mono {k : Nat} (h : m.Accessed n) (hle : n ≤ k) : m.Accessed k :=
  fun i hi r hr => (h i hi r hr).trans hle

/-- **With as many locals as are required** every access is in the frame exactly if 16 bits were enough to count them,
or if the parameters alone have slots enough. -/
theorem accessed_entry_iff (hd : MethodDesc.parse? m.desc = some d) (owner : String) :
    m.Accessed (Frame.entry owner m.isStatic d m.requiredLocals.toNat).locals.length ↔
      m.neededLocals < UInt16.size ∨ m.Accessed (m.receiverSlots + d.paramSlots) := by
  rw [length_entry, requiredLocals_toNat]
  constructor
  · intro h
    by_contra hnot
    obtain ⟨hlarge, hcode⟩ := not_or.1 hnot
    have hneeded : m.neededLocals ≤ max (m.neededLocals % UInt16.size) (m.receiverSlots + d.paramSlots) :=
      (covered_iff hd).1 ⟨Nat.le_max_right _ _, h⟩
    have hsmall : m.neededLocals % UInt16.size < UInt16.size := Nat.mod_lt _ (by decide)
    have hparameters : m.neededLocals ≤ m.receiverSlots + d.paramSlots := by omega
    exact hcode ((covered_iff hd).2 hparameters).accessed
  · rintro (hsmall | hcode)
    · rw [Nat.mod_eq_of_lt hsmall]
      exact (isLeast_neededLocals hd).1.accessed.mono (Nat.le_max_left _ _)
    · exact hcode.mono (Nat.le_max_right _ _)

/-- a method that is built without a clause for its locals has those that it requires -/
theorem maxLocals_of_buildMethod {owner : String} {decl : Assembly.MethodDecl} {e : Option Declaration}
    (h : Assembly.buildMethod owner decl = .ok (m, e)) (hclause : decl.locals = none) :
    m.maxLocals = m.requiredLocals := by
  obtain ⟨given, hgiven, h⟩ := Effect.bind_eq_ok h
  obtain ⟨b, -, h⟩ := Effect.bind_eq_ok h
  obtain rfl : none = given := by
    rw [hclause] at hgiven
    exact Except.ok.inj hgiven
  obtain ⟨rfl, -⟩ := Prod.mk.inj (Except.ok.inj h)
  rfl

/-- **Required locals.**  What a method requires is the least number of slots that hold its receiver, its parameters
and every local that its code uses, exactly if 16 bits hold some such number; in any case it is what 16 bits hold of
the least one.  A method that is built without a clause has so many locals.  Its frames, in the analysis and when it
runs, hold every local that its code uses exactly if 16 bits were enough or the parameters' own slots are. -/
theorem required_locals_iff (hd : MethodDesc.parse? m.desc = some d) :
    (IsLeast {n | m.Covered d n} m.requiredLocals.toNat ↔ ∃ n < UInt16.size, m.Covered d n) ∧
    (∀ n, IsLeast {n | m.Covered d n} n → m.requiredLocals.toNat = n % UInt16.size) ∧
    ∀ owner decl e, Assembly.buildMethod owner decl = .ok (m, e) → decl.locals = none →
      m.maxLocals = m.requiredLocals ∧
      (∀ args, m.Accepts args → (Activation.entry m args).locals.length =
        (Frame.entry owner m.isStatic d m.maxLocals.toNat).locals.length) ∧
      (m.Accessed (Frame.entry owner m.isStatic d m.maxLocals.toNat).locals.length ↔
        (∃ n < UInt16.size, m.Covered d n) ∨ m.Accessed (m.receiverSlots + d.paramSlots)) := by
  have hleast := isLeast_neededLocals hd
  rw [exists_covered_iff hd]
  refine ⟨⟨fun h => ?_, fun h => ?_⟩, fun n hn => ?_, fun owner decl e hbuild hclause => ?_⟩
  · rw [← h.unique hleast]
    exact m.requiredLocals.toNat_lt
  · rw [requiredLocals_toNat, Nat.mod_eq_of_lt h]
    exact hleast
  · rw [requiredLocals_toNat, hn.unique hleast]
  · have hmax := maxLocals_of_buildMethod hbuild hclause
    refine ⟨hmax, fun args hargs => ?_, ?_⟩
    · exact (Frame.reads_entry (hargs.holds hd owner)).locals.length_eq.symm
    · rw [hmax]
      exact accessed_entry_iff hd owner

/-! #### the last slots -/

namespace Topmost

/-- a method without a clause that moves its parameter to a wide local -/
def decl (slot : String) : Assembly.MethodDecl where
  offset := 0
  isStatic := true
  name := "run"
  desc := "(J)V"
  locals := none
  body := [.insn ⟨0, "lload", [.word "0"]⟩, .insn ⟨0, "lstore", [.word slot]⟩, .insn ⟨0, "return", []⟩]

/-- it is built, with so many locals, which hold so many of its slots -/
def Builds (slot : String) (maxLocals : UInt16) (needed : Nat) : Prop :=
  ∃ m e, Assembly.buildMethod "demo/R" (decl slot) = .ok (m, e) ∧
    MethodDesc.parse? m.desc = some ⟨[.long], none⟩ ∧ m.maxLocals = maxLocals ∧ m.neededLocals = needed

theorem builds_of_decide {slot : String} {maxLocals : UInt16} {needed : Nat}
    (h : (match Assembly.buildMethod "demo/R" (decl slot) with
      | .error _ => false
      | .ok (m, _) => decide (m.desc = "(J)V" ∧ m.maxLocals = maxLocals ∧ m.neededLocals = needed)) = true) :
    Builds slot maxLocals needed := by
  split at h
  · exact absurd h (by simp)
  · rename_i m e hbuild
    obtain ⟨hdesc, hmax, hneeded⟩ := of_decide_eq_true h
    exact ⟨m, e, hbuild, by rw [hdesc]; decide, hmax, hneeded⟩

theorem builds_fitting : Builds "65533" 65535 65535 := builds_of_decide (by decide +kernel)

theorem builds_topmost : Builds "65534" 0 65536 := builds_of_decide (by decide +kernel)

end Topmost

/-- a wide local in the last slots but one is counted -/
theorem required_locals_iff_fitting : ∃ m e d, Assembly.buildMethod "demo/R" (Topmost.decl "65533") = .ok (m, e) ∧
    MethodDesc.parse? m.desc = some d ∧ m.maxLocals = 65535 ∧ IsLeast {n | m.Covered d n} m.maxLocals.toNat ∧
    m.Accessed (Frame.entry "demo/R" m.isStatic d m.maxLocals.toNat).locals.length := by
  obtain ⟨m, e, hbuild, hdesc, hmax, hneeded⟩ := Topmost.builds_fitting
  have hfits : ∃ n < UInt16.size, m.Covered ⟨[.long], none⟩ n :=
    ⟨65535, by decide, hneeded ▸ (isLeast_neededLocals hdesc).1⟩
  obtain ⟨hleast, -, hframes⟩ := required_locals_iff hdesc
  obtain ⟨hrequired, -, haccessed⟩ := hframes "demo/R" (Topmost.decl "65533") e hbuild rfl
  refine ⟨m, e, _, hbuild, hdesc, hmax, ?_, haccessed.2 (.inl hfits)⟩
  rw [hrequired]
  exact hleast.2 hfits

/-- **A wide local in the last slots** is not: no slot is required, and the access is not in the frame. -/
theorem not_covered_topmost : ∃ m e d, Assembly.buildMethod "demo/R" (Topmost.decl "65534") = .ok (m, e) ∧
    MethodDesc.parse? m.desc = some d ∧ m.requiredLocals = 0 ∧ ¬ m.Covered d m.requiredLocals.toNat ∧
    ¬ m.Accessed (Frame.entry "demo/R" m.isStatic d m.maxLocals.toNat).locals.length := by
  obtain ⟨m, e, hbuild, hdesc, hmax, hneeded⟩ := Topmost.builds_topmost
  have hrequired := maxLocals_of_buildMethod hbuild rfl
  refine ⟨m, e, _, hbuild, hdesc, hrequired.symm.trans hmax, fun h => ?_, fun h => ?_⟩
  · rw [covered_iff hdesc, hneeded, ← hrequired, hmax] at h
    exact absurd h (by decide)
  · rw [hrequired, accessed_entry_iff hdesc, hneeded] at h
    obtain hsmall | hparameters := h
    · exact absurd hsmall (by decide)
    · have hreceiver : m.receiverSlots ≤ 1 := by
        unfold receiverSlots
        split <;> decide
      have hslots : m.receiverSlots + MethodDesc.paramSlots ⟨[.long], none⟩ ≤ 3 :=
        Nat.add_le_add_right hreceiver 2
      have hcovered : m.Covered ⟨[.long], none⟩ 3 := ⟨hslots, hparameters.mono hslots⟩
      rw [covered_iff hdesc, hneeded] at hcovered
      exact absurd hcovered (by decide)

end Method
end Resumable
