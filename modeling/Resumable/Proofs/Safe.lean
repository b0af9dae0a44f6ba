import Resumable.Assembly.Body
import Resumable.Proofs.Held
import Resumable.Proofs.Operands

/-!
# Instructions in frames that hold

An instruction that can stand in a frame does not fail on operands and locals that are what the frame
says, and leaves what the frame after it says.  The values of fields and of elements come from outside
of the activation: they are what the frame after it says if they are of the right kind.

* `Fault.isFlaw` : the faults of code that does not fit its operands, locals or labels;
* `Exec.Safe` : a computation without them, and what it leaves on the stack;
* `Insn.safe_exec` : instructions that leave locals alone;
* `Insn.exec_conforms` : all instructions.
-/

namespace Resumable

/-- faults of code that does not fit its operands, its locals or its labels -/
def Fault.isFlaw : Fault → Bool
  | .stackUnderflow | .illTyped .. | .inconvertible .. | .localOutOfRange _ | .fellOffEnd _
  | .undefinedLabel _ | .subroutine => true
  | _ => false

namespace Exec

open Effect

variable {α β : Type} {Q : α → List Value → Prop} {R : β → List Value → Prop} {stack : List Value}
  {v w : Value}

/-- how a computation may end: with a value, by throwing an object, or by a fault that is no flaw -/
inductive Ends (Q : α → List Value → Prop) : Except Throw α × Scope → Prop
  | value {v : α} {s : Scope} (h : Q v s.activation.stack) : Ends Q (.ok v, s)
  | exception (r : Ref) (s : Scope) : Ends Q (.error (.exception r), s)
  | fault {f : Fault} {s : Scope} (h : f.isFlaw = false) : Ends Q (.error (.fault f), s)

/-- on the given stack the computation ends without a flaw, and a value and the stack after it have the
property -/
def Safe (x : Exec α) (stack : List Value) (Q : α → List Value → Prop) : Prop :=
  ∀ (h : Heap) (g : Bindings) (a : Activation), a.stack = stack → Ends Q (x.run ⟨h, g, a⟩)

namespace Safe

theorem pure {a : α} (h : Q a stack) : Safe (Pure.pure a : Exec α) stack Q := by
  rintro heap g a rfl
  exact .value h

theorem bind {x : Exec α} {k : α → Exec β} (hx : Safe x stack Q)
    (hk : ∀ a st, Q a st → Safe (k a) st R) : Safe (x >>= k) stack R := by
  intro h g a hs
  have hends := hx h g a hs
  rw [run_bind]
  generalize x.run ⟨h, g, a⟩ = r at hends
  cases hends with
  | @value a s hq => exact hk a _ hq s.heap s.statics s.activation rfl
  | exception r s => exact .exception r s
  | fault hf => exact .fault hf

theorem mono {x : Exec α} {Q' : α → List Value → Prop} (hx : Safe x stack Q)
    (h : ∀ a st, Q a st → Q' a st) : Safe x stack Q' := by
  intro heap g a hs
  have hends := hx heap g a hs
  generalize x.run ⟨heap, g, a⟩ = r at hends
  cases hends with
  | value hq => exact .value (h _ _ hq)
  | exception r s => exact .exception r s
  | fault hf => exact .fault hf

end Safe

/-! ## parts of instructions -/

theorem safe_fault {f : Fault} (hf : f.isFlaw = false) : Safe (fault f : Exec α) stack Q :=
  fun _ _ _ _ => .fault hf

theorem safe_throwNew (type message : String) : Safe (throwNew type message : Exec α) stack Q :=
  fun _ _ _ _ => .exception _ _

theorem safe_outOfBounds (i : Int32) : Safe (outOfBounds i : Exec α) stack Q := safe_throwNew _ _

theorem safe_push {P : Unit → List Value → Prop} (h : P () (v :: stack)) :
    Safe (push v) stack P := by
  rintro heap g a rfl
  exact .value h

theorem safe_setHeap {P : Unit → List Value → Prop} (heap : Heap) (h : P () stack) :
    Safe (setHeap heap) stack P := by
  rintro heap g a rfl
  exact .value h

/-! each operation with what comes after it -/

theorem safe_heap {k : Heap → Exec β} (h : ∀ heap, Safe (k heap) stack R) :
    Safe (heap >>= k) stack R :=
  fun heap g a hs => h heap heap g a hs

theorem safe_className {k : String → Exec β} (r : Ref) (h : ∀ c, Safe (k c) stack R) :
    Safe (className r >>= k) stack R :=
  fun heap g a hs => h (heap.className r) heap g a hs

theorem safe_push_then {k : Unit → Exec β} (h : Safe (k ()) (v :: stack) R) :
    Safe (push v >>= k) stack R :=
  .bind (safe_push (P := fun _ st => st = v :: stack) rfl) fun _ _ hst => hst ▸ h

theorem safe_pop {k : Value → Exec β} (h : Safe (k v) stack R) : Safe (pop >>= k) (v :: stack) R := by
  intro heap g a hs
  rw [run_bind_ok (run_pop hs)]
  exact h heap g _ rfl

theorem safe_popKind {n : Kind} {k : Value → Exec β} (hv : v.kind? = some n)
    (h : Safe (k v) stack R) : Safe (popKind n >>= k) (v :: stack) R := by
  intro heap g a hs
  rw [run_bind_ok (run_popKind hs hv)]
  exact h heap g _ rfl

theorem safe_popInt {k : Int32 → Exec β} (hv : v.kind? = some .int) (h : ∀ n, Safe (k n) stack R) :
    Safe (popInt >>= k) (v :: stack) R := by
  intro heap g a hs
  obtain ⟨n, rfl⟩ := Value.exists_int hv
  rw [run_bind_ok (run_popInt hs)]
  exact h n heap g _ rfl

theorem safe_popRef {k : Option Ref → Exec β} (hv : v.kind? = some .ref)
    (h : ∀ r, v = .ref r → Safe (k r) stack R) : Safe (popRef >>= k) (v :: stack) R := by
  intro heap g a hs
  obtain ⟨r, rfl⟩ := Value.exists_ref hv
  rw [run_bind_ok (run_popRef hs)]
  exact h r rfl heap g _ rfl

theorem safe_popNonNull {k : Ref → Exec β} (message : String) (hv : v.kind? = some .ref)
    (h : ∀ r, Safe (k r) stack R) : Safe (popNonNull message >>= k) (v :: stack) R := by
  have hpop : Safe (popNonNull message) (v :: stack) fun _ st => st = stack :=
    safe_popRef hv fun r _ => by
      cases r with
      | none => exact safe_throwNew _ _
      | some r => exact .pure rfl
  exact .bind hpop fun r st hst => hst ▸ h r

theorem safe_popArgs {n : Nat} {k : List Value → Exec β} {args : List Value}
    (hn : args.length = n) (h : Safe (k args.reverse) stack R) :
    Safe (popArgs n >>= k) (args ++ stack) R := by
  intro heap g a hs
  have hs' : a.stack = args.reverse.reverse ++ stack := by rw [List.reverse_reverse, hs]
  rw [run_bind_ok (run_popArgs hs' (by rw [List.length_reverse, hn]))]
  exact h heap g _ rfl

/-- a result that may be missing, in which case the computation ends -/
theorem safe_orElse {x : Option α} {otherwise : Exec α} {k : α → Exec β}
    (h : ∀ a, x = some a → Safe (k a) stack R)
    (hx : x = none → Safe otherwise stack fun _ _ => False) :
    Safe (orElse x otherwise >>= k) stack R := by
  cases x with
  | none => exact .bind (hx rfl) fun _ _ hfalse => hfalse.elim
  | some a => exact h a rfl

theorem safe_pushNew {P : Unit → List Value → Prop} {make : Heap → Value × Heap}
    (h : ∀ heap, P () ((make heap).1 :: stack)) : Safe (pushNew make) stack P :=
  safe_heap fun heap => .bind (safe_setHeap (P := fun _ st => st = stack) _ rfl) fun _ _ hst =>
    hst ▸ safe_push (h heap)

/-- the elements of an array, which may be no array -/
theorem safe_elems {k : Array Value → Exec β} (r : Ref) (heap : Heap)
    (h : ∀ elems, Safe (k elems) stack R) :
    Safe (orElse (heap.elems? r) (do fault (.notArray (← className r))) >>= k) stack R :=
  safe_orElse (fun elems _ => h elems) fun _ => safe_className r fun _ => safe_fault rfl

end Exec

/-! ## instructions -/

namespace Insn

open Exec

/-- the instruction brings a value from a field or an element -/
def reads : Insn → Bool
  | .getStatic _ | .getField _ | .arrayLoad _ => true
  | _ => false

/-- arithmetic is done on numbers, and numbers are converted to numbers of another kind -/
def Numeric : Insn → Prop
  | .arith _ k | .neg k => k.isNumeric = true
  | .convert s t => s.isNumeric = true ∧ t.isNumeric = true ∧ t ≠ s
  | _ => True

/-- the instruction makes an object, or finds out that an object is of a type -/
def makes : Insn → Bool
  | .stringConst _ | .new _ | .newArray _ | .checkCast _ => true
  | _ => false

/-- a value brought from a field or an element, or made, is what the frame says of it -/
def Brought (R : Category → Value → Prop) (i : Insn) (g : Frame) (stack : List Value) : Prop :=
  i.reads = true ∨ i.makes = true → ∀ c v, c ≠ .null → g.stack.head? = some c →
    stack.head? = some v → R c v

/-- what an instruction leaves on the stack by what the frame after it says; a call has not left its
result yet -/
def Leaves (R : Category → Value → Prop) (i : Insn) (g : Frame) : After → List Value → Prop
  | .finish _, _ => True
  | .call c, stack => ∃ (d : MethodDesc) (e : Frame), MethodDesc.parse? c.method.desc = some d ∧
      g = e.pushResult d.ret ∧ List.Forall₂ R e.stack stack
  | _, stack => i.Brought R g stack → List.Forall₂ R g.stack stack

section
variable {p : Program} {R : Category → Value → Prop} {i : Insn} {f g : Frame} {stack : List Value}
  {k : Kind}

open Category (Reading)

/-- an instruction that leaves what the frame after it says, whatever comes from outside -/
theorem Leaves.jumpIf {taken : Bool} {l : Label} (h : List.Forall₂ R g.stack stack) :
    i.Leaves R g (.jumpIf taken l) stack := by
  cases taken <;> exact fun _ => h

theorem arith_ok (op : ArithOp) {a b : Value} (hk : k.isNumeric = true) (ha : a.kind? = some k)
    (hb : b.kind? = some k) :
    (∃ v, Value.arith op k a b = .ok v ∧ v.kind? = some k) ∨
      Value.arith op k a b = .error .divideByZero := by
  cases h : Value.arith op k a b with
  | ok v => exact .inl ⟨v, rfl, Value.kind?_arith h⟩
  | error e =>
    cases e with
    | divideByZero => exact .inr rfl
    | illTyped =>
      cases k <;> cases a <;> cases b <;>
        simp [Value.kind?, Kind.isNumeric, Value.arith, Value.ofQuotient] at hk ha hb h <;>
        split at h <;> simp at h

theorem safe_execArith {op : ArithOp} {a b : Value} (hk : k.isNumeric = true)
    (ha : a.kind? = some k) (hb : b.kind? = some k) :
    Safe (execArith op k) (b :: a :: stack) fun _ st => ∃ v, v.kind? = some k ∧ st = v :: stack := by
  refine safe_pop (safe_pop ?_)
  rcases arith_ok op hk ha hb with ⟨v, hv, hvk⟩ | hzero
  · rw [hv]
    exact safe_push ⟨v, hvk, rfl⟩
  · rw [hzero]
    exact safe_throwNew _ _

theorem numeric_ne_ref (hk : k.isNumeric = true) : k ≠ .ref := by
  rintro rfl
  exact absurd hk (by decide)

theorem neg?_isSome {v : Value} (hk : k.isNumeric = true) (hv : v.kind? = some k) :
    ∃ w, Value.neg? k v = some w := by
  cases k <;> cases v <;> simp [Value.kind?, Kind.isNumeric, Value.neg?] at hk hv ⊢

theorem convert?_isSome {s t : Kind} {v : Value} (hs : s.isNumeric = true) (ht : t.isNumeric = true)
    (hne : t ≠ s) (hv : v.kind? = some s) : ∃ w, Value.convert? s t v = some w := by
  cases s <;> cases t <;> cases v <;>
    simp [Value.kind?, Kind.isNumeric, Value.convert?] at hs ht hne hv ⊢

theorem compare?_isSome {op : CompareOp} {a b : Value} (ha : a.kind? = some op.operand)
    (hb : b.kind? = some op.operand) : ∃ n, Value.compare? op a b = some n := by
  cases op <;> cases a <;> cases b <;>
    simp [Value.kind?, CompareOp.operand, Value.compare?] at ha hb ⊢

/-- a value brought from a field or an element, or made, is what the frame says -/
theorem brought_reads {c : Category} {e : Frame} {v : Value} (hi : i.reads = true ∨ i.makes = true)
    (hc : c ≠ .null) (hs : List.Forall₂ R e.stack stack) (hb : i.Brought R (e.push c) (v :: stack)) :
    List.Forall₂ R (e.push c).stack (v :: stack) :=
  .cons (hb hi c v hc rfl rfl) hs

theorem fieldCategory_ne_null {desc : String} {c : Category} (h : Frame.fieldCategory desc = .ok c) :
    c ≠ .null := by
  unfold Frame.fieldCategory at h
  split at h
  · rename_i t _
    rw [← Except.ok.inj h]
    exact Category.ofType_ne_null t
  · exact absurd h (by simp)

theorem componentOf_ne_null (c : Category) (k : Kind) : Frame.componentOf c k ≠ .null := by
  have hkind : Category.ofKind k ≠ .null := by cases k <;> simp [Category.ofKind]
  unfold Frame.componentOf
  split
  · split
    · split
      · exact Category.ofType_ne_null _
      · simp
    · exact hkind
  · exact hkind

/-- an instruction that is followed by the next entry -/
theorem safe_plain (h : Safe (execPlain p i) stack fun _ st =>
      i.Brought R g st → List.Forall₂ R g.stack st) :
    Safe (execPlain p i >>= fun _ => pure After.next) stack (i.Leaves R g) :=
  .bind h fun _ _ hst => .pure hst

/-- operands that are moved -/
theorem safe_moved (hi : i = .pop ∨ i = .dup ∨ i = .dupX1 ∨ i = .swap) (happly : f.apply i = .ok g)
    (hs : List.Forall₂ R f.stack stack) :
    Safe (execPlain p i) stack fun _ st => List.Forall₂ R g.stack st := by
  rcases hi with rfl | rfl | rfl | rfl <;>
    obtain ⟨⟨c, e⟩, hpop, happly⟩ := Effect.bind_eq_ok happly <;>
    obtain ⟨v, rest, rfl, hv, hrest⟩ := (Frame.popNarrow_ok hpop).1.reads_one hs
  · rw [← Except.ok.inj happly]
    exact safe_pop (.pure hrest)
  · rw [← Except.ok.inj happly]
    exact safe_pop (safe_push_then (safe_push (.cons hv (.cons hv hrest))))
  all_goals
    obtain ⟨⟨d, e'⟩, hpop', happly⟩ := Effect.bind_eq_ok happly
    obtain ⟨w, rest', rfl, hw, hrest'⟩ := (Frame.popNarrow_ok hpop').1.reads_one hrest
    rw [← Except.ok.inj happly]
  · exact safe_pop (safe_pop (safe_push_then (safe_push_then (safe_push
      (.cons hv (.cons hw (.cons hv hrest')))))))
  · exact safe_pop (safe_pop (safe_push_then (safe_push (.cons hw (.cons hv hrest')))))

/-- a call takes its operands -/
theorem safe_invoke {kind : InvokeKind} {m : MethodId} (happly : f.apply (.invoke kind m) = .ok g)
    (hs : List.Forall₂ R f.stack stack) :
    Safe (exec p (.invoke kind m)) stack ((Insn.invoke kind m).Leaves R g) := by
  obtain ⟨d, cs, e, hd, htakes, hcs, rfl⟩ := Frame.apply_invoke happly
  obtain ⟨vs, rest, rfl, hvs, hrest⟩ := htakes.reads hs
  have hlen : vs.length = d.params.length + if kind.hasReceiver then 1 else 0 := by
    rw [← hvs.length_eq, Frame.length_of_kinds hcs]
    unfold Frame.operandKinds
    cases kind.hasReceiver <;> simp
  have htake : Safe (execInvoke kind m) (vs ++ rest) fun c st => c = ⟨kind, m, vs.reverse⟩ ∧ st = rest := by
    unfold execInvoke
    rw [hd]
    exact safe_popArgs hlen (.pure ⟨rfl, rfl⟩)
  refine .bind htake ?_
  rintro c st ⟨rfl, rfl⟩
  exact .pure ⟨d, e, hd, rfl, hrest⟩

variable [Reading R]

/-- the top of a stack that a frame looks at -/
theorem peek_reads {c : Category} (hpeek : f.peek = .ok c) (hf : f.Loaded)
    (hs : List.Forall₂ R f.stack stack) :
    ∃ cs v rest, f.stack = c :: cs ∧ stack = v :: rest ∧ R c v ∧ v.width = c.width ∧
      List.Forall₂ R cs rest := by
  obtain ⟨k, hk⟩ := hf c (Frame.peek_mem hpeek)
  unfold Frame.peek at hpeek
  split at hpeek
  · exact absurd hpeek (by simp)
  · rename_i c' cs hstack
    obtain rfl := Except.ok.inj hpeek
    rw [hstack] at hs
    cases hs with
    | cons hv hrest => exact ⟨cs, _, _, hstack, rfl, hv, Reading.width hv hk, hrest⟩

/-- two narrow operands, or a wide one -/
theorem safe_pop2 (hf : f.Loaded) (happly : f.apply .pop2 = .ok g)
    (hs : List.Forall₂ R f.stack stack) :
    Safe (execPlain p .pop2) stack fun _ st => List.Forall₂ R g.stack st := by
  obtain ⟨top, htop, happly⟩ := Effect.bind_eq_ok happly
  obtain ⟨cs, v, rest, hstack, rfl, -, hwidth, hrest⟩ := peek_reads htop hf hs
  dsimp only at happly
  split at happly
  · rename_i h2
    obtain ⟨⟨c, e⟩, hpop, happly⟩ := Effect.bind_eq_ok happly
    obtain ⟨_, rest', heq, -, hrest'⟩ := (Frame.pop_ok hpop).reads_one hs
    obtain ⟨rfl, rfl⟩ := List.cons.inj heq
    rw [← Except.ok.inj happly]
    refine safe_pop ?_
    rw [if_neg (by omega)]
    exact .pure hrest'
  · obtain ⟨⟨c, e⟩, hpop, happly⟩ := Effect.bind_eq_ok happly
    obtain ⟨⟨d, e'⟩, hpop', happly⟩ := Effect.bind_eq_ok happly
    obtain ⟨htakes, h1⟩ := Frame.popNarrow_ok hpop
    obtain ⟨_, rest', heq, -, hrest'⟩ := htakes.reads_one hs
    obtain ⟨rfl, rfl⟩ := List.cons.inj heq
    obtain ⟨w, rest'', rfl, -, hrest''⟩ := (Frame.popNarrow_ok hpop').1.reads_one hrest'
    have hc : top = c := (List.cons.inj (hstack.symm.trans htakes.stack)).1
    rw [← Except.ok.inj happly]
    refine safe_pop ?_
    rw [if_pos (by rw [hwidth, hc, h1])]
    exact safe_pop (.pure hrest'')

/-- two narrow operands, or a wide one, pushed again -/
theorem safe_dup2 (hf : f.Loaded) (happly : f.apply .dup2 = .ok g)
    (hs : List.Forall₂ R f.stack stack) :
    Safe (execPlain p .dup2) stack fun _ st => List.Forall₂ R g.stack st := by
  obtain ⟨top, htop, happly⟩ := Effect.bind_eq_ok happly
  obtain ⟨cs, v, rest, hstack, rfl, hv, hwidth, hrest⟩ := peek_reads htop hf hs
  dsimp only at happly
  split at happly
  · rename_i h2
    rw [← Except.ok.inj happly]
    refine safe_pop ?_
    rw [if_pos (by omega)]
    exact safe_push_then (safe_push (.cons hv hs))
  · obtain ⟨⟨c, e⟩, hpop, happly⟩ := Effect.bind_eq_ok happly
    obtain ⟨⟨d, e'⟩, hpop', happly⟩ := Effect.bind_eq_ok happly
    obtain ⟨htakes, h1⟩ := Frame.popNarrow_ok hpop
    obtain ⟨_, rest', heq, hc, hrest'⟩ := htakes.reads_one hs
    obtain ⟨rfl, rfl⟩ := List.cons.inj heq
    obtain ⟨w, rest'', rfl, hw, hrest''⟩ := (Frame.popNarrow_ok hpop').1.reads_one hrest'
    rw [← Except.ok.inj happly]
    refine safe_pop ?_
    rw [if_neg (by omega)]
    exact safe_pop (safe_push_then (safe_push_then (safe_push_then (safe_push
      (.cons hc (.cons hw (.cons hc (.cons hw hrest''))))))))

/-- computations of numbers -/
theorem safe_numbers (hi : (∃ op k, i = .arith op k) ∨ (∃ k, i = .neg k) ∨ (∃ s t, i = .convert s t) ∨
      ∃ op, i = .compare op) (hnum : i.Numeric) (happly : f.apply i = .ok g)
    (hs : List.Forall₂ R f.stack stack) :
    Safe (execPlain p i) stack fun _ st => List.Forall₂ R g.stack st := by
  rcases hi with ⟨op, k, rfl⟩ | ⟨k, rfl⟩ | ⟨s, t, rfl⟩ | ⟨op, rfl⟩ <;>
    obtain ⟨e, he, rfl⟩ := Frame.replace_ok happly
  · obtain ⟨b, a, rest, rfl, hb, ha, hrest⟩ := Frame.popKinds_reads_two he hs
    refine (safe_execArith hnum ha hb).mono ?_
    rintro _ _ ⟨v, hv, rfl⟩
    exact .cons (Category.reads_ofKind (numeric_ne_ref hnum) hv) hrest
  · obtain ⟨v, rest, rfl, hv, hrest⟩ := Frame.popKinds_reads_one he hs
    obtain ⟨w, hw⟩ := neg?_isSome hnum hv
    refine safe_pop (safe_orElse (fun u hu => safe_push ?_) fun hnone => ?_)
    · exact .cons (Category.reads_ofKind (numeric_ne_ref hnum) (Value.kind?_neg? hu)) hrest
    · exact absurd (hw.symm.trans hnone) (by simp)
  · obtain ⟨v, rest, rfl, hv, hrest⟩ := Frame.popKinds_reads_one he hs
    obtain ⟨w, hw⟩ := convert?_isSome hnum.1 hnum.2.1 hnum.2.2 hv
    refine safe_pop (safe_orElse (fun u hu => safe_push ?_) fun hnone => ?_)
    · exact .cons (Category.reads_ofKind (numeric_ne_ref hnum.2.1) (Value.kind?_convert? hu)) hrest
    · exact absurd (hw.symm.trans hnone) (by simp)
  · obtain ⟨b, a, rest, rfl, hb, ha, hrest⟩ := Frame.popKinds_reads_two he hs
    obtain ⟨n, hn⟩ := compare?_isSome ha hb
    refine safe_pop (safe_pop (safe_orElse (fun u hu => safe_push ?_) fun hnone => ?_))
    · exact .cons (Reading.number (by simp) rfl rfl) hrest
    · exact absurd (hn.symm.trans hnone) (by simp)

/-- accesses to fields -/
theorem safe_fields (hi : (∃ r, i = .getStatic r) ∨ (∃ r, i = .putStatic r) ∨ (∃ r, i = .getField r) ∨
      ∃ r, i = .putField r) (happly : f.apply i = .ok g)
    (hs : List.Forall₂ R f.stack stack) :
    Safe (execPlain p i) stack fun _ st => i.Brought R g st → List.Forall₂ R g.stack st := by
  rcases hi with ⟨r, rfl⟩ | ⟨r, rfl⟩ | ⟨r, rfl⟩ | ⟨r, rfl⟩
  · obtain ⟨c, hc, happly⟩ := Effect.bind_eq_ok happly
    have hne := fieldCategory_ne_null hc
    rw [← Except.ok.inj happly]
    rintro heap s a rfl
    exact .value fun hb => brought_reads (.inl rfl) hne hs hb
  · obtain ⟨c, hc, happly⟩ := Effect.bind_eq_ok happly
    obtain ⟨v, rest, rfl, -, hrest⟩ := Frame.popKinds_reads_one happly hs
    refine safe_pop ?_
    rintro heap s a rfl
    exact .value fun _ => hrest
  · obtain ⟨e, he, happly⟩ := Effect.bind_eq_ok happly
    obtain ⟨c, hc, happly⟩ := Effect.bind_eq_ok happly
    have hne := fieldCategory_ne_null hc
    obtain ⟨v, rest, rfl, hv, hrest⟩ := Frame.popKinds_reads_one he hs
    rw [← Except.ok.inj happly]
    exact safe_popNonNull _ hv fun r => safe_heap fun heap => safe_orElse
      (fun u _ => safe_push fun hb => brought_reads (.inl rfl) hne hrest hb)
      fun _ => safe_className r fun _ => safe_fault rfl
  · obtain ⟨c, hc, happly⟩ := Effect.bind_eq_ok happly
    obtain ⟨v, w, rest, rfl, -, hw, hrest⟩ := Frame.popKinds_reads_two happly hs
    exact safe_pop (safe_popNonNull _ hw fun r => safe_heap fun heap => safe_orElse
      (fun u _ => safe_setHeap u fun _ => hrest) fun _ => safe_className r fun _ => safe_fault rfl)

/-- arrays -/
theorem safe_arrays (hi : (∃ t, i = .newArray t) ∨ i = .arrayLength ∨ (∃ k, i = .arrayLoad k) ∨
      ∃ k, i = .arrayStore k) (happly : f.apply i = .ok g)
    (hs : List.Forall₂ R f.stack stack) :
    Safe (execPlain p i) stack fun _ st => i.Brought R g st → List.Forall₂ R g.stack st := by
  rcases hi with ⟨t, rfl⟩ | rfl | ⟨k, rfl⟩ | ⟨k, rfl⟩
  · obtain ⟨_, -, happly⟩ := Effect.bind_eq_ok happly
    obtain ⟨e, he, rfl⟩ := Frame.replace_ok happly
    obtain ⟨v, rest, rfl, hv, hrest⟩ := Frame.popKinds_reads_one he hs
    refine safe_popInt hv fun n => ?_
    split
    · exact safe_throwNew _ _
    · exact safe_pushNew fun heap hb => brought_reads (.inr rfl) (by simp) hrest hb
  · obtain ⟨e, he, rfl⟩ := Frame.replace_ok happly
    obtain ⟨v, rest, rfl, hv, hrest⟩ := Frame.popKinds_reads_one he hs
    exact safe_popNonNull _ hv fun r => safe_heap fun heap => safe_elems r heap fun elems =>
      safe_push fun _ => .cons (Reading.number (by simp) rfl rfl) hrest
  · obtain ⟨e, he, happly⟩ := Effect.bind_eq_ok happly
    obtain ⟨⟨c, e'⟩, he', happly⟩ := Effect.bind_eq_ok happly
    obtain ⟨v, rest, rfl, hv, hrest⟩ := Frame.popKinds_reads_one he hs
    obtain ⟨htakes, hck⟩ := Frame.popKind_ok he'
    obtain ⟨w, rest', rfl, hw, hrest'⟩ := htakes.reads_one hrest
    rw [← Except.ok.inj happly]
    refine safe_popInt hv fun n => safe_popNonNull _ (Reading.kind hw hck) fun r => safe_heap fun heap =>
      safe_elems r heap fun elems => ?_
    split
    · exact safe_outOfBounds n
    · exact safe_orElse (fun u _ => safe_push fun hb => brought_reads (.inl rfl) (componentOf_ne_null c k)
        hrest' hb) fun _ => safe_outOfBounds n
  · obtain ⟨vs, rest, rfl, hkinds, hrest⟩ := Frame.popKinds_reads happly hs
    obtain ⟨v, ws, rfl, -, hkinds⟩ := List.map_eq_cons_iff.1 hkinds
    obtain ⟨n, us, rfl, hn, hkinds⟩ := List.map_eq_cons_iff.1 hkinds
    obtain ⟨w, rfl, hw⟩ : ∃ w, us = [w] ∧ w.kind? = some .ref := by
      simpa [List.map_eq_singleton_iff] using hkinds
    refine safe_pop (safe_popInt hn fun n => safe_popNonNull _ hw fun r => safe_heap fun heap =>
      safe_elems r heap fun elems => ?_)
    split
    · exact safe_outOfBounds n
    · exact safe_heap fun heap => safe_orElse (fun u _ => safe_setHeap u fun _ => hrest)
        fun _ => safe_outOfBounds n

/-- casts and questions about the type -/
theorem safe_types (hi : (∃ t, i = .checkCast t) ∨ ∃ t, i = .instanceOf t)
    (happly : f.apply i = .ok g) (hs : List.Forall₂ R f.stack stack) :
    Safe (execPlain p i) stack fun _ st => i.Brought R g st → List.Forall₂ R g.stack st := by
  rcases hi with ⟨t, rfl⟩ | ⟨t, rfl⟩
  · obtain ⟨⟨c, e⟩, he, happly⟩ := Effect.bind_eq_ok happly
    obtain ⟨htakes, hck⟩ := Frame.popKind_ok he
    obtain ⟨v, rest, rfl, hv, hrest⟩ := htakes.reads_one hs
    rw [← Except.ok.inj happly]
    -- what is only known to be null stays so
    have hpushed (r : Option Ref) (hr : v = .ref r)
        (hb : (Insn.checkCast t).Brought R (e.push (if c = .null then .null else .ref t))
          (.ref r :: rest)) :
        List.Forall₂ R (e.push (if c = .null then .null else .ref t)).stack (.ref r :: rest) := by
      by_cases hnull : c = .null
      · rw [if_pos hnull]
        exact .cons (Reading.null.2 (hr ▸ Reading.null.1 (hnull ▸ hv))) hrest
      · rw [if_neg hnull] at hb ⊢
        exact brought_reads (.inr rfl) (by simp) hrest hb
    refine safe_popRef (Reading.kind hv hck) fun r hr => ?_
    cases r with
    | none => exact safe_push fun hb => hpushed none hr hb
    | some x =>
      refine safe_className x fun type => ?_
      split
      · exact safe_push fun hb => hpushed (some x) hr hb
      · exact safe_throwNew _ _
  · obtain ⟨e, he, rfl⟩ := Frame.replace_ok happly
    obtain ⟨v, rest, rfl, hv, hrest⟩ := Frame.popKinds_reads_one he hs
    have hpushed (b : Bool) :
        List.Forall₂ R (e.push .int).stack (Value.ofBool b :: rest) :=
      .cons (Reading.number (by simp) rfl rfl) hrest
    refine safe_popRef hv fun r _ => ?_
    cases r with
    | none => exact safe_push fun _ => hpushed _
    | some x => exact safe_className x fun type => safe_push fun _ => hpushed _

/-- constants, new objects, and entries that do nothing -/
theorem safe_constants (hi : i = .nop ∨ (∃ l, i = .label l) ∨ i = .nullConst ∨ (∃ v, i = .intConst v) ∨
      (∃ v, i = .longConst v) ∨ (∃ v, i = .floatConst v) ∨ (∃ v, i = .doubleConst v) ∨
      (∃ s, i = .stringConst s) ∨ ∃ t, i = .new t) (happly : f.apply i = .ok g)
    (hs : List.Forall₂ R f.stack stack) :
    Safe (execPlain p i) stack fun _ st => i.Brought R g st → List.Forall₂ R g.stack st := by
  have hpush {c : Category} {v : Value} {k : Kind} (hk : c.kind? = some k) (hne : k ≠ .ref)
      (hv : v.kind? = some k) : List.Forall₂ R (f.push c).stack (v :: stack) :=
    .cons (Reading.number hne hk hv) hs
  rcases hi with rfl | ⟨l, rfl⟩ | rfl | ⟨v, rfl⟩ | ⟨v, rfl⟩ | ⟨v, rfl⟩ | ⟨v, rfl⟩ | ⟨s, rfl⟩ | ⟨t, rfl⟩ <;>
    rw [← Except.ok.inj happly]
  · exact .pure fun _ => hs
  · exact .pure fun _ => hs
  · exact safe_push fun _ => .cons (Reading.null.2 rfl) hs
  · exact safe_push fun _ => hpush rfl (by simp) rfl
  · exact safe_push fun _ => hpush rfl (by simp) rfl
  · exact safe_push fun _ => hpush rfl (by simp) rfl
  · exact safe_push fun _ => hpush rfl (by simp) rfl
  · show Safe (pushNew fun h => h.makeString s) stack _
    exact safe_pushNew fun heap hb => brought_reads (.inr rfl) (by simp) hs hb
  · show Safe (pushNew fun h => h.makeInstance t) stack _
    exact safe_pushNew fun heap hb => brought_reads (.inr rfl) (by simp) hs hb

/-- jumps that depend on operands -/
theorem safe_branches (hi : (∃ c l, i = .branch c l) ∨ (∃ c l, i = .branchCompare c l) ∨
      (∃ l, i = .branchSame l) ∨ (∃ l, i = .branchDistinct l) ∨ (∃ l, i = .branchNull l) ∨
      (∃ l, i = .branchNonNull l) ∨ (∃ low d ts, i = .tableSwitch low d ts) ∨
      ∃ d cs, i = .lookupSwitch d cs) (happly : f.apply i = .ok g)
    (hs : List.Forall₂ R f.stack stack) :
    Safe (i.exec p) stack (i.Leaves R g) := by
  rcases hi with ⟨c, l, rfl⟩ | ⟨c, l, rfl⟩ | ⟨l, rfl⟩ | ⟨l, rfl⟩ | ⟨l, rfl⟩ | ⟨l, rfl⟩ |
    ⟨low, d, ts, rfl⟩ | ⟨d, cs, rfl⟩
  · obtain ⟨v, rest, rfl, hv, hrest⟩ := Frame.popKinds_reads_one happly hs
    exact safe_popInt hv fun n => .pure (.jumpIf hrest)
  · obtain ⟨v, w, rest, rfl, hv, hw, hrest⟩ := Frame.popKinds_reads_two happly hs
    exact safe_popInt hv fun n => safe_popInt hw fun n' => .pure (.jumpIf hrest)
  · obtain ⟨v, w, rest, rfl, hv, hw, hrest⟩ := Frame.popKinds_reads_two happly hs
    exact safe_popRef hv fun r _ => safe_popRef hw fun r' _ => .pure (.jumpIf hrest)
  · obtain ⟨v, w, rest, rfl, hv, hw, hrest⟩ := Frame.popKinds_reads_two happly hs
    exact safe_popRef hv fun r _ => safe_popRef hw fun r' _ => .pure (.jumpIf hrest)
  · obtain ⟨v, rest, rfl, hv, hrest⟩ := Frame.popKinds_reads_one happly hs
    exact safe_popRef hv fun r _ => .pure (.jumpIf hrest)
  · obtain ⟨v, rest, rfl, hv, hrest⟩ := Frame.popKinds_reads_one happly hs
    exact safe_popRef hv fun r _ => .pure (.jumpIf hrest)
  · obtain ⟨v, rest, rfl, hv, hrest⟩ := Frame.popKinds_reads_one happly hs
    exact safe_popInt hv fun n => .pure fun _ => hrest
  · obtain ⟨v, rest, rfl, hv, hrest⟩ := Frame.popKinds_reads_one happly hs
    exact safe_popInt hv fun n => .pure fun _ => hrest

/-- **An instruction that leaves locals alone** does not fail on operands that are what a frame says in
which it can stand -/
theorem safe_exec (hi : i.usesLocals = false) (hnum : i.Numeric) (hf : f.Loaded)
    (happly : f.apply i = .ok g) (hs : List.Forall₂ R f.stack stack) :
    Safe (i.exec p) stack (i.Leaves R g) := by
  cases i with
  | load | store | increment => exact absurd hi (by simp [usesLocals])
  | jumpSubroutine | returnSubroutine => exact absurd happly (by simp [Frame.apply])
  | nop | label | nullConst | intConst | longConst | floatConst | doubleConst | stringConst | new =>
    exact safe_plain (safe_constants (by simp) happly hs)
  | pop | dup | dupX1 | swap =>
    exact safe_plain ((safe_moved (by simp) happly hs).mono fun _ _ h _ => h)
  | pop2 => exact safe_plain ((safe_pop2 hf happly hs).mono fun _ _ h _ => h)
  | dup2 => exact safe_plain ((safe_dup2 hf happly hs).mono fun _ _ h _ => h)
  | arith | neg | convert | compare =>
    exact safe_plain ((safe_numbers (by simp) hnum happly hs).mono fun _ _ h _ => h)
  | getStatic | putStatic | getField | putField => exact safe_plain (safe_fields (by simp) happly hs)
  | newArray | arrayLength | arrayLoad | arrayStore =>
    exact safe_plain (safe_arrays (by simp) happly hs)
  | checkCast | instanceOf =>
    exact safe_plain (safe_types (by simp) happly hs)
  | branch | branchCompare | branchSame | branchDistinct | branchNull | branchNonNull | tableSwitch
  | lookupSwitch => exact safe_branches (by simp) happly hs
  | jump l =>
    rw [← Except.ok.inj happly]
    exact .pure fun _ => hs
  | ret k =>
    cases k with
    | none => exact .pure trivial
    | some k =>
      obtain ⟨v, rest, rfl, hv, -⟩ := Frame.popKinds_reads_one happly hs
      exact safe_popKind hv (.pure trivial)
  | throw =>
    obtain ⟨v, rest, rfl, hv, -⟩ := Frame.popKinds_reads_one happly hs
    refine safe_popNonNull _ hv fun r => ?_
    intro heap s a _
    exact .exception r _
  | invoke kind m => exact safe_invoke happly hs

/-! ## all instructions -/

/-- how an instruction may end in an activation, by what the frame after it says -/
inductive Conforms (R : Category → Value → Prop) (i : Insn) (a : Activation) (g : Frame) :
    Except Throw After × Scope → Prop
  | value {o : After} {s : Scope} (method : s.activation.method = a.method)
      (position : s.activation.position = a.position)
      (locals : List.Forall₂ R g.locals s.activation.locals)
      (leaves : i.Leaves R g o s.activation.stack) : Conforms R i a g (.ok o, s)
  | exception {r : Ref} {s : Scope} (stack : List Value) (activation : s.activation = { a with stack }) :
      Conforms R i a g (.error (.exception r), s)
  | fault {e : Fault} {s : Scope} (flawless : e.isFlaw = false) :
      Conforms R i a g (.error (.fault e), s)

/-- an instruction that has left locals alone -/
theorem conforms_local {a : Activation} (hi : i.usesLocals = false) (hnum : i.Numeric)
    (hf : f.Loaded) (happly : f.apply i = .ok g) (hholds : f.Reads R a.locals a.stack) (heap : Heap)
    (statics : Bindings) : Conforms R i a g ((i.exec p).run ⟨heap, statics, a⟩) := by
  have hends := safe_exec (p := p) hi hnum hf happly hholds.stack heap statics a rfl
  have hlocals : g.locals = f.locals :=
    (Frame.Keeps.of_apply (fun k slot h => absurd (h ▸ hi) (by simp [usesLocals])) happly).locals
  obtain ⟨op, hop⟩ := local_exec (p := p) hi
  rw [hop] at hends ⊢
  generalize op heap statics a.stack = r at hends ⊢
  obtain ⟨result, heap', statics', stack⟩ := r
  cases hends with
  | value hleaves => exact .value rfl rfl (hlocals ▸ hholds.locals) hleaves
  | exception r s => exact .exception stack rfl
  | fault hf => exact .fault hf

/-- **An instruction in a frame that holds** does not fail by a flaw, and leaves what the frame after it
says -/
theorem exec_conforms {a : Activation} (hnum : i.Numeric) (hf : f.Loaded)
    (happly : f.apply i = .ok g) (hholds : f.Reads R a.locals a.stack) (heap : Heap)
    (statics : Bindings) : Conforms R i a g ((i.exec p).run ⟨heap, statics, a⟩) := by
  cases i with
  | load k slot =>
    obtain ⟨c, hc, happly⟩ := Effect.bind_eq_ok happly
    obtain ⟨v, hv, hcv⟩ := hholds.local (Frame.getLocal_ok hc)
    split at happly
    · rename_i hk
      rw [run_load hv (Reading.kind hcv hk), ← Except.ok.inj happly]
      exact .value rfl rfl hholds.locals fun _ => .cons hcv hholds.stack
    · exact absurd happly (by simp)
  | store k slot =>
    obtain ⟨⟨c, e⟩, hpop, happly⟩ := Effect.bind_eq_ok happly
    obtain ⟨htakes, hk⟩ := Frame.popKind_ok hpop
    obtain ⟨v, rest, hstack, hcv, hrest⟩ := htakes.reads_one hholds.stack
    obtain ⟨hle, hlocals, hg⟩ := Frame.setLocal_ok happly
    rw [htakes.locals] at hle hlocals
    have hfits : slot.toNat + v.width ≤ a.locals.length := by
      rw [Reading.width hcv hk, ← hholds.locals.length_eq]
      exact hle
    rw [run_store hstack (Reading.kind hcv hk) hfits]
    refine .value rfl rfl ?_ fun _ => ?_
    · rw [hlocals]
      exact Frame.reads_putLocal hholds.locals hcv hk hle
    · rw [hg]
      exact hrest
  | increment slot d =>
    obtain ⟨c, hc, happly⟩ := Effect.bind_eq_ok happly
    obtain ⟨v, hv, hcv⟩ := hholds.local (Frame.getLocal_ok hc)
    split at happly
    · rename_i hint
      obtain ⟨n, rfl⟩ := Value.exists_int (Reading.kind hcv (by rw [hint]; rfl))
      obtain ⟨hlt, -⟩ := List.getElem?_eq_some_iff.1 hv
      rw [run_increment hv, ← Except.ok.inj happly]
      exact .value rfl rfl (Frame.reads_set hholds.locals (Frame.getLocal_ok hc)
        (Reading.number (k := .int) (by simp) (by rw [hint]; rfl) rfl)) fun _ =>
          hholds.stack
    · exact absurd happly (by simp)
  | _ => exact conforms_local rfl hnum hf happly hholds heap statics

end
end Insn
end Resumable
