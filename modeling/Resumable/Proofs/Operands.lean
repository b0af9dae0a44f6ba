import Resumable.Proofs.Effects
import Resumable.Proofs.Heaps

/-!
# What instructions are made of

Instructions are put together from a few operations on operands, the heap and the statics, and only loads,
stores and increments work on locals.  A property of computations that these operations have and that is
kept by doing one after another is one of all instructions.  One such property is not to see the locals.
Where control goes after an instruction is among what its control flow says.

* `Exec.Closed`, `Exec.Closed.exec` : properties of the operations, and of instructions;
* `Exec.Local` : a computation that does not see the locals;
* `Insn.local_exec` : the instructions that are such;
* `After.Fits`, `Insn.exec_fits` : where control goes;
* `Insn.exec_program` : what an instruction takes from the program.
-/

namespace Resumable

/-- the instruction reads or writes locals -/
def Insn.usesLocals : Insn → Bool
  | .load .. | .store .. | .increment .. => true
  | _ => false

namespace Exec

open Effect

variable {α β : Type}

/-- a property of the operations that instructions are made of, and of what is put together from them -/
structure Closed (P : (α : Type) → Exec α → Prop) : Prop where
  pure {α : Type} (a : α) : P α (Pure.pure a)
  bind {α β : Type} {x : Exec α} {k : α → Exec β} (hx : P α x) (hk : ∀ a, P β (k a)) : P β (x >>= k)
  throw {α : Type} (t : Throw) : P α (MonadExcept.throw t)
  throwNew {α : Type} (type message : String) : P α (throwNew type message)
  /-- a computation that looks at the heap and the statics first -/
  look {α : Type} {k : Scope → Exec α} (k' : Heap → Bindings → Exec α)
    (hk : ∀ s, k s = k' s.heap s.statics) (h : ∀ h g, P α (k' h g)) : P α (get >>= k)
  push (v : Value) : P Unit (push v)
  pop : P Value pop
  popArgs (n : Nat) : P (List Value) (popArgs n)
  make (o : Object) : P Unit (pushNew fun h => h.make o)
  /-- a change of the heap that may not be possible, in which case the computation ends -/
  write {change : Heap → Option Heap} {otherwise : Exec Heap}
    (hchange : ∀ h u, change h = some u → h.Grows u) (hother : P Heap otherwise)
    (hends : ∀ s u t, otherwise.run s ≠ (.ok u, t)) :
    P Unit (heap >>= fun h => orElse (change h) otherwise >>= setHeap)
  writeStatic (key : String) (v : Value) :
    P Unit (modify fun s : Scope => { s with statics := s.statics.put key v })

namespace Closed

variable {P : (α : Type) → Exec α → Prop} {p : Program}

theorem ite (_ : Closed P) {c : Prop} [Decidable c] {x y : Exec α} (hx : P α x) (hy : P α y) :
    P α (if c then x else y) := by
  split
  · exact hx
  · exact hy

/-! ## parts of instructions -/

theorem fault (h : Closed P) (f : Fault) : P α (fault f) := h.throw _

theorem heap (h : Closed P) : P Heap heap :=
  h.look (fun h _ => Pure.pure h) (fun _ => rfl) fun _ _ => h.pure _

theorem illTyped (h : Closed P) (k : Kind) (v : Value) : P α (illTyped k v) :=
  h.look (fun h _ => Exec.fault (.illTyped k (h.shown v))) (fun _ => rfl) fun _ _ => h.fault _

theorem className (h : Closed P) (r : Ref) : P String (className r) := h.bind h.heap fun _ => h.pure _

theorem outOfBounds (h : Closed P) (i : Int32) : P α (outOfBounds i) := h.throwNew _ _

theorem popInt (h : Closed P) : P Int32 popInt :=
  h.bind h.pop fun v => by cases v <;> first | exact h.pure _ | exact h.illTyped _ _

theorem popRef (h : Closed P) : P (Option Ref) popRef :=
  h.bind h.pop fun v => by cases v <;> first | exact h.pure _ | exact h.illTyped _ _

theorem popNonNull (h : Closed P) (message : String) : P Ref (popNonNull message) :=
  h.bind h.popRef fun r => by cases r <;> first | exact h.pure _ | exact h.throwNew _ _

theorem popKind (h : Closed P) (k : Kind) : P Value (popKind k) :=
  h.bind h.pop fun _ => h.ite (h.pure _) (h.illTyped _ _)

theorem orElse (h : Closed P) (v : Option α) {otherwise : Exec α} (hother : P α otherwise) :
    P α (orElse v otherwise) := by
  cases v
  · exact hother
  · exact h.pure _

theorem elems (h : Closed P) (r : Ref) (heap : Heap) :
    P (Array Value) (Exec.orElse (heap.elems? r) (do Exec.fault (.notArray (← Exec.className r)))) :=
  h.orElse _ (h.bind (h.className r) fun _ => h.fault _)

theorem execArith (h : Closed P) (op : ArithOp) (k : Kind) : P Unit (Insn.execArith op k) := by
  refine h.bind h.pop fun b => h.bind h.pop fun a => ?_
  cases Value.arith op k a b with
  | ok v => exact h.push v
  | error e =>
    cases e with
    | illTyped => exact h.illTyped _ _
    | divideByZero => exact h.throwNew _ _

theorem execInvoke (h : Closed P) (k : InvokeKind) (m : MethodId) : P Call (Insn.execInvoke k m) := by
  unfold Insn.execInvoke
  split
  · exact h.fault _
  · exact h.bind (h.popArgs _) fun _ => h.pure _

theorem checkCast (h : Closed P) (t : String) : P Unit (Insn.execPlain p (.checkCast t)) := by
  refine h.bind h.popRef fun v => ?_
  cases v with
  | none => exact h.push _
  | some r => exact h.bind (h.className r) fun _ => h.ite (h.push _) (h.throwNew _ _)

theorem instanceOf (h : Closed P) (t : String) : P Unit (Insn.execPlain p (.instanceOf t)) := by
  refine h.bind h.popRef fun v => ?_
  cases v with
  | none => exact h.push _
  | some r => exact h.bind (h.className r) fun _ => h.push _

/-! ## instructions -/

theorem execPlain (h : Closed P) {i : Insn} (hi : i.usesLocals = false) :
    P Unit (Insn.execPlain p i) := by
  cases i with
  | load k slot => exact absurd hi (by simp [Insn.usesLocals])
  | store k slot => exact absurd hi (by simp [Insn.usesLocals])
  | increment slot d => exact absurd hi (by simp [Insn.usesLocals])
  | nullConst => exact h.push _
  | intConst v => exact h.push _
  | longConst v => exact h.push _
  | floatConst v => exact h.push _
  | doubleConst v => exact h.push _
  | stringConst s => exact h.make (.string s)
  | arith op k => exact h.execArith op k
  | neg k =>
    exact h.bind h.pop fun _ => h.bind (h.orElse _ (h.illTyped _ _)) fun _ => h.push _
  | convert s t =>
    exact h.bind h.pop fun _ => h.bind (h.orElse _ (h.bind h.heap fun _ => h.fault _))
      fun _ => h.push _
  | compare op =>
    exact h.bind h.pop fun _ => h.bind h.pop fun _ =>
      h.bind (h.orElse _ (h.illTyped _ _)) fun _ => h.push _
  | getStatic f =>
    exact h.look (fun _ g => Exec.push ((g.find? f.key).getD (Value.default f.desc))) (fun _ => rfl)
      fun _ _ => h.push _
  | putStatic f => exact h.bind h.pop fun v => h.writeStatic f.key v
  | getField f =>
    exact h.bind (h.popNonNull _) fun r => h.bind h.heap fun _ => h.bind (h.orElse _
      (h.bind (h.className r) fun _ => h.fault _)) fun _ => h.push _
  | putField f =>
    exact h.bind h.pop fun _ => h.bind (h.popNonNull _) fun r =>
      h.write (fun _ _ => Heap.grows_putField?) (h.bind (h.className r) fun _ => h.fault _) nofun
  | new t => exact h.make (.instance t [])
  | newArray t =>
    exact h.bind h.popInt fun n => h.ite (h.throwNew _ _)
      (h.make (.array ("[" ++ t) (Array.replicate n.toInt.toNat (Value.default t))))
  | arrayLength =>
    exact h.bind (h.popNonNull _) fun r => h.bind h.heap fun _ =>
      h.bind (h.elems r _) fun _ => h.push _
  | arrayLoad k =>
    exact h.bind h.popInt fun _ => h.bind (h.popNonNull _) fun r => h.bind h.heap fun _ =>
      h.bind (h.elems r _) fun _ => h.ite (h.outOfBounds _)
        (h.bind (h.orElse _ (h.outOfBounds _)) fun _ => h.push _)
  | arrayStore k =>
    exact h.bind h.pop fun _ => h.bind h.popInt fun _ => h.bind (h.popNonNull _) fun r =>
      h.bind h.heap fun _ => h.bind (h.elems r _) fun _ => h.ite (h.outOfBounds _)
        (h.write (fun _ _ => Heap.grows_putElem?) (h.outOfBounds _) nofun)
  | checkCast t => exact h.checkCast t
  | instanceOf t => exact h.instanceOf t
  | pop => exact h.bind h.pop fun _ => h.pure _
  | pop2 => exact h.bind h.pop fun _ => h.ite (h.bind h.pop fun _ => h.pure _) (h.pure _)
  | dup => exact h.bind h.pop fun _ => h.bind (h.push _) fun _ => h.push _
  | dupX1 =>
    exact h.bind h.pop fun _ => h.bind h.pop fun _ => h.bind (h.push _) fun _ =>
      h.bind (h.push _) fun _ => h.push _
  | dup2 =>
    exact h.bind h.pop fun _ => h.ite (h.bind (h.push _) fun _ => h.push _)
      (h.bind h.pop fun _ => h.bind (h.push _) fun _ => h.bind (h.push _) fun _ =>
        h.bind (h.push _) fun _ => h.push _)
  | swap =>
    exact h.bind h.pop fun _ => h.bind h.pop fun _ => h.bind (h.push _) fun _ => h.push _
  | jumpSubroutine l => exact h.fault _
  | returnSubroutine slot => exact h.fault _
  | _ => exact h.pure _

/-- an instruction that has no case of its own is followed by the next entry -/
theorem plain (h : Closed P) {i : Insn} (hi : P Unit (Insn.execPlain p i)) :
    P After (Insn.execPlain p i >>= fun _ => Pure.pure After.next) := h.bind hi fun _ => h.pure _

/-- **Instructions** that leave locals alone -/
theorem exec (h : Closed P) {i : Insn} (hi : i.usesLocals = false) : P After (i.exec p) := by
  have hplain := h.plain (h.execPlain (p := p) hi)
  cases i with
  | branch c l => exact h.bind h.popInt fun _ => h.pure _
  | branchCompare c l => exact h.bind h.popInt fun _ => h.bind h.popInt fun _ => h.pure _
  | branchSame l => exact h.bind h.popRef fun _ => h.bind h.popRef fun _ => h.pure _
  | branchDistinct l => exact h.bind h.popRef fun _ => h.bind h.popRef fun _ => h.pure _
  | branchNull l => exact h.bind h.popRef fun _ => h.pure _
  | branchNonNull l => exact h.bind h.popRef fun _ => h.pure _
  | jump l => exact h.pure _
  | tableSwitch low d ts => exact h.bind h.popInt fun _ => h.pure _
  | lookupSwitch d cs => exact h.bind h.popInt fun _ => h.pure _
  | ret k =>
    cases k with
    | none => exact h.pure _
    | some k => exact h.bind (h.popKind k) fun _ => h.pure _
  | throw => exact h.bind (h.popNonNull _) fun _ => h.throw _
  | invoke k m => exact h.bind (h.execInvoke k m) fun _ => h.pure _
  | _ => exact hplain

end Closed

/-! ## computations that do not see the locals -/

/-- what a computation on operands gives: its result, the heap, the statics and the operands -/
abbrev Operated (α : Type) := Except Throw α × Heap × Bindings × List Value

/-- the computation does not see the locals and leaves them as they are -/
def Local (x : Exec α) : Prop :=
  ∃ f : Heap → Bindings → List Value → Operated α, ∀ (h : Heap) (g : Bindings) (a : Activation),
    x.run ⟨h, g, a⟩ = ((f h g a.stack).1, ⟨(f h g a.stack).2.1, (f h g a.stack).2.2.1,
      { a with stack := (f h g a.stack).2.2.2 }⟩)

namespace Local

theorem pure (v : α) : Local (Pure.pure v : Exec α) :=
  ⟨fun h g k => (.ok v, h, g, k), fun _ _ _ => rfl⟩

theorem throw (t : Throw) : Local (MonadExcept.throw t : Exec α) :=
  ⟨fun h g k => (.error t, h, g, k), fun _ _ _ => rfl⟩

theorem bind {x : Exec α} {k : α → Exec β} (hx : Local x) (hk : ∀ v, Local (k v)) :
    Local (x >>= k) := by
  obtain ⟨f, hf⟩ := hx
  refine ⟨fun h g s => match (f h g s).1 with
    | .ok v => (hk v).choose (f h g s).2.1 (f h g s).2.2.1 (f h g s).2.2.2
    | .error t => (.error t, (f h g s).2), fun h g a => ?_⟩
  rw [run_bind, hf]
  dsimp only
  cases hr : (f h g a.stack).1 with
  | error t => rfl
  | ok v =>
    exact (hk v).choose_spec (f h g a.stack).2.1 (f h g a.stack).2.2.1
      { a with stack := (f h g a.stack).2.2.2 }

/-- a computation that looks at the heap and the statics first -/
theorem get_bind {k : Scope → Exec β} (k' : Heap → Bindings → Exec β)
    (hk : ∀ s, k s = k' s.heap s.statics) (h : ∀ h g, Local (k' h g)) : Local (get >>= k) := by
  refine ⟨fun h' g' s => (h h' g').choose h' g' s, fun h' g' a => ?_⟩
  rw [run_bind_ok (run_get _), hk]
  exact (h h' g').choose_spec h' g' a

end Local

theorem local_setHeap (h : Heap) : Local (setHeap h) :=
  ⟨fun _ g k => (.ok (), h, g, k), fun _ _ _ => rfl⟩

theorem local_push (v : Value) : Local (push v) :=
  ⟨fun h g k => (.ok (), h, g, v :: k), fun _ _ _ => rfl⟩

theorem local_pop : Local pop := by
  refine ⟨fun h g k => (k.head?.elim (.error (.fault .stackUnderflow)) .ok, h, g, k.tail),
    fun h g a => ?_⟩
  unfold pop
  rw [run_bind_ok (run_get _)]
  obtain ⟨method, position, locals, stack⟩ := a
  cases stack <;> rfl

theorem local_popArgs (n : Nat) : Local (popArgs n) := by
  refine ⟨fun h g k => if n ≤ k.length then (.ok (k.take n).reverse, h, g, k.drop n)
    else (.error (.fault .stackUnderflow), h, g, k), fun h g a => ?_⟩
  unfold popArgs
  rw [run_bind_ok (run_get _)]
  dsimp only
  split <;> rfl

theorem local_heap : Local heap := ⟨fun h g k => (.ok h, h, g, k), fun _ _ _ => rfl⟩

theorem local_closed : Closed fun _ x => Local x where
  pure := .pure
  bind := .bind
  throw := .throw
  throwNew type message := ⟨fun h g k => (.error (.exception (h.makeThrowable type message).1),
    (h.makeThrowable type message).2, g, k), fun _ _ _ => rfl⟩
  look := .get_bind
  push := local_push
  pop := local_pop
  popArgs := local_popArgs
  make o := .bind local_heap fun _ => .bind (local_setHeap _) fun _ => local_push _
  write _ hother _ := .bind local_heap fun h => .bind (by
    unfold orElse
    split
    · exact .pure _
    · exact hother) fun _ => local_setHeap _
  writeStatic key v := ⟨fun h g k => (.ok (), h, g.put key v, k), fun _ _ _ => rfl⟩

theorem Local.ite {c : Prop} [Decidable c] {x y : Exec α} (hx : Local x) (hy : Local y) :
    Local (if c then x else y) := local_closed.ite hx hy

theorem local_illTyped (k : Kind) (v : Value) : Local (illTyped k v : Exec α) :=
  local_closed.illTyped k v

theorem local_popKind (k : Kind) : Local (popKind k) := local_closed.popKind k

end Exec

/-- **Most instructions** do not see the locals -/
theorem Insn.local_exec {p : Program} {i : Insn} (hi : i.usesLocals = false) :
    Exec.Local (i.exec p) := Exec.local_closed.exec hi

/-! ## where control goes -/

/-- where control goes is among what the instruction says -/
def After.Fits (i : Insn) : After → Prop
  | .next => i.fallsThrough = true
  | .jump l => l ∈ i.targets
  | .finish _ => ∃ k, i = .ret k
  | .call c => i = .invoke c.kind c.method

namespace Exec

variable {α β : Type} {P : β → Prop}

/-- every result has the property -/
def Gives (x : Exec β) (P : β → Prop) : Prop :=
  ∀ (s s' : Scope) (v : β), x.run s = (.ok v, s') → P v

theorem Gives.pure {v : β} (h : P v) : Gives (Pure.pure v : Exec β) P := by
  intro s s' v' hv
  obtain rfl : v = v' := Except.ok.inj (Prod.mk.inj hv).1
  exact h

theorem Gives.fault (f : Fault) : Gives (Exec.fault f : Exec β) P := by
  intro s s' v hv
  exact absurd (Prod.mk.inj hv).1 (by simp)

theorem Gives.of_bind {x : Exec α} {k : α → Exec β} {Q : α → Prop} (hx : Gives x Q)
    (h : ∀ v, Q v → Gives (k v) P) : Gives (x >>= k) P := by
  intro s s' v hv
  rw [Effect.run_bind] at hv
  split at hv
  · rename_i u t hu
    exact h u (hx _ _ _ hu) _ _ _ hv
  · exact absurd (Prod.mk.inj hv).1 (by simp)

theorem Gives.bind {x : Exec α} {k : α → Exec β} (h : ∀ v, Gives (k v) P) : Gives (x >>= k) P :=
  .of_bind (Q := fun _ => True) (fun _ _ _ _ => trivial) fun v _ => h v

end Exec

namespace Insn

open Exec

variable {p : Program} {i : Insn}

theorem fits_jumpIf {taken : Bool} {l : Label} (hi : i.fallsThrough = true) (hl : l ∈ i.targets) :
    (After.jumpIf taken l).Fits i := by
  unfold After.jumpIf
  split
  · exact hl
  · exact hi

theorem tableTarget_mem (low key : Int32) (d : Label) (ts : List Label) :
    tableTarget low key d ts ∈ d :: ts := by
  unfold tableTarget
  dsimp only
  split
  · cases h : ts[(key.toInt - low.toInt).toNat]? with
    | none => exact List.mem_cons_self
    | some l => exact List.mem_cons_of_mem _ (List.mem_of_getElem? h)
  · exact List.mem_cons_self

theorem lookupTarget_mem (key : Int32) (d : Label) (cs : List (Int32 × Label)) :
    lookupTarget key d cs ∈ d :: cs.map Prod.snd := by
  unfold lookupTarget
  cases h : cs.find? fun c => c.1 == key with
  | none => exact List.mem_cons_self
  | some c =>
    exact List.mem_cons_of_mem _ (List.mem_map_of_mem (List.mem_of_find?_eq_some h))

/-- a call is of the method that the instruction names -/
theorem gives_execInvoke (k : InvokeKind) (m : MethodId) :
    Gives (execInvoke k m) fun c => c.kind = k ∧ c.method = m := by
  unfold execInvoke
  split
  · exact .fault _
  · exact .bind fun _ => .pure ⟨rfl, rfl⟩

/-- an instruction that has no case of its own is followed by the next entry -/
theorem gives_plain (hi : i.fallsThrough = true) :
    Gives (execPlain p i >>= fun _ => pure After.next) (After.Fits i) :=
  .bind fun _ => .pure hi

/-- **Where control goes** after an instruction -/
theorem exec_fits : Gives (i.exec p) (After.Fits i) := by
  cases i with
  | branch c l => exact .bind fun _ => .pure (fits_jumpIf rfl (by simp [targets]))
  | branchCompare c l =>
    exact .bind fun _ => .bind fun _ => .pure (fits_jumpIf rfl (by simp [targets]))
  | branchSame l => exact .bind fun _ => .bind fun _ => .pure (fits_jumpIf rfl (by simp [targets]))
  | branchDistinct l =>
    exact .bind fun _ => .bind fun _ => .pure (fits_jumpIf rfl (by simp [targets]))
  | branchNull l => exact .bind fun _ => .pure (fits_jumpIf rfl (by simp [targets]))
  | branchNonNull l => exact .bind fun _ => .pure (fits_jumpIf rfl (by simp [targets]))
  | jump l => exact .pure (List.mem_singleton_self l)
  | tableSwitch low d ts => exact .bind fun _ => .pure (tableTarget_mem ..)
  | lookupSwitch d cs => exact .bind fun _ => .pure (lookupTarget_mem ..)
  | ret k =>
    cases k with
    | none => exact .pure ⟨none, rfl⟩
    | some k => exact .bind fun _ => .pure ⟨some k, rfl⟩
  | throw =>
    refine .bind fun r => fun s s' v hv => ?_
    exact absurd (Prod.mk.inj hv).1 (by simp)
  | invoke k m =>
    exact .of_bind (gives_execInvoke k m) fun c hc => .pure (by rw [After.Fits, hc.1, hc.2])
  | returnSubroutine slot => exact .of_bind (Q := fun _ => False) (.fault _) fun _ h => h.elim
  | _ => exact gives_plain rfl

/-! ## the program -/

/-- **An instruction** takes from the program only which type may stand for which -/
theorem exec_program {p' : Program} (h : ∀ a b, p'.isAssignable a b = p.isAssignable a b) (i : Insn) :
    i.exec p' = i.exec p := by
  cases i with
  | checkCast t =>
    show (execPlain p' (.checkCast t) >>= _) = (execPlain p (.checkCast t) >>= _)
    simp only [execPlain, h]
  | instanceOf t =>
    show (execPlain p' (.instanceOf t) >>= _) = (execPlain p (.instanceOf t) >>= _)
    simp only [execPlain, h]
  | ret k => cases k <;> rfl
  | _ => rfl

end Insn
end Resumable
