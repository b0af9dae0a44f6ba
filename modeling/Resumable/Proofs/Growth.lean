import Resumable.Proofs.Operations
import Resumable.Proofs.Run
import Resumable.Proofs.Safe

/-!
# The heap of a run

Whatever instructions, built-in methods and steps do, the heap only grows: what is there stays there and
keeps its class.

* `Insn.grows_exec`, `Native.grows_perform` : instructions and built-in methods;
* `Machine.grows_step`, `Machine.grows_after` : steps and runs;
* `Insn.made` : objects that an instruction makes or looks at are of the type that the frame after it has.
-/

namespace Resumable

open Effect

/-! ## instructions -/

namespace Exec

variable {α β : Type}

/-- the heap grows -/
def Grows (x : Exec α) : Prop := ∀ s : Scope, s.heap.Grows (x.run s).2.heap

theorem Grows.bind {x : Exec α} {k : α → Exec β} (hx : Grows x) (hk : ∀ a, Grows (k a)) :
    Grows (x >>= k) := by
  intro s
  have hs := hx s
  rw [run_bind]
  generalize x.run s = y at hs
  obtain ⟨r, t⟩ := y
  cases r with
  | error e => exact hs
  | ok a => exact hs.trans (hk a t)

/-- a computation that leaves the heap as it is -/
theorem Grows.of_same {x : Exec α} (h : ∀ s, (x.run s).2.heap = s.heap) : Grows x := fun s =>
  h s ▸ .refl _

theorem grows_pop : Grows pop := .of_same fun s => by
  unfold pop
  rw [run_bind_ok (run_get _)]
  split <;> rfl

theorem grows_popArgs (n : Nat) : Grows (popArgs n) := .of_same fun s => by
  unfold popArgs
  rw [run_bind_ok (run_get _)]
  split <;> rfl

theorem grows_getLocal (slot : UInt16) : Grows (getLocal slot) := .of_same fun s => by
  unfold getLocal
  rw [run_bind_ok (run_get _)]
  split <;> rfl

theorem grows_setLocal (slot : UInt16) (v : Value) : Grows (setLocal slot v) := .of_same fun s => by
  unfold setLocal
  rw [run_bind_ok (run_get _)]
  split <;> rfl

theorem grows_closed : Closed fun _ x => Grows x where
  pure _ := .of_same fun _ => rfl
  bind := .bind
  throw _ := .of_same fun _ => rfl
  throwNew type message := fun s => s.heap.grows_makeThrowable type message
  look k' hk h := fun s => by
    rw [run_bind_ok (run_get _), hk]
    exact h _ _ s
  push _ := .of_same fun _ => rfl
  pop := grows_pop
  popArgs := grows_popArgs
  make o := fun s => s.heap.grows_make o
  write {change otherwise} hchange hother hends := fun s => by
    rw [run_bind_ok (show heap.run s = (.ok s.heap, s) from rfl)]
    cases hu : change s.heap with
    | none =>
      have hs := hother s
      have he := hends s
      unfold orElse
      rw [run_bind]
      generalize otherwise.run s = y at hs he
      obtain ⟨r, t⟩ := y
      cases r with
      | error e => exact hs
      | ok u => exact absurd rfl (he u t)
    | some u => exact hchange _ _ hu
  writeStatic _ _ := .of_same fun _ => rfl

end Exec

namespace Insn

open Exec

/-- **Instructions** let the heap grow -/
theorem grows_exec {p : Program} (i : Insn) : Grows (i.exec p) := by
  have h := grows_closed
  cases i with
  | load k slot =>
    exact h.plain (h.bind (grows_getLocal slot) fun v => h.ite (h.push v) (h.illTyped k v))
  | store k slot => exact h.plain (h.bind (h.popKind k) fun v => grows_setLocal slot v)
  | increment slot d =>
    refine h.plain (h.bind (grows_getLocal slot) fun v => ?_)
    cases v with
    | int n => exact grows_setLocal slot _
    | _ => exact h.illTyped _ _
  | _ => exact h.exec rfl

end Insn

namespace Insn

open Exec Category

variable {p : Program} {i : Insn} {f g : Frame} {R : Category → Value → Prop}

/-- a new object, where it is put -/
theorem made_new {o : Object} {s s' : Scope}
    (hrun : ((pushNew fun h => h.make o) >>= fun _ => pure After.next).run s = (.ok .next, s')) :
    ∃ x, s'.activation.stack.head? = some (.ref (some x)) ∧ s'.heap.Has x ∧
      s'.heap.className x = o.className := by
  obtain rfl := (Prod.mk.inj hrun).2
  exact ⟨_, rfl, s.heap.has_alloc o⟩

/-- a cast that succeeds changes nothing -/
theorem checkCast_next {t : String} {r : Option Ref} {rest : List Value} {s s' : Scope}
    (hs : s.activation.stack = .ref r :: rest)
    (hrun : ((Insn.checkCast t).exec p).run s = (.ok .next, s')) :
    s' = s ∧ ∀ x, r = some x → p.isAssignable (s.heap.className x) t = true := by
  by_cases hr : ∀ x, r = some x → p.isAssignable (s.heap.className x) t = true
  · exact ⟨(Prod.mk.inj ((run_checkCast hs hr).symm.trans hrun)).2.symm, hr⟩
  · push Not at hr
    obtain ⟨x, rfl, hx⟩ := hr
    have hpop : popRef.run s = (.ok (some x), _) := run_popRef hs
    have hclass (u : Scope) : (className x).run u = (.ok (u.heap.className x), u) := rfl
    replace hrun : ((popRef >>= _) >>= fun _ => pure After.next).run s = _ := hrun
    rw [run_bind, run_bind_ok hpop] at hrun
    dsimp only at hrun
    rw [run_bind_ok (hclass _), if_neg hx] at hrun
    exact absurd (Prod.mk.inj hrun).1 (by simp)

/-- **What an instruction makes**, or finds out to be of a type, is of the type that the frame after it has
for it; it is there, or it was there before as a reference to some type. -/
theorem made [Reading R] (hi : i.makes = true) (happly : f.apply i = .ok g) {s s' : Scope}
    (hs : List.Forall₂ R f.stack s.activation.stack) (hrun : (i.exec p).run s = (.ok .next, s'))
    {c : Category} (hc : c ≠ .null) (hg : g.stack.head? = some c) :
    ∃ t r, c = .ref t ∧ s'.activation.stack.head? = some (.ref r) ∧ ∀ x, r = some x →
      ((s' = s ∧ ∃ d, R (.ref d) (.ref r)) ∨ s'.heap.Has x) ∧
        p.isAssignable (s'.heap.className x) t = true := by
  have hnew {o : Object} (ht : c = .ref o.className)
      (hr : ((pushNew fun h => h.make o) >>= fun _ => pure After.next).run s = (.ok .next, s')) :
      ∃ t r, c = .ref t ∧ s'.activation.stack.head? = some (.ref r) ∧ ∀ x, r = some x →
        ((s' = s ∧ ∃ d, R (.ref d) (.ref r)) ∨ s'.heap.Has x) ∧
          p.isAssignable (s'.heap.className x) t = true := by
    obtain ⟨x, hx, hhas, hclass⟩ := made_new hr
    refine ⟨_, some x, ht, hx, fun y hy => ?_⟩
    obtain rfl := Option.some.inj hy
    exact ⟨.inr hhas, hclass ▸ p.isAssignable_self _⟩
  cases i with
  | stringConst u =>
    rw [← Except.ok.inj happly] at hg
    exact hnew (o := .string u) (Option.some.inj hg).symm hrun
  | new t =>
    rw [← Except.ok.inj happly] at hg
    exact hnew (o := .instance t []) (Option.some.inj hg).symm hrun
  | newArray t =>
    obtain ⟨_, -, happly⟩ := Effect.bind_eq_ok happly
    obtain ⟨e, he, rfl⟩ := Frame.replace_ok happly
    obtain ⟨v, rest, hstack, hv, -⟩ := Frame.popKinds_reads_one he hs
    obtain ⟨n, rfl⟩ := Value.exists_int hv
    have hpop : popInt.run s = (.ok n, _) := run_popInt hstack
    have hrest : ((if n < 0 then throwNew "java/lang/NegativeArraySizeException" (toString n.toInt)
        else pushNew fun h => h.makeArray t n.toInt.toNat) >>= fun _ => pure After.next).run
        { s with activation.stack := rest } = (.ok .next, s') := by
      rw [← hrun]
      show _ = ((popInt >>= _) >>= fun _ => pure After.next).run s
      rw [run_bind (popInt >>= _), run_bind_ok hpop, run_bind]
    split at hrest
    · exact absurd (Prod.mk.inj hrest).1 (by simp)
    · obtain ⟨x, hx, hhas, hclass⟩ := made_new hrest
      refine ⟨_, some x, (Option.some.inj hg).symm, hx, fun y hy => ?_⟩
      obtain rfl := Option.some.inj hy
      exact ⟨.inr hhas, hclass ▸ p.isAssignable_self _⟩
  | checkCast t =>
    obtain ⟨⟨d, e⟩, he, happly⟩ := Effect.bind_eq_ok happly
    obtain ⟨htakes, hd⟩ := Frame.popKind_ok he
    obtain ⟨v, rest, hstack, hv, -⟩ := htakes.reads_one hs
    obtain ⟨r, rfl⟩ := Value.exists_ref (Reading.kind hv hd)
    rw [← Except.ok.inj happly] at hg
    have hcase : (if d = .null then Category.null else .ref t) = c := Option.some.inj hg
    by_cases hnull : d = .null
    · rw [if_pos hnull] at hcase
      exact absurd hcase.symm hc
    · rw [if_neg hnull] at hcase
      obtain ⟨u, rfl⟩ : ∃ u, d = .ref u := by
        cases d with
        | ref u => exact ⟨u, rfl⟩
        | null => exact absurd rfl hnull
        | _ => exact absurd hd (by simp [kind?])
      obtain ⟨rfl, hr⟩ := checkCast_next hstack hrun
      exact ⟨t, r, hcase.symm, by rw [hstack]; rfl, fun x hx => ⟨.inl ⟨rfl, u, hv⟩, hr x hx⟩⟩
  | _ => exact absurd hi (by simp [makes])

end Insn

/-! ## built-in methods -/

namespace Performing

variable {α β : Type}

/-- the heap grows -/
def Grows (x : Performing α) : Prop := ∀ m : Machine, m.heap.Grows (x.run m).2.heap

theorem Grows.bind {x : Performing α} {k : α → Performing β} (hx : Grows x) (hk : ∀ a, Grows (k a)) :
    Grows (x >>= k) := by
  intro m
  have hm := hx m
  rw [run_bind]
  generalize x.run m = y at hm
  obtain ⟨r, t⟩ := y
  cases r with
  | error e => exact hm
  | ok a => exact hm.trans (hk a t)

theorem grows_engine (op : Engine Call Call → Except Violation α × Engine Call Call) :
    Grows (engine op) := by
  intro m
  rw [run_engine]
  exact .refl _

theorem grows_closed : Closed fun _ x => Grows x where
  confined := by
    rintro α x ⟨f, hf, hgrows⟩ m
    rw [hf]
    exact hgrows _ _
  bind := .bind
  coroutines := fun _ => .refl _
  access _ _ := grows_engine _
  yield _ _ := grows_engine _
  create _ := grows_engine _

end Performing

/-- **Built-in methods** let the heap grow -/
theorem Native.grows_perform (n : Native) (args : List Value) : Performing.Grows (n.perform args) :=
  Performing.grows_closed.native n (fun _ _ => Performing.grows_engine _) args

/-! ## steps -/

namespace Machine

variable {w : World} {m : Machine}

theorem grows_call (w : World) (m : Machine) (c : Call) : m.heap.Grows (m.call w c).heap := by
  have hon (receiver : Option String) : m.heap.Grows (m.callOn w c receiver).heap := by
    unfold callOn
    split
    · rename_i t _
      cases t with
      | code method => exact .refl _
      | native n =>
        have hperform := n.grows_perform c.args m
        show m.heap.Grows (m.runNative n c.args).heap
        unfold runNative
        generalize (n.perform c.args).run m = y at hperform
        obtain ⟨r, m'⟩ := y
        cases r with
        | error t => exact hperform
        | ok o => cases o <;> exact hperform
    · exact .refl _
  unfold call
  split
  · split
    · exact hon _
    · exact m.heap.grows_makeThrowable _ _
    · exact .refl _
  · exact hon none

theorem grows_execute (w : World) (m : Machine) (a : Activation) (rest : List Pending) :
    m.heap.Grows (m.execute w a rest).heap := by
  unfold execute
  split
  · exact .refl _
  · rename_i i _
    have hexec := i.grows_exec (p := w.program) ⟨m.heap, m.statics, a⟩
    generalize (i.exec w.program).run ⟨m.heap, m.statics, a⟩ = y at hexec
    obtain ⟨r, s⟩ := y
    cases r with
    | error t => exact hexec
    | ok o =>
      cases o with
      | jump l =>
        dsimp only [follow]
        split <;> exact hexec
      | _ => exact hexec

theorem heap_deliver (m : Machine) (v : Option Value) (rest : List Pending) (p : Pending) :
    (m.deliver v rest p).heap = m.heap := by
  cases p with
  | activation a => cases v <;> rfl
  | discard => rfl
  | body id body =>
    unfold deliver leaveBody
    dsimp only
    split <;> rfl

theorem heap_unwind (w : World) (m : Machine) (t : Throw) (rest : List Pending) (p : Pending) :
    (m.unwind w t rest p).heap = m.heap := by
  cases p with
  | discard => rfl
  | body id body => rfl
  | activation a =>
    unfold unwind catchIn
    cases t with
    | fault f => rfl
    | exception r =>
      dsimp only
      split <;> rfl

/-- **A step** lets the heap grow -/
theorem grows_step (w : World) (m : Machine) : m.heap.Grows (m.step w).heap := by
  unfold step
  split
  · exact grows_call w m _
  · exact grows_execute w m _ _
  · exact .refl _
  · exact .refl _
  · rw [heap_deliver]
    exact .refl _
  · exact .refl _
  · rw [heap_unwind]
    exact .refl _

/-- **A run** lets the heap grow -/
theorem grows_after (w : World) (n : Nat) (m : Machine) : m.heap.Grows (m.after w n).heap := by
  induction n generalizing m with
  | zero => exact .refl _
  | succ n ih => exact (grows_step w m).trans (ih _)

end Machine
end Resumable
