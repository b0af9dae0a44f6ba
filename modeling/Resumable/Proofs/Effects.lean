import Resumable.Machine.Instruction
import Resumable.Weave.Access

/-!
# Running computations

Instructions and built-in methods are computations that may throw and that change a state, kept
whether they throw or not.  Here is what running them gives, one operation at a time: later proofs
follow the text of a computation with these equations and never look into the monad.

* `Effect.run_bind` : one computation after another;
* `Exec.run_pop`, `Exec.run_popKind`, … : operands and locals;
* `Insn.run_load`, `Insn.run_checkCast`, … : the instructions that injected code is made of.
-/

namespace Resumable

namespace Effect

section
variable {ε σ α β : Type}

theorem run_pure (a : α) (s : σ) : (pure a : ExceptT ε (StateM σ) α).run s = (.ok a, s) := rfl

theorem run_throw (e : ε) (s : σ) :
    (throw e : ExceptT ε (StateM σ) α).run s = (.error e, s) := rfl

theorem run_get (s : σ) : (get : ExceptT ε (StateM σ) σ).run s = (.ok s, s) := rfl

/-- one computation after another: what the first one throws ends both -/
theorem run_bind (x : ExceptT ε (StateM σ) α) (f : α → ExceptT ε (StateM σ) β) (s : σ) :
    (x >>= f).run s = match x.run s with
      | (.ok a, t) => (f a).run t
      | (.error e, t) => (.error e, t) := by
  show (ExceptT.bindCont f (x.run s).1) (x.run s).2 = _
  cases x.run s with
  | mk r t => cases r <;> rfl

theorem run_bind_ok {x : ExceptT ε (StateM σ) α} {f : α → ExceptT ε (StateM σ) β} {s t : σ}
    {a : α} (h : x.run s = (.ok a, t)) : (x >>= f).run s = (f a).run t := by
  rw [run_bind, h]

/-- a result that was computed in two steps -/
theorem bind_eq_ok {x : Except ε α} {f : α → Except ε β} {r : β} (h : (x >>= f) = .ok r) :
    ∃ a, x = .ok a ∧ f a = .ok r := by
  cases x with
  | error e => exact absurd h (by simp [bind, Except.bind])
  | ok a => exact ⟨a, rfl, h⟩

theorem bind_of_ok {x : Except ε α} {a : α} (h : x = .ok a) (f : α → Except ε β) : (x >>= f) = f a := by
  rw [h]
  rfl

end

end Effect

/-! ## operands and locals -/

namespace Exec

open Effect

variable {h : Heap} {g : Bindings} {a : Activation} {v : Value} {stack : List Value}

theorem run_push (v : Value) (h : Heap) (g : Bindings) (a : Activation) :
    (push v).run ⟨h, g, a⟩ = (.ok (), ⟨h, g, a.push v⟩) := rfl

theorem run_pop (hs : a.stack = v :: stack) :
    pop.run ⟨h, g, a⟩ = (.ok v, ⟨h, g, { a with stack }⟩) := by
  unfold pop
  rw [run_bind_ok (run_get _)]
  simp only [hs]
  rfl

theorem run_popKind {k : Kind} (hs : a.stack = v :: stack) (hk : v.kind? = some k) :
    (popKind k).run ⟨h, g, a⟩ = (.ok v, ⟨h, g, { a with stack }⟩) := by
  unfold popKind
  rw [run_bind_ok (run_pop hs), if_pos hk, run_pure]

theorem run_popInt {n : Int32} (hs : a.stack = .int n :: stack) :
    popInt.run ⟨h, g, a⟩ = (.ok n, ⟨h, g, { a with stack }⟩) := by
  unfold popInt
  rw [run_bind_ok (run_pop hs)]
  rfl

theorem run_popRef {r : Option Ref} (hs : a.stack = .ref r :: stack) :
    popRef.run ⟨h, g, a⟩ = (.ok r, ⟨h, g, { a with stack }⟩) := by
  unfold popRef
  rw [run_bind_ok (run_pop hs)]
  rfl

theorem run_popArgs {n : Nat} {args : List Value} (hs : a.stack = args.reverse ++ stack)
    (hn : args.length = n) :
    (popArgs n).run ⟨h, g, a⟩ = (.ok args, ⟨h, g, { a with stack }⟩) := by
  have hlen : args.reverse.length = n := by rw [List.length_reverse, hn]
  have htake : a.stack.take n = args.reverse := by rw [hs, ← hlen, List.take_left]
  have hdrop : a.stack.drop n = stack := by rw [hs, ← hlen, List.drop_left]
  have hle : n ≤ a.stack.length := by rw [hs, List.length_append, hlen]; omega
  unfold popArgs
  rw [run_bind_ok (run_get _), if_pos hle]
  simp only [htake, hdrop, List.reverse_reverse]
  rfl

theorem run_getLocal {slot : UInt16} (hl : a.locals[slot.toNat]? = some v) :
    (getLocal slot).run ⟨h, g, a⟩ = (.ok v, ⟨h, g, a⟩) := by
  unfold getLocal
  rw [run_bind_ok (run_get _)]
  simp only [hl]
  rfl

theorem run_setLocal {slot : UInt16} (hl : slot.toNat + v.width ≤ a.locals.length) :
    (setLocal slot v).run ⟨h, g, a⟩ =
      (.ok (), ⟨h, g, { a with locals := putLocal a.locals slot.toNat v }⟩) := by
  unfold setLocal
  rw [run_bind_ok (run_get _), if_pos hl]
  rfl

end Exec

/-! ## instructions -/

namespace Insn

open Effect Exec

variable {p : Program} {h : Heap} {g : Bindings} {a : Activation} {v : Value} {stack : List Value}

theorem run_load {k : Kind} {slot : UInt16} (hl : a.locals[slot.toNat]? = some v)
    (hk : v.kind? = some k) :
    ((Insn.load k slot).exec p).run ⟨h, g, a⟩ = (.ok .next, ⟨h, g, a.push v⟩) := by
  show ((getLocal slot >>= fun v => if v.kind? = some k then push v else illTyped k v) >>=
    fun _ => pure After.next).run _ = _
  rw [run_bind, run_bind_ok (run_getLocal hl), if_pos hk, run_push]
  rfl

theorem run_store {k : Kind} {slot : UInt16} (hs : a.stack = v :: stack) (hk : v.kind? = some k)
    (hl : slot.toNat + v.width ≤ a.locals.length) :
    ((Insn.store k slot).exec p).run ⟨h, g, a⟩ =
      (.ok .next, ⟨h, g, { a with stack, locals := putLocal a.locals slot.toNat v }⟩) := by
  show ((popKind k >>= fun v => setLocal slot v) >>= fun _ => pure After.next).run _ = _
  rw [run_bind, run_bind_ok (run_popKind hs hk), run_setLocal (a := { a with stack }) hl]
  rfl

theorem run_increment {slot : UInt16} {n d : Int32} (hl : a.locals[slot.toNat]? = some (.int n)) :
    ((Insn.increment slot d).exec p).run ⟨h, g, a⟩ =
      (.ok .next, ⟨h, g, { a with locals := putLocal a.locals slot.toNat (.int (n + d)) }⟩) := by
  have hfits : slot.toNat + (Value.int (n + d)).width ≤ a.locals.length :=
    (List.getElem?_eq_some_iff.1 hl).1
  show ((getLocal slot >>= _) >>= fun _ => pure After.next).run _ = _
  rw [run_bind, run_bind_ok (run_getLocal hl), run_setLocal hfits]
  rfl

theorem run_pop (hs : a.stack = v :: stack) :
    (Insn.pop.exec p).run ⟨h, g, a⟩ = (.ok .next, ⟨h, g, { a with stack }⟩) := by
  show ((Exec.pop >>= fun _ => pure ()) >>= fun _ => pure After.next).run _ = _
  rw [run_bind, run_bind_ok (Exec.run_pop hs)]
  rfl

theorem run_dup (hs : a.stack = v :: stack) :
    (Insn.dup.exec p).run ⟨h, g, a⟩ = (.ok .next, ⟨h, g, { a with stack := v :: v :: stack }⟩) := by
  show ((Exec.pop >>= fun x => push x >>= fun _ => push x) >>= fun _ => pure After.next).run _ = _
  rw [run_bind, run_bind_ok (Exec.run_pop hs)]
  rfl

/-- a value is dropped by its kind, whatever its width -/
theorem run_discard {k : Kind} (hs : a.stack = v :: stack) (hk : v.kind? = some k) :
    (k.discardInsn.exec p).run ⟨h, g, a⟩ = (.ok .next, ⟨h, g, { a with stack }⟩) := by
  have hw := Value.width_eq_of_kind? hk
  unfold Kind.discardInsn
  by_cases h2 : k.width = 2
  · rw [if_pos h2]
    show ((Exec.pop >>= fun x => if x.width = 1 then (Exec.pop >>= fun _ => pure ()) else pure ()) >>=
      fun _ => pure After.next).run _ = _
    rw [run_bind, run_bind_ok (Exec.run_pop hs), if_neg (by omega)]
    rfl
  · rw [if_neg h2]
    exact run_pop hs

/-- a cast that succeeds leaves the reference where it is -/
theorem run_checkCast {t : String} {r : Option Ref} (hs : a.stack = .ref r :: stack)
    (hr : ∀ x, r = some x → p.isAssignable (h.className x) t) :
    ((Insn.checkCast t).exec p).run ⟨h, g, a⟩ = (.ok .next, ⟨h, g, a⟩) := by
  have hback : ({ a with stack } : Activation).push (.ref r) = a := by
    show ({ a with stack := .ref r :: stack } : Activation) = a
    rw [← hs]
  cases r with
  | none =>
    show ((popRef >>= _) >>= fun _ => pure After.next).run _ = _
    rw [run_bind, run_bind_ok (run_popRef hs)]
    show (Except.ok After.next, (⟨h, g, ({ a with stack } : Activation).push (.ref none)⟩ : Scope)) = _
    rw [hback]
  | some x =>
    show ((popRef >>= _) >>= fun _ => pure After.next).run _ = _
    rw [run_bind, run_bind_ok (run_popRef hs)]
    dsimp only
    rw [run_bind_ok (show (className x).run _ = (.ok (h.className x), _) from rfl), if_pos (hr x rfl),
      run_push, hback]
    rfl

/-- a call takes its arguments from the stack -/
theorem run_invoke {k : InvokeKind} {m : MethodId} {d : MethodDesc} {args : List Value}
    (hd : MethodDesc.parse? m.desc = some d)
    (hn : args.length = d.params.length + if k.hasReceiver then 1 else 0)
    (hs : a.stack = args.reverse ++ stack) :
    ((Insn.invoke k m).exec p).run ⟨h, g, a⟩ =
      (.ok (.call ⟨k, m, args⟩), ⟨h, g, { a with stack }⟩) := by
  show (execInvoke k m >>= fun c => pure (After.call c)).run _ = _
  unfold execInvoke
  rw [hd]
  dsimp only
  rw [run_bind, run_bind_ok (run_popArgs hs hn)]
  rfl

theorem run_branch {c : Cond} {l : Label} {n : Int32} (hs : a.stack = .int n :: stack) :
    ((Insn.branch c l).exec p).run ⟨h, g, a⟩ =
      (.ok (.jumpIf (c.test n 0) l), ⟨h, g, { a with stack }⟩) := by
  show (popInt >>= fun n => pure (After.jumpIf (c.test n 0) l)).run _ = _
  rw [run_bind_ok (run_popInt hs)]
  rfl

/-- an object is thrown -/
theorem run_throw {r : Ref} (hs : a.stack = .ref (some r) :: stack) :
    (Insn.throw.exec p).run ⟨h, g, a⟩ = (.error (.exception r), ⟨h, g, { a with stack }⟩) := by
  have hpop : (Exec.popNonNull "cannot throw null").run ⟨h, g, a⟩ =
      (.ok r, ⟨h, g, { a with stack }⟩) := by
    show (Exec.popRef >>= _).run _ = _
    rw [run_bind_ok (Exec.run_popRef hs)]
    rfl
  show (Exec.popNonNull "cannot throw null" >>= _).run _ = _
  rw [run_bind_ok hpop]
  rfl

theorem run_ret {k : Kind} (hs : a.stack = v :: stack) (hk : v.kind? = some k) :
    ((Insn.ret (some k)).exec p).run ⟨h, g, a⟩ =
      (.ok (.finish (some v)), ⟨h, g, { a with stack }⟩) := by
  show (popKind k >>= fun v => pure (After.finish (some v))).run _ = _
  rw [run_bind_ok (run_popKind hs hk)]
  rfl

end Insn
end Resumable
