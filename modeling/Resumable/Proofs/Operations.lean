import Resumable.Proofs.Footprint

/-!
# Operations of built-in methods

What built-in methods do to coroutines is put together from few operations.  So a property of
computations holds of all built-in methods once it holds of these operations and of what sees heap and
console only.

* `Access` : an operation of storage, saved positions or staging;
* `Performing.Closed` : a property that holds of the operations and of what is put together from them;
* `Performing.Closed.native` : it holds of built-in methods.
-/

namespace Resumable

/-- an operation of storage, saved positions or staging -/
inductive Access where
  | popState
  | pushState (n : Int32)
  | push (v : Value)
  | pop (k : Kind)
  | pushCompanion (r : Option Ref)
  | discardCompanion
  | beginStaging
  | stage (v : Value)
  | peekStaged (k : Kind) (depth : Nat)
  | commitStaging
  | endStaging

/-- the operation, with the value it gives if it gives one -/
def Access.perform {β κ : Type} (a : Access) (c : Coroutine β κ) :
    Coroutine.Outcome β κ (Option Value) :=
  match a with
  | .popState => (.ok (some (.int c.popState.1)), c.popState.2)
  | .pushState n => (.ok none, c.pushState n)
  | .push v => ((c.push v).1.map fun _ => none, (c.push v).2)
  | .pop k => ((c.pop k).1.map some, (c.pop k).2)
  | .pushCompanion r => (.ok none, c.pushCompanion r)
  | .discardCompanion => (c.discardCompanion.1.map fun _ => none, c.discardCompanion.2)
  | .beginStaging => (.ok none, c.beginStaging)
  | .stage v => ((c.stage v).1.map fun _ => none, (c.stage v).2)
  | .peekStaged k depth => ((c.peekStaged k depth).1.map some, (c.peekStaged k depth).2)
  | .commitStaging => (c.commitStaging.1.map fun _ => none, c.commitStaging.2)
  | .endStaging => (c.endStaging.1.map fun _ => none, c.endStaging.2)

/-- the method resumes a coroutine -/
def Native.resumes : Native → Bool
  | .intrinsic .start | .intrinsic .resume => true
  | _ => false

namespace Performing

open Effect

/-- an operation of the engine and the machine after it -/
theorem run_engine {α : Type} (op : Engine Call Call → Except Violation α × Engine Call Call) (m : Machine) :
    (engine op).run m = ((op m.engine).1.mapError fun b => .fault (.violation b),
      { m with engine := (op m.engine).2 }) := by
  unfold engine
  rw [run_bind_ok (run_get m)]
  generalize op m.engine = y
  obtain ⟨r, e⟩ := y
  cases r <;> rfl

/-- a property that holds of the operations and of what is put together from them -/
structure Closed (P : (α : Type) → Performing α → Prop) : Prop where
  confined {α : Type} {x : Performing α} (hx : Confined x) : P α x
  bind {α β : Type} {x : Performing α} {k : α → Performing β} (hx : P α x) (hk : ∀ a, P β (k a)) :
    P β (x >>= k)
  coroutines : P (Engine Call Call) coroutines
  access {α : Type} {op : Coroutine Call Call → Coroutine.Outcome Call Call α} (a : Access)
    (hop : ∀ c, (op c).2 = (a.perform c).2) : P α (current op)
  yield (id : Nat) (deferred : Option Call) :
    P Unit (engine fun e => e.on id fun c => c.yield deferred)
  create (body : Call) : P Nat (engine fun e => (.ok (e.create body).1, (e.create body).2))

namespace Closed

variable {P : (α : Type) → Performing α → Prop}

theorem result (h : Closed P) (v : Option Value) : P Performed (pure (.result v)) :=
  h.confined (.pure _)

/-- methods that resume are put together from the beginning of a run -/
theorem resume (h : Closed P) (henter : ∀ id, P Call (engine fun e => e.enter id)) (args : List Value) :
    P Performed (performResume args) :=
  h.bind (h.confined (confined_coroutineArg args 0)) fun id => h.bind (henter id) fun _ =>
    h.confined (.pure _)

theorem intrinsic (h : Closed P) (i : Intrinsic)
    (henter : (Native.intrinsic i).resumes = true → ∀ id, P Call (engine fun e => e.enter id))
    (args : List Value) : P Performed (i.perform args) := by
  have hint := h.confined (confined_intArg args 0)
  have hvalue := h.confined (confined_arg args 0)
  have hcoroutine := h.confined (confined_coroutineArg args 0)
  cases i with
  | «exists» => exact h.bind h.coroutines fun _ => h.result _
  | get => exact h.bind h.coroutines fun _ => h.result _
  | isYielding => exact h.bind h.coroutines fun _ => h.result _
  | popState => exact h.bind (h.access .popState fun _ => rfl) fun _ => h.result _
  | pushState =>
    exact h.bind hint fun n => h.bind (h.access (.pushState n) fun _ => rfl) fun _ => h.result _
  | push k =>
    exact h.bind hvalue fun v => h.bind (h.access (.push v) fun _ => rfl) fun _ => h.result _
  | pop k => exact h.bind (h.access (.pop k) fun _ => rfl) fun _ => h.result _
  | pushCompanion =>
    exact h.bind (h.confined (confined_refArg args 0)) fun r =>
      h.bind (h.access (.pushCompanion r) fun _ => rfl) fun _ => h.result _
  | discardCompanion => exact h.bind (h.access .discardCompanion fun _ => rfl) fun _ => h.result _
  | beginStaging => exact h.bind (h.access .beginStaging fun _ => rfl) fun _ => h.result _
  | stage k =>
    exact h.bind hvalue fun v => h.bind (h.access (.stage v) fun _ => rfl) fun _ => h.result _
  | peekStaged k =>
    refine h.bind (h.bind hint fun depth => ?_) fun _ => h.result _
    split
    · exact h.confined (confined_fault _)
    · exact h.access (.peekStaged k depth.toInt.toNat) fun _ => rfl
  | commitStaging => exact h.bind (h.access .commitStaging fun _ => rfl) fun _ => h.result _
  | endStaging => exact h.bind (h.access .endStaging fun _ => rfl) fun _ => h.result _
  | invalidDispatch =>
    exact h.confined (.bind (confined_stringArg args 0) fun _ => confined_fault _)
  | initSuspended =>
    exact h.bind (h.confined (confined_nonNullArg args 0)) fun r =>
      h.bind (h.create (Call.ofRunnable r)) fun _ => h.result _
  | start => exact h.resume (henter rfl) args
  | resume => exact h.resume (henter rfl) args
  | yield => exact h.bind hcoroutine fun id => h.bind (h.yield id none) fun _ => h.result _
  | yieldWith =>
    exact h.bind (h.bind hcoroutine fun id => h.bind (h.confined (confined_refArg args 1)) fun r =>
      h.yield id (r.map Call.ofRunnable)) fun _ => h.result _
  | isDone => exact h.bind hcoroutine fun _ => h.bind h.coroutines fun _ => h.result _

theorem hostMethod (h : Closed P) (g : HostMethod) (args : List Value) :
    P (Option Value) (g.perform args) := by
  have hreply := h.confined (g.reply.confined_perform args)
  unfold HostMethod.perform
  split
  · refine h.bind (h.bind h.coroutines fun e => ?_) fun _ => hreply
    split
    · exact h.yield _ none
    · exact h.confined (.pure _)
  · exact hreply

/-- **Built-in methods** have the property, those that resume if the beginning of a run has it -/
theorem native (h : Closed P) (n : Native)
    (henter : n.resumes = true → ∀ id, P Call (engine fun e => e.enter id)) (args : List Value) :
    P Performed (n.perform args) := by
  cases n with
  | intrinsic i => exact h.intrinsic i henter args
  | library l => exact h.confined (.bind (l.confined_perform args) fun _ => .pure _)
  | host g => exact h.bind (h.hostMethod g args) fun _ => h.result _

end Closed
end Performing
end Resumable
