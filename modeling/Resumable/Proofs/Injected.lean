import Resumable.Machine.Step
import Resumable.Proofs.Running
import Resumable.Proofs.Segment

/-!
# Calls from injected code

Injected code calls static methods of the coroutine type.  Where these are the built-in ones, such a
call takes three steps: the instruction takes the arguments, the method works on the running
coroutine, and its result goes back to the activation.

* `Intrinsic.arity` : the number of arguments, which is that of the descriptor;
* `Intrinsic.isInjected`, `World.Supplies` : what injected code relies on;
* `Machine.passes_injected` : the three steps of a call;
* `Intrinsic.run_push`, `Intrinsic.run_pop`, … : what each method does to the running coroutine.
-/

namespace Resumable

/-! ## identities -/

namespace Intrinsic

/-- the number of arguments -/
def arity : Intrinsic → Nat
  | .pushState | .push _ | .pushCompanion | .stage _ | .peekStaged _ | .invalidDispatch
  | .initSuspended | .yieldWith => 1
  | _ => 0

/-- the descriptor has as many parameters as the method takes arguments -/
theorem parse?_desc (i : Intrinsic) :
    ∃ d, MethodDesc.parse? i.id.desc = some d ∧ d.params.length = i.arity := by
  cases i with
  | push k => cases k <;> exact ⟨_, rfl, rfl⟩
  | pop k => cases k <;> exact ⟨_, rfl, rfl⟩
  | stage k => cases k <;> exact ⟨_, rfl, rfl⟩
  | peekStaged k => cases k <;> exact ⟨_, rfl, rfl⟩
  | _ => exact ⟨_, rfl, rfl⟩

/-- no two methods of coroutines have the same name and descriptor -/
theorem ofId?_id (i : Intrinsic) : ofId? i.id = some i := by
  cases i with
  | push k => cases k <;> rfl
  | pop k => cases k <;> rfl
  | stage k => cases k <;> rfl
  | peekStaged k => cases k <;> rfl
  | _ => rfl

/-- injected code calls the method -/
def isInjected : Intrinsic → Bool
  | .get | .initSuspended | .start | .resume | .yield | .yieldWith | .isDone => false
  | _ => true

end Intrinsic

/-- the methods that injected code calls are the built-in ones -/
def World.Supplies (w : World) : Prop :=
  ∀ i : Intrinsic, i.isInjected = true → w.resolve .static i.id none = .ok (.native (.intrinsic i))

/-- every method of coroutines belongs to their type -/
theorem Intrinsic.id_owner (i : Intrinsic) : i.id.owner = coroutineType := by
  cases i with
  | push k => cases k <;> rfl
  | pop k => cases k <;> rfl
  | stage k => cases k <;> rfl
  | peekStaged k => cases k <;> rfl
  | _ => rfl

/-- The built-in methods are the ones that are called, unless the program has a class of coroutines
with such a method, or a host method stands for one. -/
theorem World.supplies_of {w : World}
    (hp : ∀ i : Intrinsic, i.isInjected = true →
      ((w.program.class? coroutineType).bind fun d => d.method? i.id.name i.id.desc) = none)
    (hh : ∀ i : Intrinsic, i.isInjected = true → ∀ h ∈ w.hosts, h.method ≠ i.id) :
    w.Supplies := by
  intro i hi
  have hfind : Native.find? w.hosts i.id = some (.intrinsic i) := by
    have hnone : (w.hosts.reverse.find? fun h => h.method == i.id) = none := by
      refine List.find?_eq_none.2 fun h hmem => ?_
      simpa using hh i hi h (List.mem_reverse.1 hmem)
    rw [Native.find?, hnone]
    dsimp only
    rw [Intrinsic.ofId?_id]
  have halong : w.findAlong .static i.id (w.program.superclassChain coroutineType) =
      .ok (some (.native (.intrinsic i))) := by
    show w.findAlong .static i.id (coroutineType :: _) = _
    rw [World.findAlong, hp i hi]
    dsimp only
    rw [show (⟨coroutineType, i.id.name, i.id.desc⟩ : MethodId) = i.id by rw [← i.id_owner], hfind]
  unfold World.resolve
  dsimp only
  rw [i.id_owner, halong]

/-! ## the steps of a call -/

namespace Machine

variable {w : World} {m : Machine} {a : Activation} {rest : List Pending} {i : Intrinsic}
  {args stack : List Value} {v : Option Value} {e : Engine Call Call} {S : Nat → Prop}

/-- a call of a method that injected code calls runs the built-in one -/
theorem step_injected (hw : w.Supplies) (hi : i.isInjected = true)
    (hm : m.mode = .calling ⟨.static, i.id, args⟩) : m.step w = m.runNative (.intrinsic i) args := by
  have hon : m.step w = m.callOn w ⟨.static, i.id, args⟩ none := by
    unfold step
    rw [hm]
    rfl
  rw [hon]
  unfold callOn
  rw [hw i hi]
  rfl

/-- a call from injected code whose method gives a result -/
theorem passes_injected (args : List Value) (hS : S a.position) (hw : w.Supplies) (hi : i.isInjected = true)
    (hc : a.method.code[a.position]? = some i.call) (hs : a.stack = args.reverse ++ stack)
    (hn : args.length = i.arity)
    (hp : ∀ m' : Machine, m'.engine = m.engine → m'.heap = m.heap →
      (i.perform args).run m' = (.ok (.result v), { m' with engine := e })) :
    Passes w S (m.goOn a rest) ({ m with engine := e }.goOn
      { a with position := a.position + 1, stack := v.toList ++ stack } rest) := by
  obtain ⟨d, hd, hlen⟩ := i.parse?_desc
  let called : Machine :=
    { m with pending := .activation { a with stack } :: rest, mode := .calling ⟨.static, i.id, args⟩ }
  have h1 : (m.goOn a rest).step w = called :=
    step_call hc (Insn.run_invoke hd (by rw [hn, hlen]; rfl) hs)
  have h2 : called.step w = { called with engine := e, mode := .returning v } := by
    rw [step_injected hw hi rfl]
    unfold runNative
    rw [show (Native.intrinsic i).perform args = i.perform args from rfl, hp called rfl rfl]
    rfl
  have h3 : ({ called with engine := e, mode := .returning v } : Machine).step w =
      ({ m with engine := e } : Machine).goOn
        { a with position := a.position + 1, stack := v.toList ++ stack } rest := by cases v <;> rfl
  refine .step (.of_step rfl hS h1 fun r hr => nomatch hr) ?_
  rw [h1]
  refine .step (.of_step rfl hS h2 fun r hr => nomatch hr) ?_
  rw [h2]
  exact .step (.of_step rfl hS h3 fun r hr => nomatch hr) (.here h3)

end Machine

/-! ## what the methods do -/

namespace Performing

open Effect

variable {m : Machine} {c : Coroutine Call Call} {α : Type}

theorem run_engine_ok {op : Engine Call Call → Except Violation α × Engine Call Call} {x : α}
    {e : Engine Call Call} (h : op m.engine = (.ok x, e)) :
    (engine op).run m = (.ok x, { m with engine := e }) := by
  unfold engine
  rw [run_bind_ok (run_get m)]
  simp only [h]
  rfl

theorem run_engine_error {op : Engine Call Call → Except Violation α × Engine Call Call}
    {x : Violation} {e : Engine Call Call} (h : op m.engine = (.error x, e)) :
    (engine op).run m = (.error (.fault (.violation x)), { m with engine := e }) := by
  unfold engine
  rw [run_bind_ok (run_get m)]
  simp only [h]
  rfl

/-- an operation of the running coroutine that violates no rule -/
theorem run_current {op : Coroutine Call Call → Coroutine.Outcome Call Call α} {x : α}
    {d : Coroutine Call Call} (hm : m.engine.Runs c) (h : op c = (.ok x, d)) :
    (current op).run m = (.ok x, m.put d) := by
  have he : m.engine.onCurrent op = (.ok x, m.engine.put d) := by rw [hm.onCurrent_eq, h]
  exact run_engine_ok he

theorem run_current_sure (hm : m.engine.Runs c)
    (op : Coroutine Call Call → α × Coroutine Call Call) :
    (current (Engine.sure op)).run m = (.ok (op c).1, m.put (op c).2) :=
  run_current hm rfl

theorem run_current_update (hm : m.engine.Runs c)
    (op : Coroutine Call Call → Coroutine Call Call) :
    (current (Engine.update op)).run m = (.ok (), m.put (op c)) :=
  run_current hm rfl

theorem run_arg {args : List Value} {n : Nat} {v : Value} (h : args[n]? = some v) :
    (arg args n).run m = (.ok v, m) := by
  unfold arg
  rw [h]
  rfl

theorem run_intArg {args : List Value} {n : Nat} {x : Int32} (h : args[n]? = some (.int x)) :
    (intArg args n).run m = (.ok x, m) := by
  unfold intArg
  rw [run_bind_ok (run_arg h)]
  rfl

theorem run_refArg {args : List Value} {n : Nat} {r : Option Ref}
    (h : args[n]? = some (.ref r)) : (refArg args n).run m = (.ok r, m) := by
  unfold refArg
  rw [run_bind_ok (run_arg h)]
  rfl

end Performing

namespace Intrinsic

open Effect Performing

section
variable {m : Machine} {c d : Coroutine Call Call} {k : Kind} {v : Value} {s : Storage}

/-! ### questions -/

theorem run_exists (m : Machine) :
    (Intrinsic.exists.perform []).run m =
      (.ok (.result (some (.ofBool m.engine.exists))), { m with engine := m.engine }) := rfl

theorem run_isYielding (m : Machine) :
    (Intrinsic.isYielding.perform []).run m =
      (.ok (.result (some (.ofBool m.engine.isYielding))), { m with engine := m.engine }) := rfl

/-! ### positions and values -/

theorem run_popState (hm : m.engine.Runs c) :
    (Intrinsic.popState.perform []).run m =
      (.ok (.result (some (.int c.popState.1))), m.put c.popState.2) := by
  show (current (Engine.sure Coroutine.popState) >>= fun n => _).run m = _
  rw [run_bind_ok (run_current_sure hm _)]
  rfl

theorem run_pushState (hm : m.engine.Runs c) (n : Int32) :
    (Intrinsic.pushState.perform [.int n]).run m =
      (.ok (.result none), m.put (c.pushState n)) := by
  show (intArg [.int n] 0 >>= fun n => _).run m = _
  rw [run_bind_ok (run_intArg rfl), run_bind_ok (run_current_update hm _)]
  rfl

theorem run_push (hm : m.engine.Runs c) (h : c.push v = (.ok (), d)) :
    ((Intrinsic.push k).perform [v]).run m = (.ok (.result none), m.put d) := by
  show (arg [v] 0 >>= fun v => _).run m = _
  rw [run_bind_ok (run_arg rfl), run_bind_ok (run_current hm h)]
  rfl

theorem run_pop (hm : m.engine.Runs c) (h : c.pop k = (.ok v, d)) :
    ((Intrinsic.pop k).perform []).run m = (.ok (.result (some v)), m.put d) := by
  show (current (fun c => c.pop k) >>= fun v => _).run m = _
  rw [run_bind_ok (run_current hm h)]
  rfl

theorem run_pushCompanion (hm : m.engine.Runs c) (r : Option Ref) :
    (Intrinsic.pushCompanion.perform [.ref r]).run m =
      (.ok (.result none), m.put (c.pushCompanion r)) := by
  show (refArg [.ref r] 0 >>= fun r => _).run m = _
  rw [run_bind_ok (run_refArg rfl), run_bind_ok (run_current_update hm _)]
  rfl

theorem run_discardCompanion (hm : m.engine.Runs c) (h : c.discardCompanion = (.ok (), d)) :
    (Intrinsic.discardCompanion.perform []).run m = (.ok (.result none), m.put d) := by
  show (current Coroutine.discardCompanion >>= fun _ => _).run m = _
  rw [run_bind_ok (run_current hm h)]
  rfl

/-! ### staging -/

theorem run_beginStaging (hm : m.engine.Runs c) :
    (Intrinsic.beginStaging.perform []).run m =
      (.ok (.result none), m.put c.beginStaging) := by
  show (current (Engine.update Coroutine.beginStaging) >>= fun _ => _).run m = _
  rw [run_bind_ok (run_current_update hm _)]
  rfl

theorem run_stage (hm : m.engine.Runs c) (h : c.stage v = (.ok (), d)) :
    ((Intrinsic.stage k).perform [v]).run m = (.ok (.result none), m.put d) := by
  show (arg [v] 0 >>= fun v => _).run m = _
  rw [run_bind_ok (run_arg rfl), run_bind_ok (run_current hm h)]
  rfl

theorem run_peekStaged (hm : m.engine.Runs c) {n : Int32} (hn : ¬ n < 0)
    (h : c.peekStaged k n.toInt.toNat = (.ok v, d)) :
    ((Intrinsic.peekStaged k).perform [.int n]).run m = (.ok (.result (some v)), m.put d) := by
  have hpeek : (performPeek k [.int n]).run m = (.ok v, m.put d) := by
    unfold performPeek
    rw [run_bind_ok (run_intArg rfl), if_neg hn, run_current hm h]
  show (performPeek k [.int n] >>= fun v => _).run m = _
  rw [run_bind_ok hpeek]
  rfl

theorem run_commitStaging (hm : m.engine.Runs c) (h : c.commitStaging = (.ok (), d)) :
    (Intrinsic.commitStaging.perform []).run m = (.ok (.result none), m.put d) := by
  show (current Coroutine.commitStaging >>= fun _ => _).run m = _
  rw [run_bind_ok (run_current hm h)]
  rfl

theorem run_endStaging (hm : m.engine.Runs c) (h : c.endStaging = (.ok (), d)) :
    (Intrinsic.endStaging.perform []).run m = (.ok (.result none), m.put d) := by
  show (current Coroutine.endStaging >>= fun _ => _).run m = _
  rw [run_bind_ok (run_current hm h)]
  rfl

end

end Intrinsic
end Resumable
