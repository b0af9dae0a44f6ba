import Resumable.Proofs.Muting

/-!
# Driving a coroutine

A coroutine is driven by resuming it, again and again, until its body has ended or one of its runs has thrown.
What comes of that does not depend on how its runs are bounded.

* `Drives`, `Drives.unique` : what comes of resuming a coroutine until it has ended;
* `Finishes` : the same for a run that is under way;
* `Machine.step_leaving` : the step in which the body ends.
-/

namespace Resumable

/-! ## what comes of it -/

/-- A coroutine is resumed until it has ended, after what came of one run of it.  What is saved of positions each
time it is suspended, how its last run ends, and the machine after that. -/
inductive Drives (w : World) (id : Nat) : Option (Except Throw (Option Value) × Machine) → List (List Int32) →
    Except Throw (Option Value) → Machine → Prop
  | threw {t : Throw} {m : Machine} : Drives w id (some (.error t, m)) [] (.error t) m
  | ended {v : Option Value} {m : Machine} {c : Coroutine Call Call} (found : m.engine.get? id = some c)
      (terminal : c.status = .terminal) : Drives w id (some (.ok v, m)) [] (.ok v) m
  | again {v : Option Value} {m m' : Machine} {c : Coroutine Call Call} {fuel : Nat}
      {positions : List (List Int32)} {r : Except Throw (Option Value)} (found : m.engine.get? id = some c)
      (suspended : c.status = .suspended) (rest : Drives w id (m.resume? w fuel id) positions r m') :
      Drives w id (some (.ok v, m)) (c.states :: positions) r m'

section
variable {w : World} {id : Nat} {m m' m'' : Machine} {x : Option (Except Throw (Option Value) × Machine)}
  {positions positions' : List (List Int32)} {r r' : Except Throw (Option Value)}

/-- runs that end, end in the same way with any bound -/
theorem Machine.run?_unique {fuel fuel' : Nat} {q q' : Except Throw (Option Value) × Machine}
    (h : m.run? w fuel = some q) (h' : m.run? w fuel' = some q') : q' = q := by
  obtain ⟨hreach, hr⟩ := run?_eq_some h
  obtain ⟨hreach', hr'⟩ := run?_eq_some h'
  obtain ⟨n, hn⟩ := hreach.of_result? hreach' hr'
  rw [after_of_result? (by rw [hr]; rfl)] at hn
  exact Prod.ext (Option.some.inj (hr'.symm.trans (hn ▸ hr))) hn.symm

theorem Machine.resume?_unique {fuel fuel' : Nat} {q q' : Except Throw (Option Value) × Machine}
    (h : m.resume? w fuel id = some q) (h' : m.resume? w fuel' id = some q') : q' = q := by
  unfold resume? at h h'
  generalize m.engine.enter id = entered at h h'
  obtain ⟨entered, e⟩ := entered
  cases entered with
  | error v => exact Option.some.inj (h'.symm.trans h)
  | ok body => exact run?_unique h h'

theorem Drives.ne_none (h : Drives w id x positions r m) : x ≠ none := by
  rintro rfl
  cases h

/-- **What comes of resuming a coroutine** until it has ended does not depend on the bounds of its runs. -/
theorem Drives.unique (h : Drives w id x positions r m) (h' : Drives w id x positions' r' m') :
    positions' = positions ∧ r' = r ∧ m' = m := by
  induction h generalizing positions' r' m' with
  | threw =>
    cases h'
    exact ⟨rfl, rfl, rfl⟩
  | ended found terminal =>
    cases h' with
    | ended => exact ⟨rfl, rfl, rfl⟩
    | again found' suspended =>
      rw [Option.some.inj (found.symm.trans found'), suspended] at terminal
      exact absurd terminal (by simp)
  | again found suspended rest ih =>
    cases h' with
    | ended found' terminal =>
      rw [Option.some.inj (found.symm.trans found'), terminal] at suspended
      exact absurd suspended (by simp)
    | @again _ _ _ _ fuel' _ _ found' _ rest' =>
      obtain ⟨q, hq⟩ := Option.ne_none_iff_exists'.1 rest.ne_none
      obtain ⟨q', hq'⟩ := Option.ne_none_iff_exists'.1 rest'.ne_none
      rw [hq', Machine.resume?_unique hq hq', ← hq] at rest'
      obtain ⟨rfl, rfl, rfl⟩ := ih rest'
      rw [Option.some.inj (found'.symm.trans found)]
      exact ⟨rfl, rfl, rfl⟩

end

/-- a run that is under way, and the runs after it -/
def Finishes (w : World) (id : Nat) (m : Machine) (positions : List (List Int32)) (r : Except Throw (Option Value))
    (m' : Machine) : Prop := ∃ fuel, Drives w id (m.run? w fuel) positions r m'

section
variable {w : World} {id : Nat} {m m' m'' : Machine} {positions : List (List Int32)} {r : Except Throw (Option Value)}

/-- some steps before -/
theorem Finishes.of_reaches (hreach : Machine.Reaches w m m') (h : Finishes w id m' positions r m'') :
    Finishes w id m positions r m'' := by
  obtain ⟨fuel, h⟩ := h
  cases hrun : m'.run? w fuel with
  | none =>
    rw [hrun] at h
    exact absurd h (by rintro ⟨⟩)
  | some q =>
    obtain ⟨s, m₁⟩ := q
    obtain ⟨hreach', hr⟩ := Machine.run?_eq_some hrun
    obtain ⟨fuel', hfuel'⟩ := Machine.run?_of_reaches (hreach.trans hreach') hr
    refine ⟨fuel', ?_⟩
    rw [hfuel', ← hrun]
    exact h

/-- a run that has ended is the last one -/
theorem Finishes.of_result? (hr : m.result? = some r) (h : Drives w id (some (r, m)) positions r m') :
    Finishes w id m positions r m' := by
  refine ⟨0, ?_⟩
  rw [Machine.run?_of_result? hr]
  exact h

/-- another run comes after the suspension of a coroutine -/
theorem Finishes.of_suspended {c : Coroutine Call Call} {v : Option Value} (hr : m.result? = some (.ok v))
    (found : m.engine.get? id = some c) (suspended : c.status = .suspended)
    (hresume : ∀ fuel, m.resume? w fuel id = m'.run? w fuel) (h : Finishes w id m' positions r m'') :
    Finishes w id m (c.states :: positions) r m'' := by
  obtain ⟨fuel, h⟩ := h
  refine ⟨0, ?_⟩
  rw [Machine.run?_of_result? hr]
  exact .again found suspended (hresume fuel ▸ h)

end

/-- a bounded run takes no more steps than its bound -/
theorem Machine.after_of_run? {w : World} {m m' : Machine} {fuel : Nat} {r : Except Throw (Option Value)}
    (h : m.run? w fuel = some (r, m')) : m.after w fuel = m' := by
  induction fuel generalizing m with
  | zero =>
    cases hm : m.result? with
    | none =>
      simp only [run?.eq_def w, hm] at h
      exact absurd h (by simp)
    | some s =>
      rw [run?_of_result? hm] at h
      exact (Prod.mk.inj (Option.some.inj h)).2
  | succ fuel ih =>
    cases hm : m.result? with
    | none =>
      rw [run?_succ hm] at h
      exact ih h
    | some s =>
      rw [after_of_result? (by rw [hm]; rfl)]
      rw [run?_of_result? hm] at h
      exact (Prod.mk.inj (Option.some.inj h)).2

/-! ## the end of the body -/

namespace Coroutine

variable {β κ : Type}

/-- a coroutine whose body has ended -/
def ended (c : Coroutine β κ) (body : β) : Coroutine β κ :=
  { c with body := some body, status := .terminal, yielding := false, deferred := none }

end Coroutine

/-- how a run ends with the body of its coroutine -/
def Mode.last : Mode → Mode
  | .throwing t => .throwing t
  | _ => .returning none

namespace Machine

variable {w : World} {m : Machine} {c : Coroutine Call Call} {body : Call}

/-- the body of a coroutine that is not being suspended ends -/
theorem leave_ended (hc : m.engine.Runs c) (hactive : m.engine.active = [c.id]) (hyield : c.yielding = false)
    (finished : Bool) : m.engine.leave c.id body finished =
      (none, ({ m.engine with active := [] } : Engine Call Call).put (c.ended body)) := by
  have hend : c.endRun body finished = (none, c.ended body) := by
    unfold Coroutine.endRun
    rw [hyield, Bool.and_false, if_neg (by simp)]
    rfl
  unfold Engine.leave
  dsimp only
  rw [show Engine.get? ⟨m.engine.coroutines, m.engine.active.tail⟩ c.id = some c from hc.found, hactive]
  dsimp only
  rw [hend]
  rfl

/-- the machine once the body of a coroutine has ended -/
theorem step_leaving (hc : m.engine.Runs c) (hactive : m.engine.active = [c.id]) (hyield : c.yielding = false)
    (hleaving : m.Leaving c.id body) : m.step w = { m with
      engine := ({ m.engine with active := [] } : Engine Call Call).put (c.ended body)
      pending := [], mode := m.mode.last } := by
  obtain ⟨hp, ⟨v, hmode⟩ | ⟨t, hmode⟩⟩ := hleaving
  · have hstep : m.step w = m.leaveBody c.id body [] := by
      unfold step
      rw [hmode, hp]
      rfl
    rw [hstep, leaveBody_none [] (leave_ended hc hactive hyield true), hmode]
    rfl
  · have hstep : m.step w = m.abandonBody c.id body [] t := by
      unfold step
      rw [hmode, hp]
      rfl
    rw [hstep, hmode]
    unfold abandonBody
    rw [leave_ended hc hactive hyield false]
    rfl

end Machine

end Resumable
