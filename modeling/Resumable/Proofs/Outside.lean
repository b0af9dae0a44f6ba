import Resumable.Proofs.Deferral

/-!
# Yields outside of runs

A yield is for a coroutine that runs.  Whether any other one is told so depends on its last suspension: a coroutine
that is resumed calls the yield that suspended it once more, and the next yield, whoever calls it and whenever, is taken
for this one.  So between a suspension and the next yield a coroutine that does not run accepts a yield: it then no
longer knows the yield on the way back, and suspends there again.

* `Thread.pending`, `Thread.Orderly.pending_act` : an event that leaves a yield to be passed by;
* `Thread.Unanswered`, `Thread.pending_iff` : no yield was called since the last suspension;
* `Thread.yield_outside` : the coroutines that accept a yield although they do not run.
-/

namespace Resumable

variable {β κ : Type}

namespace Coroutine

variable {c : Coroutine β κ}

/-- every yield answers the last suspension -/
theorem yieldPending_yield (c : Coroutine β κ) (d : Option κ) : (c.yield d).2.yieldPending = false := by
  unfold yield
  split
  · rfl
  · rename_i hpending
    split
    · exact Bool.eq_false_iff.2 hpending
    · split
      · exact Bool.eq_false_iff.2 hpending
      · exact Bool.eq_false_iff.2 hpending

theorem yieldPending_perform (a : Access) (c : Coroutine β κ) :
    (a.perform c).2.yieldPending = c.yieldPending := by
  obtain ⟨_, _, _, _, _, h⟩ := resaved_perform a c
  rw [h]

/-- a run that ends in a suspension leaves the yield to be passed by -/
theorem yieldPending_endRun (c : Coroutine β κ) (body : β) (finished : Bool) :
    (c.endRun body finished).2.yieldPending = (finished && c.yielding || c.yieldPending) := by
  unfold endRun
  cases finished && c.yielding <;> rfl

end Coroutine

namespace Thread

variable {s t : Thread β κ} {e : Event β κ} {es : List (Event β κ)} {id : Nat} {c : Coroutine β κ}

/-- the next yield of the coroutine is taken for the one that suspended it -/
def pending (t : Thread β κ) (id : Nat) : Bool := (t.engine.get? id).any Coroutine.yieldPending

/-- the event suspends the coroutine: the body returns, and a yield has taken effect -/
def Suspends (t : Thread β κ) (id : Nat) (e : Event β κ) : Prop :=
  t.ends? id e = some true ∧ t.slot id ≠ none

theorem pending_eq (hc : t.engine.get? id = some c) : t.pending id = c.yieldPending := by
  unfold pending
  rw [hc]
  rfl

theorem Suspends.ne_yield (h : s.Suspends id e) (d : Option κ) : e ≠ .yield id d := by
  rw [(ends?_eq_some.1 h.1).1]
  exact nofun

/-- **One event**: a suspension leaves a yield to be passed by, and a yield leaves none -/
theorem Orderly.pending_act (h : s.Orderly) (hact : s.act e = some t) (id : Nat) :
    t.pending id = true ↔ (∀ d, e ≠ .yield id d) ∧ (s.pending id = true ∨ s.Suspends id e) := by
  cases hc : s.engine.get? id with
  | none =>
    have hbefore : s.pending id = false := by simp [pending, hc]
    have hslot : s.slot id = none := by simp [slot, hc]
    have hafter : t.pending id = false := by
      cases hc' : t.engine.get? id with
      | none => simp [pending, hc']
      | some c' =>
        obtain ⟨body, rfl⟩ := created hact hc hc'
        exact pending_eq hc'
    simp [hbefore, hafter, Suspends, hslot]
  | some c =>
    by_cases hy : ∃ d, e = .yield id d
    · obtain ⟨d, rfl⟩ := hy
      have hc' : t.engine.get? id = some (c.yield d).2 := by
        rw [← Option.some.inj hact, h.engine.get?_on (fun c => c.id_yield d) hc, if_pos rfl]
      rw [pending_eq hc', c.yieldPending_yield]
      simp
    · rw [pending_eq hc]
      cases hends : s.ends? id e with
      | some finished =>
        obtain ⟨rfl, body, levels, hlevels⟩ := ends?_eq_some.1 hends
        rw [pending_eq (h.get?_leave hact hlevels hc), c.yieldPending_endRun]
        simp [Suspends, hends, slot, hc, Coroutine.slot, or_comm]
      | none =>
        have hsame : t.pending id = c.yieldPending := by
          obtain ⟨c', hc', hchange⟩ := h.change hact hc
          rw [pending_eq hc']
          cases hchange with
          | same => rfl
          | access a _ => exact c.yieldPending_perform a
          | yield d => exact absurd ⟨d, rfl⟩ hy
          | resume storage _ _ => rfl
          | leave hlevels finished =>
            exact absurd (hends.symm.trans (ends?_eq_some.2 ⟨rfl, _, _, hlevels⟩)) (by simp)
        rw [hsame]
        simpa [Suspends, hends] using fun _ d hd => hy ⟨d, hd⟩

/-- some event has suspended the coroutine, and no yield of it was called since -/
def Unanswered (s : Thread β κ) (id : Nat) (es : List (Event β κ)) : Prop :=
  ∃ es₁ u e es₂, es = es₁ ++ e :: es₂ ∧ s.run es₁ = some u ∧ u.Suspends id e ∧ ∀ d, .yield id d ∉ es₂

theorem unanswered_cons (hact : s.act e = some t) : s.Unanswered id (e :: es) ↔
    t.Unanswered id es ∨ s.Suspends id e ∧ ∀ d, .yield id d ∉ es := by
  constructor
  · rintro ⟨es₁, u, e', es₂, heq, hrun, hsuspends, hyield⟩
    cases es₁ with
    | nil =>
      obtain ⟨rfl, rfl⟩ := List.cons.inj heq
      obtain rfl := Option.some.inj hrun
      exact .inr ⟨hsuspends, hyield⟩
    | cons e₁ es₁ =>
      obtain ⟨rfl, rfl⟩ := List.cons.inj heq
      rw [run, hact] at hrun
      exact .inl ⟨es₁, u, e', es₂, rfl, hrun, hsuspends, hyield⟩
  · rintro (⟨es₁, u, e', es₂, rfl, hrun, hsuspends, hyield⟩ | ⟨hsuspends, hyield⟩)
    · exact ⟨e :: es₁, u, e', es₂, rfl, by rw [run, hact]; exact hrun, hsuspends, hyield⟩
    · exact ⟨[], s, e, es, rfl, rfl, hsuspends, hyield⟩

/-- **Any events**: a yield is passed by exactly if it is the first one since the last suspension -/
theorem Orderly.pending_run (h : s.Orderly) (hrun : s.run es = some t) : t.pending id = true ↔
    s.Unanswered id es ∨ s.pending id = true ∧ ∀ d, .yield id d ∉ es := by
  induction es generalizing s with
  | nil =>
    obtain rfl := Option.some.inj hrun
    have hnone : ¬ s.Unanswered id [] := fun ⟨es₁, _, _, _, heq, _⟩ => by simp at heq
    simp [hnone]
  | cons e es ih =>
    obtain ⟨s₁, hact, hrest⟩ := Option.bind_eq_some_iff.1 hrun
    have hyield : (∀ d, .yield id d ∉ e :: es) ↔ (∀ d, e ≠ .yield id d) ∧ ∀ d, .yield id d ∉ es := by
      simp only [List.mem_cons, not_or, forall_and, ne_comm]
    have hne (hs : s.Suspends id e) : ∀ d, e ≠ .yield id d := hs.ne_yield
    rw [ih (h.act hact) hrest, unanswered_cons hact, h.pending_act hact, hyield]
    tauto

/-! ## coroutines that never ran -/

/-- coroutines that never ran have no yield to be passed by -/
def Untouched (t : Thread β κ) : Prop :=
  ∀ id c, t.engine.get? id = some c → c.status = .initial → c.yieldPending = false

theorem Untouched.act (h : s.Untouched) (hs : s.Orderly) (hact : s.act e = some t) : t.Untouched := by
  intro id c' hc' hinitial
  cases hc : s.engine.get? id with
  | none =>
    obtain ⟨body, rfl⟩ := created hact hc hc'
    rfl
  | some c =>
    obtain ⟨c'', hc'', hchange⟩ := hs.change hact hc
    obtain rfl := Option.some.inj (hc''.symm.trans hc')
    cases hchange with
    | same => exact h id c hc hinitial
    | access a _ =>
      rw [(Coroutine.same_perform a c).status] at hinitial
      rw [c.yieldPending_perform a]
      exact h id c hc hinitial
    | yield d => exact c.yieldPending_yield d
    | resume storage _ _ => exact nomatch hinitial
    | @leave body levels hlevels finished =>
      unfold Coroutine.endRun at hinitial
      split at hinitial <;> exact nomatch hinitial

theorem Untouched.run (h : s.Untouched) (hs : s.Orderly) (hrun : s.run es = some t) : t.Untouched := by
  induction es generalizing s with
  | nil =>
    obtain rfl := Option.some.inj hrun
    exact h
  | cons e es ih =>
    obtain ⟨s₁, hact, hrest⟩ := Option.bind_eq_some_iff.1 hrun
    exact ih (h.act hs hact) (hs.act hact) hrest

/-! ## yields outside of runs -/

/-- **Yields outside of runs.**  A yield of a coroutine that does not run is refused, with nothing changed, exactly
if the coroutine was not suspended or some yield of it was called since its last suspension.  Any other one is
accepted, and all it does is that the yield on the way back is not passed by.  A coroutine that never ran refuses. -/
theorem yield_outside (hrun : fresh.run es = some t) (hc : t.engine.get? id = some c)
    (hidle : c.status ≠ .running) :
    ((∀ d, t.engine.on id (fun c => c.yield d) = (.error (.notRunning id), t.engine)) ↔ ¬ fresh.Unanswered id es) ∧
    (fresh.Unanswered id es → ∀ d, t.engine.on id (fun c => c.yield d) =
      (.ok (), t.engine.put { c with yieldPending := false })) ∧
    (c.status = .initial → ¬ fresh.Unanswered id es) := by
  have hnone (n : Nat) : (fresh : Thread β κ).engine.get? n = none := by cases n <;> rfl
  have horderly := orderly_fresh.run hrun
  have hpending : c.yieldPending = true ↔ fresh.Unanswered id es := by
    rw [← pending_eq hc, orderly_fresh.pending_run hrun]
    simp [pending, hnone]
  have hon (d : Option κ) := Engine.on_eq hc fun c => c.yield d
  have hself : t.engine.put c = t.engine := Engine.put_self (by rw [horderly.engine.numbered id c hc, hc])
  have hunanswered (h : fresh.Unanswered id es) (d : Option κ) : t.engine.on id (fun c => c.yield d) =
      (.ok (), t.engine.put { c with yieldPending := false }) := by
    rw [hon, Coroutine.yield, if_pos (hpending.2 h)]
  refine ⟨⟨fun hrefused h => ?_, fun h d => ?_⟩, hunanswered, fun hinitial h => ?_⟩
  · exact nomatch (congrArg Prod.fst ((hunanswered h none).symm.trans (hrefused none)))
  · rw [hon, Coroutine.yield, if_neg (fun hp => h (hpending.1 hp)), if_pos hidle, hself,
      horderly.engine.numbered id c hc]
  · have huntouched : (fresh : Thread β κ).Untouched := fun n c hc => nomatch (hnone n).symm.trans hc
    rw [← hpending, huntouched.run orderly_fresh hrun id c hc hinitial] at h
    exact nomatch h

/-- a coroutine that has just been suspended -/
def suspension : List (Event Unit Unit) := [.create (), .resume 1, .yield 1 none, .leave true]

theorem yield_outside_suspension : ∃ t : Thread Unit Unit, ∃ c, fresh.run suspension = some t ∧
    t.engine.get? 1 = some c ∧ c.status = .suspended ∧ c.yieldPending = true ∧
    ∀ d, t.engine.on 1 (fun c => c.yield d) = (.ok (), t.engine.put { c with yieldPending := false }) := by
  refine ⟨_, _, rfl, rfl, rfl, rfl, ?_⟩
  have hrun : fresh.run suspension = some _ := rfl
  refine (yield_outside hrun rfl (by decide)).2.1 ?_
  exact ⟨[.create (), .resume 1, .yield 1 none], _, .leave true, [], rfl, rfl, ⟨rfl, by decide⟩, by simp⟩

/-- It accepts a yield. -/
theorem not_refused_suspended : ¬ ∀ (es : List (Event Unit Unit)) t id c, fresh.run es = some t →
    t.engine.get? id = some c → c.status ≠ .running →
    ∀ d, c.yield d = (.error (.notRunning c.id), c) := by
  intro h
  have hrefused := h suspension _ 1 _ rfl rfl (by decide) none
  exact nomatch (congrArg Prod.fst hrefused)

end Thread
end Resumable
