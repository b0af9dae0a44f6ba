import Resumable.Proofs.Thread

/-!
# Coroutines below others

A coroutine that resumes another one keeps running below it.  What the other one does, and what is
resumed by it in turn, goes to the innermost coroutine and leaves those below alone.  There is one way
down: what a yield deferred runs when the coroutine that deferred it no longer does, so its storage
operations go to the resumer.

* `Thread.Sheltered` : some body runs above the calls that were under way;
* `Thread.isolation` : a call of `resume` leaves the resumer as it was;
* `Thread.no_isolation_deferred` : not if something deferred uses storage.
-/

namespace Resumable

variable {β κ : Type}

/-- the event is an operation of storage, saved positions or staging -/
def Event.isAccess : Event β κ → Bool
  | .access _ => true
  | _ => false

/-- the coroutine that is asked to suspend -/
def Event.asked? : Event β κ → Option Nat
  | .yield id _ => some id
  | _ => none

namespace Thread

variable {s t : Thread β κ} {e : Event β κ} {es : List (Event β κ)} {o q : Nat} {c : Coroutine β κ}
  {base upper : List (Level β)}

/-- some body runs above the levels of a caller -/
def Sheltered (t : Thread β κ) (base : List (Level β)) : Prop :=
  ((t.levels.take (t.levels.length - base.length)).filterMap Level.id?).isEmpty = false

instance (t : Thread β κ) (base : List (Level β)) : Decidable (t.Sheltered base) :=
  inferInstanceAs (Decidable (_ = _))

theorem sheltered_iff (hlevels : t.levels = upper ++ base) :
    t.Sheltered base ↔ upper.filterMap Level.id? ≠ [] := by
  have htake : t.levels.take (t.levels.length - base.length) = upper := by
    rw [hlevels, List.length_append, Nat.add_sub_cancel, List.take_left]
  unfold Sheltered
  rw [htake, ← List.isEmpty_eq_false_iff]

/-- only what runs innermost ends, so an event leaves what is below it under way -/
theorem levels_act (hact : s.act e = some t) (hlevels : s.levels = upper ++ base)
    (hupper : upper ≠ []) : ∃ upper', t.levels = upper' ++ base := by
  cases e with
  | create body => exact ⟨upper, by rw [← Option.some.inj hact]; exact hlevels⟩
  | access a => exact ⟨upper, by rw [← Option.some.inj hact]; exact hlevels⟩
  | yield id deferred => exact ⟨upper, by rw [← Option.some.inj hact]; exact hlevels⟩
  | resume id =>
    simp only [act] at hact
    split at hact
    · rw [← Option.some.inj hact]
      exact ⟨_ :: upper, congrArg _ hlevels⟩
    · rw [← Option.some.inj hact]
      exact ⟨upper, hlevels⟩
  | leave finished =>
    cases upper with
    | nil => exact absurd rfl hupper
    | cons l upper =>
      cases l with
      | deferred => exact absurd hact (by simp [act, hlevels])
      | body id body =>
        rcases (act_leave hlevels hact).2 with h | h
        · exact ⟨upper, h⟩
        · exact ⟨.deferred :: upper, h⟩
  | finish =>
    cases upper with
    | nil => exact absurd rfl hupper
    | cons l upper =>
      cases l with
      | body id body => exact absurd hact (by simp [act, hlevels])
      | deferred =>
        simp only [act, hlevels, List.cons_append] at hact
        exact ⟨upper, by rw [← Option.some.inj hact]⟩

/-- the coroutine runs, and everything above it belongs to calls that it made -/
structure Below (s : Thread β κ) (base : List (Level β)) (o : Nat) (c : Coroutine β κ) : Prop where
  orderly : s.Orderly
  innermost : ∃ rest, base.filterMap Level.id? = o :: rest
  split : ∃ upper, s.levels = upper ++ base
  found : s.engine.get? o = some c

theorem Below.mem (h : s.Below base o c) : o ∈ s.engine.active := by
  obtain ⟨rest, hbase⟩ := h.innermost
  obtain ⟨upper, hlevels⟩ := h.split
  rw [h.orderly.active, hlevels, List.filterMap_append, hbase]
  exact List.mem_append_right _ List.mem_cons_self

/-- the coroutine does not run once more above itself -/
theorem Below.not_mem (h : s.Below base o c) (hlevels : s.levels = upper ++ base) :
    o ∉ upper.filterMap Level.id? := by
  obtain ⟨rest, hbase⟩ := h.innermost
  have honce := h.orderly.engine.once
  rw [h.orderly.active, hlevels, List.filterMap_append, hbase] at honce
  exact fun hmem => (List.nodup_append.1 honce).2.2 o hmem o List.mem_cons_self rfl

/-- under a body that runs above it, the coroutine is not the innermost one -/
theorem Below.current_ne (h : s.Below base o c) (hs : s.Sheltered base) :
    s.engine.currentId? ≠ some o := by
  obtain ⟨upper, hlevels⟩ := h.split
  have hmem := h.not_mem hlevels
  have hne := (sheltered_iff hlevels).1 hs
  unfold Engine.currentId?
  rw [h.orderly.active, hlevels, List.filterMap_append]
  cases hids : upper.filterMap Level.id? with
  | nil => exact absurd hids hne
  | cons id ids =>
    rw [hids] at hmem
    exact fun hid => hmem (by rw [← Option.some.inj hid]; exact List.mem_cons_self)

/-- with nothing above it, the coroutine is the innermost one -/
theorem Below.current (h : s.Below base o c) (hlevels : s.levels = base) :
    s.engine.currentId? = some o := by
  obtain ⟨rest, hbase⟩ := h.innermost
  unfold Engine.currentId?
  rw [h.orderly.active, hlevels, hbase]
  rfl

/-- **One event** above the coroutine leaves it as it was -/
theorem Below.act (h : s.Below base o c) (hact : s.act e = some t)
    (habove : base.length < s.levels.length) (hasked : e.asked? ≠ some o)
    (haccess : e.isAccess → s.Sheltered base) : t.Below base o c := by
  obtain ⟨upper, hlevels⟩ := h.split
  have hupper : upper ≠ [] := by
    rintro rfl
    rw [hlevels, List.nil_append] at habove
    exact absurd habove (Nat.lt_irrefl _)
  obtain ⟨c', hc', hchange⟩ := h.orderly.change hact h.found
  refine ⟨h.orderly.act hact, h.innermost, levels_act hact hlevels hupper, ?_⟩
  rw [hc']
  cases hchange with
  | same => rfl
  | access a hcurrent => exact absurd hcurrent (h.current_ne (haccess rfl))
  | yield deferred => exact absurd rfl hasked
  | resume storage hidle _ => exact absurd h.mem hidle
  | @leave body levels hinnermost finished =>
    cases upper with
    | nil => exact absurd rfl hupper
    | cons l upper =>
      obtain rfl : l = .body o body := (List.cons.inj (hlevels.symm.trans hinnermost)).1
      exact absurd List.mem_cons_self (h.not_mem hlevels)

theorem Below.run (h : s.Below base o c) (hrun : s.run es = some t)
    (habove : ∀ p ∈ s.trace es, base.length < p.1.levels.length)
    (hasked : ∀ p ∈ s.trace es, p.2.asked? ≠ some o)
    (haccess : ∀ p ∈ s.trace es, p.2.isAccess → p.1.Sheltered base) : t.Below base o c := by
  induction es generalizing s with
  | nil =>
    rw [← Option.some.inj hrun]
    exact h
  | cons e es ih =>
    obtain ⟨s₁, hact, hrest⟩ := Option.bind_eq_some_iff.1 hrun
    have htrace : s.trace (e :: es) = (s, e) :: s₁.trace es := by
      rw [trace, hact]
      rfl
    rw [htrace] at habove hasked haccess
    have hhead : (s, e) ∈ (s, e) :: s₁.trace es := List.mem_cons_self
    refine ih (h.act hact (habove _ hhead) (hasked _ hhead) (haccess _ hhead)) hrest ?_ ?_ ?_
    · exact fun p hp => habove p (List.mem_cons_of_mem _ hp)
    · exact fun p hp => hasked p (List.mem_cons_of_mem _ hp)
    · exact fun p hp => haccess p (List.mem_cons_of_mem _ hp)

/-- the innermost coroutine makes a call of `resume` -/
theorem Below.of_resume (hs : s.Orderly) (ho : s.engine.currentId? = some o)
    (hc : s.engine.get? o = some c) (hact : s.act (.resume q) = some t) : t.Below s.levels o c := by
  obtain ⟨rest, hactive⟩ : ∃ rest, s.engine.active = o :: rest := List.head?_eq_some_iff.1 ho
  obtain ⟨c', hc', hchange⟩ := hs.change hact hc
  refine ⟨hs.act hact, ⟨rest, hs.active.symm.trans hactive⟩, ?_, ?_⟩
  · simp only [Thread.act] at hact
    split at hact
    · rw [← Option.some.inj hact]
      exact ⟨[_], rfl⟩
    · rw [← Option.some.inj hact]
      exact ⟨[], rfl⟩
  · rw [hc']
    cases hchange with
    | same => rfl
    | resume storage hidle _ =>
      exact absurd (by rw [hactive]; exact List.mem_cons_self) hidle

/-- **A call of `resume` leaves the resumer alone.**  Whatever happens during the call, the resumer is as
it was, and once the call has returned, storage operations go to the resumer and give what they would
have given before.  Nobody may ask the resumer to suspend, and storage is used only while some body runs
above the resumer, not by what was deferred with no body in between. -/
theorem isolation (hs : s.Reachable) (ho : s.engine.currentId? = some o) (h : s.Resumes q es t)
    (hasked : ∀ p ∈ s.trace (.resume q :: es), p.2.asked? ≠ some o)
    (haccess : ∀ p ∈ s.trace (.resume q :: es), p.2.isAccess → p.1.Sheltered s.levels) :
    ∃ c, s.engine.get? o = some c ∧ t.engine.get? o = some c ∧ (t.levels = s.levels →
      t.engine.currentId? = some o ∧
      ∀ a : Access, (t.engine.onCurrent a.perform).1 = (s.engine.onCurrent a.perform).1) := by
  have horderly := hs.orderly
  obtain ⟨c, hc⟩ := horderly.engine.found o (List.mem_of_mem_head? ho)
  obtain ⟨s₁, hact, hrest⟩ := Option.bind_eq_some_iff.1 h.run
  have habove := h.above
  have htrace : s.trace (.resume q :: es) = (s, .resume q) :: s₁.trace es := by
    rw [trace, hact]
    rfl
  rw [htrace] at hasked haccess habove
  have hbelow : t.Below s.levels o c := by
    refine (Below.of_resume horderly ho hc hact).run hrest habove ?_ ?_
    · exact fun p hp => hasked p (List.mem_cons_of_mem _ hp)
    · exact fun p hp => haccess p (List.mem_cons_of_mem _ hp)
  refine ⟨c, hc, hbelow.found, fun hback => ⟨hbelow.current hback, fun a => ?_⟩⟩
  simp only [Engine.onCurrent, hbelow.current hback, ho, Engine.on_eq hbelow.found, Engine.on_eq hc]

theorem isolation_resumer : resumer.Reachable ∧ resumer.engine.currentId? = some 1 ∧ ∃ t,
    resumer.Returns 2 excursion t ∧ t.engine.get? 1 = resumer.engine.get? 1 ∧
    t.engine.currentId? = some 1 := by
  have hreturns : resumer.Returns 2 excursion _ := ⟨⟨rfl, by decide⟩, rfl⟩
  obtain ⟨c, hbefore, hafter, hback⟩ :=
    isolation reachable_resumer rfl hreturns.toResumes (by decide) (by decide)
  exact ⟨reachable_resumer, rfl, _, hreturns, hafter.trans hbefore.symm, (hback hreturns.back).1⟩

/-- What a yield deferred finds the storage of the resumer: a number that it stores stays there. -/
theorem no_isolation_deferred : ¬ ∀ (s t : Thread Unit Unit) (o q : Nat) (es : List (Event Unit Unit)),
    s.Reachable → s.engine.currentId? = some o → q ≠ o → s.Returns q es t →
    (∀ p ∈ s.trace (.resume q :: es), p.2.asked? ≠ some o) →
    ∀ c, s.engine.get? o = some c →
      ∃ c', t.engine.get? o = some c' ∧ c'.savings = c.savings ∧ c'.yielding = c.yielding := by
  intro h
  obtain ⟨c', hc', hsavings, -⟩ := h resumer _ 1 2
    [.yield 2 (some ()), .leave true, .access (.push (.int 5)), .finish] reachable_resumer rfl
    (by decide) ⟨⟨rfl, by decide⟩, rfl⟩ (by decide) _ rfl
  have hints := congrArg (fun s : Savings => s.storage.ints) hsavings
  rw [← Option.some.inj hc'] at hints
  exact absurd hints (by decide)

end Thread
end Resumable
