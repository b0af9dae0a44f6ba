import Resumable.Proofs.Holding

/-!
# Requests that coroutines reject

A coroutine can be asked to run, to suspend, or to do an operation on what it holds, and each of these has causes for
which it is rejected.  A rejected request leaves everything as it was, with one exception: taking a value off an empty
stack, which makes the coroutine forget that the reference of a receiver lies on top.

* `Request`, `Engine.request` : what coroutines are asked, and what comes of it;
* `Coroutine.Rejects` : the causes;
* `Request.attempt_of_rejects`, `Request.rejects_of_attempt` : these are all the causes;
* `Thread.rejection_traceless_iff` : what a rejected request leaves behind.
-/

namespace Resumable

variable {β κ α : Type}

/-- what a coroutine is asked to do -/
inductive Request (κ : Type) where
  | resume
  | yield (deferred : Option κ)
  | access (a : Access)

/-- the rule that is violated, if one is -/
def violation? : Except Violation α → Option Violation
  | .ok _ => none
  | .error v => some v

theorem violation?_ok (a : α) {v : Violation} : violation? (.ok a) ≠ some v := by simp [violation?]

/-- a request to the coroutine of a number: the rule that it violates, and the engine afterwards -/
def Engine.request (e : Engine β κ) (id : Nat) : Request κ → Option Violation × Engine β κ
  | .resume => (violation? (e.enter id).1, (e.enter id).2)
  | .yield d => (violation? (e.on id fun c => c.yield d).1, (e.on id fun c => c.yield d).2)
  | .access a => (violation? (e.on id a.perform).1, (e.on id a.perform).2)

/-- a request to a coroutine on its own -/
def Request.attempt (q : Request κ) (c : Coroutine β κ) : Option Violation × Coroutine β κ :=
  match q with
  | .resume => (violation? c.beginRun.1, c.beginRun.2)
  | .yield d => (violation? (c.yield d).1, (c.yield d).2)
  | .access a => (violation? (a.perform c).1, (a.perform c).2)

namespace Storage

variable {s : Storage} {v : Value} {k : Kind}

/-- exactly empty stacks have no top -/
theorem pop?_eq_none_iff : s.pop? k = none ↔ s.stack k = [] := by
  refine ⟨fun h => ?_, pop?_of_nil⟩
  cases hstack : s.stack k with
  | nil => rfl
  | cons v vs =>
    obtain ⟨t, hpop, -⟩ := pop?_of_cons hstack
    exact absurd (h.symm.trans hpop) (by simp)

theorem push?_eq_none_iff_kind : s.push? v = none ↔ v.kind? = none := by
  rw [push?_eq_none_iff]
  cases v <;> simp [Value.kind?]

end Storage

/-! ## causes -/

/-- the operation uses the innermost staging frame -/
def Access.usesFrame : Access → Bool
  | .stage _ | .peekStaged _ _ | .commitStaging | .endStaging => true
  | _ => false

/-- why a coroutine rejects a request -/
inductive Coroutine.Rejects (c : Coroutine β κ) : Request κ → Violation → Prop
  | terminal (status : c.status = .terminal) : Rejects c .resume (.resumeTerminal c.id)
  | running (status : c.status = .running) : Rejects c .resume (.alreadyRunning c.id)
  /-- the reference that the outermost call left is gone -/
  | bare (status : c.status = .suspended) (refs : c.storage.stack .ref = []) :
    Rejects c .resume (.storageUnderflow .ref)
  | idle (d : Option κ) (pending : c.yieldPending = false) (status : c.status ≠ .running) :
    Rejects c (.yield d) (.notRunning c.id)
  | yielding (d : Option κ) (pending : c.yieldPending = false) (status : c.status = .running)
    (yielding : c.yielding = true) : Rejects c (.yield d) (.doubleYield c.id)
  | push (v : Value) (kind : v.kind? = none) : Rejects c (.access (.push v)) .unstorable
  | pop (k : Kind) (stack : c.storage.stack k = []) : Rejects c (.access (.pop k)) (.storageUnderflow k)
  | discard (companion : c.companionOnTop = true) (refs : c.storage.stack .ref = []) :
    Rejects c (.access .discardCompanion) (.storageUnderflow .ref)
  | frameless (a : Access) (uses : a.usesFrame = true) (floors : c.floors = []) :
    Rejects c (.access a) .noStagingFrame
  | stage (v : Value) (kind : v.kind? = none) (floors : c.floors ≠ []) : Rejects c (.access (.stage v)) .unstorable
  | peek (k : Kind) (depth : Nat) {floor : Depths} {floors : List Depths} (floors_eq : c.floors = floor :: floors)
    (shallow : ((c.staging.above floor).stack k).length ≤ depth) :
    Rejects c (.access (.peekStaged k depth)) (.stagingUnderflow k depth)

namespace Request

variable {c : Coroutine β κ} {q : Request κ} {v : Violation}

/-- a coroutine after it has rejected a request -/
def spoiled (c : Coroutine β κ) : Request κ → Coroutine β κ
  | .access (.pop _) => { c with companionOnTop := false }
  | _ => c

/-- **Each cause** lets the request be rejected -/
theorem attempt_of_rejects (h : c.Rejects q v) : q.attempt c = (some v, spoiled c q) := by
  cases h with
  | terminal status => simp only [attempt, Coroutine.beginRun, status, violation?, spoiled]
  | running status => simp only [attempt, Coroutine.beginRun, status, violation?, spoiled]
  | bare status refs => simp only [attempt, Coroutine.beginRun, status, Storage.pop?_of_nil refs, violation?, spoiled]
  | idle d pending status => simp [attempt, Coroutine.yield, pending, status, violation?, spoiled]
  | yielding d pending status yielding =>
    simp [attempt, Coroutine.yield, pending, status, yielding, violation?, spoiled]
  | push v kind => simp only [attempt, Access.perform, Coroutine.push, Storage.push?_of_kind kind]; rfl
  | pop k stack => simp only [attempt, Access.perform, Coroutine.pop, Storage.pop?_of_nil stack]; rfl
  | discard companion refs =>
    simp only [attempt, Access.perform, Coroutine.discardCompanion, companion, Storage.pop?_of_nil refs]; rfl
  | frameless a uses floors =>
    cases a with
    | stage v => simp only [attempt, Access.perform, Coroutine.stage, floors]; rfl
    | peekStaged k depth => simp only [attempt, Access.perform, Coroutine.peekStaged, floors]; rfl
    | commitStaging => simp only [attempt, Access.perform, Coroutine.commitStaging, floors]; rfl
    | endStaging => simp only [attempt, Access.perform, Coroutine.endStaging, floors]; rfl
    | _ => exact absurd uses Bool.false_ne_true
  | stage v kind floors =>
    obtain ⟨floor, rest, floors⟩ := List.exists_cons_of_ne_nil floors
    simp only [attempt, Access.perform, Coroutine.stage, floors, Storage.push?_of_kind kind]
    rfl
  | peek k depth floors_eq shallow =>
    simp only [attempt, Access.perform, Coroutine.peekStaged, floors_eq, List.getElem?_eq_none shallow]
    rfl

theorem rejects_of_beginRun (h : c.Orderly) (hv : violation? c.beginRun.1 = some v) : c.Rejects .resume v := by
  -- an idle coroutine has its body, so that only its status and its storage count
  have hlent (storage : Storage) (hs : c.status ≠ .running) :
      violation? ({ c with storage } : Coroutine β κ).takeBody.1 = none := by
    cases hbody : c.body with
    | none => exact absurd (h.lent hbody) hs
    | some body => simp only [Coroutine.takeBody, violation?]
  unfold Coroutine.beginRun at hv
  cases hs : c.status with
  | terminal =>
    simp only [hs, violation?] at hv
    exact Option.some.inj hv ▸ .terminal hs
  | running =>
    simp only [hs, violation?] at hv
    exact Option.some.inj hv ▸ .running hs
  | initial =>
    simp only [hs] at hv
    exact absurd ((hlent c.storage (by simp [hs])).symm.trans hv) (by simp)
  | suspended =>
    simp only [hs] at hv
    cases hpop : c.storage.pop? .ref with
    | none =>
      simp only [hpop, violation?] at hv
      exact Option.some.inj hv ▸ .bare hs (Storage.pop?_eq_none_iff.1 hpop)
    | some p =>
      simp only [hpop] at hv
      exact absurd ((hlent p.2 (by simp [hs])).symm.trans hv) (by simp)

theorem rejects_of_yield {d : Option κ} (hv : violation? (c.yield d).1 = some v) : c.Rejects (.yield d) v := by
  unfold Coroutine.yield at hv
  split at hv
  · exact absurd hv (violation?_ok _)
  · rename_i hpending
    have hpending : c.yieldPending = false := Bool.eq_false_iff.2 hpending
    split at hv
    · rename_i hs
      exact Option.some.inj hv ▸ .idle d hpending hs
    · rename_i hs
      split at hv
      · rename_i hy
        exact Option.some.inj hv ▸ .yielding d hpending (not_not.1 hs) hy
      · exact absurd hv (violation?_ok _)

/-- an operation that needs a frame, and has one -/
theorem rejects_of_frame {a : Access} (ha : a.usesFrame = true) (hv : violation? (a.perform c).1 = some v) :
    c.Rejects (.access a) v := by
  cases hfloors : c.floors with
  | nil =>
    obtain ⟨rfl⟩ : some Violation.noStagingFrame = some v :=
      (congrArg Prod.fst (attempt_of_rejects (.frameless a ha hfloors))).symm.trans hv
    exact .frameless a ha hfloors
  | cons floor floors =>
    cases a with
    | stage w =>
      simp only [Access.perform, Coroutine.stage, hfloors] at hv
      cases hpush : c.staging.push? w with
      | none =>
        simp only [hpush] at hv
        exact Option.some.inj hv ▸ .stage w (Storage.push?_eq_none_iff_kind.1 hpush) (by simp [hfloors])
      | some staging =>
        simp only [hpush] at hv
        exact absurd hv (violation?_ok _)
    | peekStaged k depth =>
      simp only [Access.perform, Coroutine.peekStaged, hfloors] at hv
      cases hpeek : ((c.staging.above floor).stack k)[depth]? with
      | none =>
        simp only [hpeek] at hv
        exact Option.some.inj hv ▸ .peek k depth hfloors (List.getElem?_eq_none_iff.1 hpeek)
      | some w =>
        simp only [hpeek] at hv
        exact absurd hv (violation?_ok _)
    | commitStaging =>
      simp only [Access.perform, Coroutine.commitStaging, hfloors] at hv
      exact absurd hv (violation?_ok _)
    | endStaging =>
      simp only [Access.perform, Coroutine.endStaging, hfloors] at hv
      exact absurd hv (violation?_ok _)
    | _ => exact absurd ha Bool.false_ne_true

theorem rejects_of_perform {a : Access} (hv : violation? (a.perform c).1 = some v) : c.Rejects (.access a) v := by
  cases a with
  | push w =>
    simp only [Access.perform, Coroutine.push] at hv
    cases hpush : c.storage.push? w with
    | none =>
      simp only [hpush] at hv
      exact Option.some.inj hv ▸ .push w (Storage.push?_eq_none_iff_kind.1 hpush)
    | some storage =>
      simp only [hpush] at hv
      exact absurd hv (violation?_ok _)
  | pop k =>
    simp only [Access.perform, Coroutine.pop] at hv
    cases hpop : c.storage.pop? k with
    | none =>
      simp only [hpop] at hv
      exact Option.some.inj hv ▸ .pop k (Storage.pop?_eq_none_iff.1 hpop)
    | some p =>
      simp only [hpop] at hv
      exact absurd hv (violation?_ok _)
  | discardCompanion =>
    simp only [Access.perform, Coroutine.discardCompanion] at hv
    cases honTop : c.companionOnTop with
    | false =>
      simp only [honTop, Bool.false_eq_true, if_false] at hv
      exact absurd hv (violation?_ok _)
    | true =>
      simp only [honTop, if_true] at hv
      cases hpop : c.storage.pop? .ref with
      | none =>
        simp only [hpop] at hv
        exact Option.some.inj hv ▸ .discard honTop (Storage.pop?_eq_none_iff.1 hpop)
      | some p =>
        simp only [hpop] at hv
        exact absurd hv (violation?_ok _)
  | stage w => exact rejects_of_frame rfl hv
  | peekStaged k depth => exact rejects_of_frame rfl hv
  | commitStaging => exact rejects_of_frame rfl hv
  | endStaging => exact rejects_of_frame rfl hv
  | _ => exact absurd hv (violation?_ok _)

/-- **There are no other causes**, for an orderly coroutine -/
theorem rejects_of_attempt (h : c.Orderly) (hv : (q.attempt c).1 = some v) : c.Rejects q v := by
  cases q with
  | resume => exact rejects_of_beginRun h hv
  | yield d => exact rejects_of_yield hv
  | access a => exact rejects_of_perform hv

end Request

/-! ## what is left behind -/

namespace Engine

variable {e : Engine β κ} {id : Nat} {c : Coroutine β κ} {q : Request κ} {v : Violation}

/-- what comes of a request is up to the coroutine -/
theorem request_fst (hc : e.get? id = some c) : (e.request id q).1 = (q.attempt c).1 := by
  cases q with
  | resume =>
    simp only [request, enter, on_eq hc, Request.attempt]
    cases c.beginRun.1 <;> rfl
  | yield d => simp only [request, on_eq hc, Request.attempt]
  | access a => simp only [request, on_eq hc, Request.attempt]

/-- a rejected request changes no other coroutine, and not which coroutines run -/
theorem request_rejected (hc : e.get? id = some c) (hv : c.Rejects q v) :
    (e.request id q).2 = e.put (Request.spoiled c q) := by
  have hattempt := congrArg Prod.snd (Request.attempt_of_rejects hv)
  have hviolated := congrArg Prod.fst (Request.attempt_of_rejects hv)
  cases q with
  | resume =>
    rw [Request.attempt] at hattempt hviolated
    simp only [request, enter, on_eq hc]
    cases hrun : c.beginRun.1 with
    | ok body =>
      rw [hrun] at hviolated
      exact absurd hviolated (violation?_ok body)
    | error _ => exact congrArg e.put hattempt
  | yield d =>
    simp only [request, on_eq hc]
    exact congrArg e.put hattempt
  | access a =>
    simp only [request, on_eq hc]
    exact congrArg e.put hattempt

end Engine

namespace Thread

variable {t : Thread β κ} {id : Nat} {c : Coroutine β κ} {q : Request κ} {v : Violation}

/-- **Rejected requests.**  A request to a coroutine is rejected exactly for its causes.  It then leaves all
coroutines as they were, and the list of those that run, exactly unless it was to take a value off a stack while the
reference of a receiver counted as being on top.  Then this mark is gone, and nothing else has changed. -/
theorem rejection_traceless_iff (h : t.Reachable) (hc : t.engine.get? id = some c) (q : Request κ) (v : Violation) :
    ((t.engine.request id q).1 = some v ↔ c.Rejects q v) ∧
    ((t.engine.request id q).1 = some v →
      ((t.engine.request id q).2 = t.engine ↔ ∀ k, q = .access (.pop k) → c.companionOnTop = false) ∧
      ∀ k, q = .access (.pop k) → (t.engine.request id q).2 = t.engine.put { c with companionOnTop := false }) := by
  have hid : c.id = id := h.orderly.engine.numbered id c hc
  have hself : t.engine.put c = t.engine := Engine.put_self (by rw [hid, hc])
  have hrejects : (t.engine.request id q).1 = some v ↔ c.Rejects q v := by
    rw [Engine.request_fst hc]
    exact ⟨Request.rejects_of_attempt (h.orderly.engine.each id c hc), fun hv =>
      congrArg Prod.fst (Request.attempt_of_rejects hv)⟩
  refine ⟨hrejects, fun hv => ?_⟩
  rw [Engine.request_rejected hc (hrejects.1 hv)]
  by_cases hpop : ∃ k, q = .access (.pop k)
  · obtain ⟨k, rfl⟩ := hpop
    refine ⟨⟨fun heq _ _ => ?_, fun hmark => ?_⟩, fun _ _ => rfl⟩
    · have hfound := Engine.get?_put_self (c := { c with companionOnTop := false }) (show t.engine.get? c.id = _ by
        rw [hid, hc])
      rw [show t.engine.put { c with companionOnTop := false } = t.engine from heq] at hfound
      rw [Option.some.inj (hc.symm.trans (hid ▸ hfound))]
    · rw [show Request.spoiled c (.access (.pop k)) = c by rw [Request.spoiled, ← hmark k rfl], hself]
  · have hkept : Request.spoiled c q = c := by
      unfold Request.spoiled
      split
      · exact absurd ⟨_, rfl⟩ hpop
      · rfl
    rw [hkept, hself]
    exact ⟨⟨fun _ k hk => absurd ⟨k, hk⟩ hpop, fun _ => rfl⟩, fun k hk => absurd ⟨k, hk⟩ hpop⟩

/-- a coroutine whose code has left the reference of a receiver -/
def receiving : List (Event Unit Unit) := [.create (), .resume 1, .access (.pushCompanion none)]

/-- Asked for an integer it forgets that the reference is one of a receiver, and does not drop it any more; asked to
run it changes nothing. -/
theorem rejection_traceless_iff_receiving : ∃ t : Thread Unit Unit, ∃ c, fresh.run receiving = some t ∧
    t.engine.get? 1 = some c ∧
    (t.engine.request 1 (.access (.pop .int))).1 = some (.storageUnderflow .int) ∧
    (t.engine.request 1 (.access (.pop .int))).2 = t.engine.put { c with companionOnTop := false } ∧
    (t.engine.request 1 .resume).1 = some (.alreadyRunning 1) ∧ (t.engine.request 1 .resume).2 = t.engine ∧
    c.discardCompanion.2.storage.refs = [] ∧
    { c with companionOnTop := false }.discardCompanion.2.storage.refs = [none] := by
  have hrun : (fresh : Thread Unit Unit).run receiving = some _ := rfl
  have hpop := rejection_traceless_iff ⟨_, hrun⟩ (show Engine.get? _ 1 = some _ from rfl) (.access (.pop .int))
    (.storageUnderflow .int)
  have hresume := rejection_traceless_iff ⟨_, hrun⟩ (show Engine.get? _ 1 = some _ from rfl) .resume (.alreadyRunning 1)
  exact ⟨_, _, hrun, rfl, rfl, (hpop.2 rfl).2 .int rfl, rfl, (hresume.2 rfl).1.2 (by simp), rfl, rfl⟩

/-- It is not true that rejected requests change nothing. -/
theorem not_traceless_pop : ¬ ∀ (t : Thread Unit Unit) id c q v, t.Reachable → t.engine.get? id = some c →
    (t.engine.request id q).1 = some v → (t.engine.request id q).2 = t.engine := by
  intro h
  have hsame := h _ 1 _ (.access (.pop .int)) (.storageUnderflow .int) ⟨receiving, rfl⟩ rfl rfl
  exact absurd (congrArg (fun e : Engine Unit Unit => (e.get? 1).map Coroutine.companionOnTop) hsame) (by decide)

end Thread

end Resumable
