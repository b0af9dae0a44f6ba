import Resumable.Proofs.Hiding
import Resumable.Proofs.Operations

/-!
# Coroutines on a thread

What happens to coroutines on a thread comes in any order: a coroutine is created, resumed or asked to
suspend, or the storage of the innermost one is used.  Only the ends of calls of `resume` follow the
order in which they began.  So a thread is its engine together with the calls of `resume` that are under
way, and it does one event after the other.

* `Thread`, `Event`, `Thread.act` : a thread and what can happen on it;
* `Thread.run`, `Thread.Reachable` : events one after the other;
* `Thread.trace`, `Thread.Resumes` : a call of `resume` with all that happens during it;
* `Coroutine.Orderly`, `Engine.Orderly`, `Thread.Orderly` : the rules that every event keeps;
* `Thread.lifecycle` : they hold whatever happens.
-/

namespace Resumable

variable {β κ : Type}

/-! ## events -/

/-- how far a call of `resume` has come -/
inductive Thread.Level (β : Type) where
  /-- the body of the coroutine runs; it is put back at the end -/
  | body (id : Nat) (body : β)
  /-- the body has unwound, and what its yield deferred runs -/
  | deferred

/-- the number of the coroutine whose body runs -/
def Thread.Level.id? : Thread.Level β → Option Nat
  | .body id _ => some id
  | .deferred => none

/-- the engine, and the calls of `resume` that are under way, the innermost first -/
structure Thread (β κ : Type) where
  engine : Engine β κ
  levels : List (Thread.Level β)

/-- what can happen -/
inductive Event (β κ : Type) where
  | create (body : β)
  /-- an operation of the innermost running coroutine -/
  | access (a : Access)
  /-- some coroutine is asked to suspend -/
  | yield (id : Nat) (deferred : Option κ)
  | resume (id : Nat)
  /-- the innermost body ends; `finished` says that it returned and did not throw -/
  | leave (finished : Bool)
  /-- what was deferred ends, by returning or by throwing -/
  | finish

namespace Thread

/-- a thread on which nothing happened yet -/
def fresh : Thread β κ := ⟨.empty, []⟩

/-- An event.  Only what runs innermost can end. -/
def act (t : Thread β κ) : Event β κ → Option (Thread β κ)
  | .create body => some { t with engine := (t.engine.create body).2 }
  | .access a => some { t with engine := (t.engine.onCurrent a.perform).2 }
  | .yield id deferred => some { t with engine := (t.engine.on id fun c => c.yield deferred).2 }
  | .resume id =>
    match t.engine.enter id with
    | (.ok body, engine) => some ⟨engine, .body id body :: t.levels⟩
    | (.error _, engine) => some { t with engine }
  | .leave finished =>
    match t.levels with
    | .body id body :: levels =>
      match t.engine.leave id body finished with
      | (some _, engine) => some ⟨engine, .deferred :: levels⟩
      | (none, engine) => some ⟨engine, levels⟩
    | _ => none
  | .finish =>
    match t.levels with
    | .deferred :: levels => some { t with levels }
    | _ => none

/-- events one after the other -/
def run (t : Thread β κ) : List (Event β κ) → Option (Thread β κ)
  | [] => some t
  | e :: es => (t.act e).bind fun t => t.run es

/-- the events with the threads on which they happen -/
def trace (t : Thread β κ) : List (Event β κ) → List (Thread β κ × Event β κ)
  | [] => []
  | e :: es => (t, e) :: ((t.act e).elim [] fun t => t.trace es)

/-- some events lead there -/
def Reachable (t : Thread β κ) : Prop := ∃ es, fresh.run es = some t

/-- A call of `resume` and what happened since: everything above the calls that were under way -/
structure Resumes (s : Thread β κ) (id : Nat) (es : List (Event β κ)) (t : Thread β κ) : Prop where
  run : s.run (.resume id :: es) = some t
  above : ∀ p ∈ (s.trace (.resume id :: es)).tail, s.levels.length < p.1.levels.length

/-- the call of `resume` has returned: the calls that were under way are all that is under way -/
structure Returns (s : Thread β κ) (id : Nat) (es : List (Event β κ)) (t : Thread β κ) : Prop
    extends s.Resumes id es t where
  back : t.levels = s.levels

end Thread

/-! ## the rules for a coroutine -/

namespace Coroutine

/-- what a coroutine keeps to on its own -/
structure Orderly (c : Coroutine β κ) : Prop where
  yielding : c.yielding = true → c.status = .running
  deferred : c.deferred.isSome → c.yielding = true
  lent : c.body = none → c.status = .running

variable {c : Coroutine β κ}

theorem orderly_create (id : Nat) (body : β) : (create id body : Coroutine β κ).Orderly :=
  ⟨fun h => absurd h (by simp [create]), fun h => absurd h (by simp [create]),
    fun h => absurd h (by simp [create])⟩

/-- it changes none of what the rules are about -/
structure Same (c d : Coroutine β κ) : Prop where
  id : d.id = c.id
  body : d.body = c.body
  status : d.status = c.status
  yielding : d.yielding = c.yielding
  deferred : d.deferred = c.deferred

theorem Same.orderly {d : Coroutine β κ} (h : c.Same d) (hc : c.Orderly) : d.Orderly := by
  refine ⟨?_, ?_, ?_⟩
  · rw [h.yielding, h.status]
    exact hc.yielding
  · rw [h.deferred, h.yielding]
    exact hc.deferred
  · rw [h.body, h.status]
    exact hc.lent

/-- it differs in saved positions and values only -/
def Resaved (c d : Coroutine β κ) : Prop := ∃ states storage staging floors companionOnTop,
  d = { c with states, storage, staging, floors, companionOnTop }

/-- operations of storage change nothing but storage -/
theorem resaved_perform (a : Access) (c : Coroutine β κ) : c.Resaved (a.perform c).2 := by
  cases a with
  | popState =>
    show c.Resaved c.popState.2
    unfold popState
    split <;> exact ⟨_, _, _, _, _, rfl⟩
  | push v =>
    show c.Resaved (c.push v).2
    unfold push
    split <;> exact ⟨_, _, _, _, _, rfl⟩
  | pop k =>
    show c.Resaved (c.pop k).2
    unfold pop
    split <;> exact ⟨_, _, _, _, _, rfl⟩
  | discardCompanion =>
    show c.Resaved c.discardCompanion.2
    unfold discardCompanion
    split
    · split <;> exact ⟨_, _, _, _, _, rfl⟩
    · exact ⟨_, _, _, _, _, rfl⟩
  | stage v =>
    show c.Resaved (c.stage v).2
    unfold stage
    split
    · exact ⟨_, _, _, _, _, rfl⟩
    · split <;> exact ⟨_, _, _, _, _, rfl⟩
  | peekStaged k depth =>
    show c.Resaved (c.peekStaged k depth).2
    unfold peekStaged
    split
    · exact ⟨_, _, _, _, _, rfl⟩
    · split <;> exact ⟨_, _, _, _, _, rfl⟩
  | commitStaging =>
    show c.Resaved c.commitStaging.2
    unfold commitStaging
    split <;> exact ⟨_, _, _, _, _, rfl⟩
  | endStaging =>
    show c.Resaved c.endStaging.2
    unfold endStaging
    split <;> exact ⟨_, _, _, _, _, rfl⟩
  | _ => exact ⟨_, _, _, _, _, rfl⟩

theorem same_perform (a : Access) (c : Coroutine β κ) : c.Same (a.perform c).2 := by
  obtain ⟨_, _, _, _, _, h⟩ := resaved_perform a c
  rw [h]
  exact ⟨rfl, rfl, rfl, rfl, rfl⟩

/-- a call of yield is passed by, or it is refused, or it begins to suspend a running coroutine -/
theorem yield_cases (c : Coroutine β κ) (deferred : Option κ) :
    (c.yield deferred).2 = { c with yieldPending := false } ∨ (c.yield deferred).2 = c ∨
      c.status = .running ∧ (c.yield deferred).2 = { c with
        yielding := true, deferred, storage := c.storage.pushRef (some c.ref)
        companionOnTop := true } := by
  unfold yield
  split
  · exact .inl rfl
  · split
    · exact .inr (.inl rfl)
    · rename_i hstatus
      split
      · exact .inr (.inl rfl)
      · exact .inr (.inr ⟨not_not.1 hstatus, rfl⟩)

theorem id_yield (c : Coroutine β κ) (deferred : Option κ) : (c.yield deferred).2.id = c.id := by
  rcases c.yield_cases deferred with h | h | ⟨-, h⟩ <;> rw [h]

theorem status_yield (c : Coroutine β κ) (deferred : Option κ) :
    (c.yield deferred).2.status = c.status := by
  rcases c.yield_cases deferred with h | h | ⟨-, h⟩ <;> rw [h]

theorem Orderly.yield (h : c.Orderly) (deferred : Option κ) : (c.yield deferred).2.Orderly := by
  rcases c.yield_cases deferred with heq | heq | ⟨hrunning, heq⟩
  · rw [heq]
    exact ⟨h.yielding, h.deferred, h.lent⟩
  · rw [heq]
    exact h
  · rw [heq]
    exact ⟨fun _ => hrunning, fun _ => rfl, fun _ => hrunning⟩

/-- A run of an orderly coroutine begins with its body, or it is refused and nothing changes; it is
refused as running already only if the coroutine runs. -/
theorem Orderly.beginRun (h : c.Orderly) :
    (∃ body storage, c.status ≠ .running ∧ c.status ≠ .terminal ∧ c.beginRun =
      (.ok body, { c with storage, body := none, status := .running })) ∨
    ∃ v, c.beginRun = (.error v, c) ∧ ∀ n, v = .alreadyRunning n → c.status = .running := by
  have htake (hs : c.status ≠ .running) (storage : Storage) : ∃ body,
      ({ c with storage } : Coroutine β κ).takeBody =
        (.ok body, { c with storage, body := none, status := .running }) := by
    cases hb : c.body with
    | none => exact absurd (h.lent hb) hs
    | some body => exact ⟨body, rfl⟩
  cases hs : c.status with
  | terminal =>
    refine .inr ⟨.resumeTerminal c.id, ?_, fun _ h => absurd h (by simp)⟩
    simp only [Coroutine.beginRun, hs]
  | running =>
    refine .inr ⟨.alreadyRunning c.id, ?_, fun _ _ => rfl⟩
    simp only [Coroutine.beginRun, hs]
  | initial =>
    obtain ⟨body, heq⟩ := htake (by rw [hs]; simp) c.storage
    refine .inl ⟨body, c.storage, by simp, by simp, ?_⟩
    simp only [Coroutine.beginRun, hs]
    exact heq
  | suspended =>
    cases hpop : c.storage.pop? .ref with
    | none =>
      refine .inr ⟨.storageUnderflow .ref, ?_, fun _ h => absurd h (by simp)⟩
      simp only [Coroutine.beginRun, hs, hpop]
    | some p =>
      obtain ⟨r, storage⟩ := p
      obtain ⟨body, heq⟩ := htake (by rw [hs]; simp) storage
      refine .inl ⟨body, storage, by simp, by simp, ?_⟩
      simp only [Coroutine.beginRun, hs, hpop]
      exact heq

/-- a run ends with the body put back, and with nothing left of a yield -/
theorem endRun_spec (c : Coroutine β κ) (body : β) (finished : Bool) :
    (c.endRun body finished).2.id = c.id ∧ (c.endRun body finished).2.status ≠ .running ∧
      (c.endRun body finished).2.Orderly := by
  unfold endRun
  split
  · exact ⟨rfl, by simp, fun h => absurd h (by simp), fun h => absurd h (by simp),
      fun h => absurd h (by simp)⟩
  · exact ⟨rfl, by simp, fun h => absurd h (by simp), fun h => absurd h (by simp),
      fun h => absurd h (by simp)⟩

end Coroutine

/-! ## the rules for all coroutines -/

namespace Engine

/-- the running coroutines are those that are listed, each once, and each coroutine is orderly -/
structure Orderly (e : Engine β κ) : Prop where
  numbered : e.Numbered
  each : ∀ id c, e.get? id = some c → c.Orderly
  running : ∀ id c, e.get? id = some c → (c.status = .running ↔ id ∈ e.active)
  once : e.active.Nodup
  found : ∀ id ∈ e.active, ∃ c, e.get? id = some c

/-- the coroutine has terminated -/
def Ended (e : Engine β κ) (id : Nat) : Prop := ∃ c, e.get? id = some c ∧ c.status = .terminal

variable {α : Type} {e : Engine β κ} {id n : Nat} {c d : Coroutine β κ}

theorem orderly_empty : (empty : Engine β κ).Orderly := by
  have hnone (id : Nat) : (empty : Engine β κ).get? id = none := by cases id <;> rfl
  refine ⟨?_, ?_, ?_, List.nodup_nil, ?_⟩
  · exact fun n c hc => absurd hc (by simp [hnone])
  · exact fun n c hc => absurd hc (by simp [hnone])
  · exact fun n c hc => absurd hc (by simp [hnone])
  · exact fun id hid => absurd hid (by simp [empty])

/-- what is found once a coroutine is put in its place -/
theorem get?_put_cases (hd : e.get? d.id = some c) {b : Coroutine β κ}
    (h : (e.put d).get? n = some b) : n = d.id ∧ b = d ∨ n ≠ d.id ∧ e.get? n = some b := by
  by_cases hn : n = d.id
  · subst hn
    rw [get?_put_self hd] at h
    exact .inl ⟨rfl, (Option.some.inj h).symm⟩
  · rw [get?_put_of_ne (pos_of_get? hd) hn] at h
    exact .inr ⟨hn, h⟩

theorem on_eq (hc : e.get? id = some c) (op : Coroutine β κ → Coroutine.Outcome β κ α) :
    e.on id op = ((op c).1, e.put (op c).2) := by
  unfold on
  rw [hc]

/-- a coroutine put back with the list of those that run -/
theorem Orderly.put_active (h : e.Orderly) {active : List Nat} (hc : e.get? id = some c)
    (hid : d.id = id) (hd : d.Orderly) (hrunning : d.status = .running ↔ id ∈ active)
    (hothers : ∀ n, n ≠ id → (n ∈ active ↔ n ∈ e.active)) (honce : active.Nodup) :
    Orderly { e.put d with active } := by
  have hfound : e.get? d.id = some c := by rw [hid, hc]
  have hget (n : Nat) : ({ e.put d with active } : Engine β κ).get? n = (e.put d).get? n := by
    cases n <;> rfl
  refine ⟨fun n b hb => ?_, fun n b hb => ?_, fun n b hb => ?_, honce, fun n hn => ?_⟩
  · exact h.numbered.put d (pos_of_get? hfound) n b (by rw [← hget]; exact hb)
  · rw [hget] at hb
    rcases get?_put_cases hfound hb with ⟨-, rfl⟩ | ⟨-, hold⟩
    · exact hd
    · exact h.each n b hold
  · rw [hget] at hb
    rcases get?_put_cases hfound hb with ⟨rfl, rfl⟩ | ⟨hne, hold⟩
    · rw [hid]
      exact hrunning
    · rw [h.running n b hold]
      exact (hothers n (by rw [← hid]; exact hne)).symm
  · rw [hget]
    by_cases hne : n = id
    · exact ⟨d, by rw [hne, ← hid]; exact get?_put_self hfound⟩
    · obtain ⟨b, hb⟩ := h.found n ((hothers n hne).1 hn)
      exact ⟨b, by rw [get?_put_of_ne (pos_of_get? hfound) (by rw [hid]; exact hne), hb]⟩

/-- an operation that does not touch numbers and statuses -/
theorem Orderly.on (h : e.Orderly) (id : Nat) {op : Coroutine β κ → Coroutine.Outcome β κ α}
    (hid : ∀ c, (op c).2.id = c.id) (hstatus : ∀ c, (op c).2.status = c.status)
    (horderly : ∀ c, c.Orderly → (op c).2.Orderly) : (e.on id op).2.Orderly := by
  cases hc : e.get? id with
  | none =>
    unfold Engine.on
    rw [hc]
    exact h
  | some c =>
    rw [on_eq hc]
    have hstays : (op c).2.status = .running ↔ id ∈ e.active := by
      rw [hstatus]
      exact h.running id c hc
    exact h.put_active hc (by rw [hid, h.numbered id c hc]) (horderly c (h.each id c hc)) hstays
      (fun _ _ => Iff.rfl) h.once

theorem le_size_of_get? (h : e.get? id = some c) : id ≤ e.coroutines.size := by
  have hpos := pos_of_get? h
  rw [get?_of_pos hpos] at h
  have hlt := (Array.getElem?_eq_some_iff.1 h).1
  omega

theorem get?_create_of_some (h : e.get? id = some c) (body : β) :
    (e.create body).2.get? id = some c := by
  have hle := le_size_of_get? h
  rw [get?_create, if_neg (by omega), h]

theorem Orderly.create (h : e.Orderly) (body : β) : (e.create body).2.Orderly := by
  have hfound (n : Nat) (hn : n ∈ e.active) : n ≤ e.coroutines.size := by
    obtain ⟨c, hc⟩ := h.found n hn
    exact le_size_of_get? hc
  refine ⟨h.numbered.create body, fun n c hc => ?_, fun n c hc => ?_, h.once, fun n hn => ?_⟩
  · rw [get?_create] at hc
    split at hc
    · rw [← Option.some.inj hc]
      exact Coroutine.orderly_create _ body
    · exact h.each n c hc
  · rw [get?_create] at hc
    split at hc
    · rename_i hnew
      rw [← Option.some.inj hc]
      refine ⟨fun hs => absurd hs (by simp [Coroutine.create]), fun hn => ?_⟩
      have hle := hfound n hn
      omega
    · exact h.running n c hc
  · obtain ⟨c, hc⟩ := h.found n hn
    exact ⟨c, get?_create_of_some hc body⟩

/-- A coroutine that may be resumed runs innermost with its body lent out.  Any other call is refused
and changes nothing, and only a coroutine that runs is refused as running already. -/
theorem Orderly.enter_cases (h : e.Orderly) (id : Nat) :
    (∃ v, e.enter id = (.error v, e) ∧ ∀ n, v = .alreadyRunning n → id ∈ e.active) ∨
    ∃ c body storage, e.get? id = some c ∧ id ∉ e.active ∧ c.status ≠ .terminal ∧ e.enter id =
      (.ok body, { e.put { c with storage, body := none, status := .running } with
        active := id :: e.active }) := by
  unfold enter
  cases hc : e.get? id with
  | none =>
    have hon : e.on id Coroutine.beginRun = (.error .noActiveCoroutine, e) := by
      unfold Engine.on
      rw [hc]
    rw [hon]
    exact .inl ⟨_, rfl, fun _ h => absurd h (by simp)⟩
  | some c =>
    have hid := h.numbered id c hc
    rw [on_eq hc]
    rcases (h.each id c hc).beginRun with ⟨body, storage, hidle, hlive, heq⟩ | ⟨v, heq, hv⟩
    · rw [heq]
      exact .inr ⟨c, body, storage, rfl, fun hn => hidle ((h.running id c hc).2 hn), hlive, rfl⟩
    · rw [heq]
      refine .inl ⟨v, ?_, fun n hn => (h.running id c hc).1 (hv n hn)⟩
      rw [put_self (by rw [hid, hc])]

theorem Orderly.enter (h : e.Orderly) (id : Nat) : (e.enter id).2.Orderly := by
  rcases h.enter_cases id with ⟨v, heq, -⟩ | ⟨c, body, storage, hc, hid, -, heq⟩
  · rw [heq]
    exact h
  · rw [heq]
    refine h.put_active hc (h.numbered id c hc) ?_ (by simp) (fun n hn => by simp [hn])
      (List.nodup_cons.2 ⟨hid, h.once⟩)
    have horderly := h.each id c hc
    exact ⟨fun _ => rfl, horderly.deferred, fun _ => rfl⟩

/-- the innermost coroutine ends its run -/
theorem leave_eq {rest : List Nat} (hactive : e.active = id :: rest) (hc : e.get? id = some c)
    (body : β) (finished : Bool) : e.leave id body finished = ((c.endRun body finished).1,
      { e.put (c.endRun body finished).2 with active := rest }) := by
  have hget : ({ e with active := rest } : Engine β κ).get? id = some c := by
    rw [← hc]
    cases id <;> rfl
  unfold leave
  simp only [hactive, List.tail_cons, hget]
  rfl

theorem Orderly.leave (h : e.Orderly) {rest : List Nat} (hactive : e.active = id :: rest)
    (body : β) (finished : Bool) : (e.leave id body finished).2.Orderly := by
  obtain ⟨c, hc⟩ := h.found id (by rw [hactive]; exact List.mem_cons_self)
  obtain ⟨hid, hstatus, horderly⟩ := c.endRun_spec body finished
  have honce := h.once
  rw [hactive, List.nodup_cons] at honce
  rw [leave_eq hactive hc]
  refine h.put_active hc (by rw [hid, h.numbered id c hc]) horderly ?_ (fun n hn => ?_) honce.2
  · exact ⟨fun hs => absurd hs hstatus, fun hn => absurd hn honce.1⟩
  · rw [hactive, List.mem_cons]
    exact ⟨.inr, fun hmem => hmem.resolve_left hn⟩

/-- a coroutine put back, with whatever list of those that run, takes the place of no other one -/
theorem get?_put_if {b : Coroutine β κ} (hb : e.get? id = some b) (hid : d.id = id)
    (hc : e.get? n = some c) (active : List Nat) :
    ({ e.put d with active } : Engine β κ).get? n = some (if n = id then d else c) := by
  have hget : ({ e.put d with active } : Engine β κ).get? n = (e.put d).get? n := by cases n <;> rfl
  have hfound : e.get? d.id = some b := by rw [hid, hb]
  rw [hget]
  by_cases hn : n = id
  · have hput := get?_put_self hfound
    rw [hid, ← hn] at hput
    rw [if_pos hn, hput]
  · rw [if_neg hn, get?_put_of_ne (pos_of_get? hfound) (by rw [hid]; exact hn), hc]

/-- an operation of a coroutine changes no other one -/
theorem Orderly.get?_on (h : e.Orderly) {op : Coroutine β κ → Coroutine.Outcome β κ α}
    (hop : ∀ c, (op c).2.id = c.id) (hc : e.get? n = some c) :
    (e.on id op).2.get? n = some (if n = id then (op c).2 else c) := by
  cases hb : e.get? id with
  | none =>
    have hn : n ≠ id := fun hn => absurd hc (by rw [hn, hb]; simp)
    unfold Engine.on
    rw [hb, if_neg hn]
    exact hc
  | some b =>
    rw [on_eq hb]
    refine (get?_put_if hb (by rw [hop, h.numbered id b hb]) hc e.active).trans ?_
    by_cases hn : n = id
    · rw [if_pos hn, if_pos hn, Option.some.inj (hb.symm.trans (hn ▸ hc))]
    · rw [if_neg hn, if_neg hn]

end Engine

/-! ## the rules for a thread -/

namespace Thread

/-- the engine is orderly, and the running coroutines are those whose bodies are under way -/
structure Orderly (t : Thread β κ) : Prop where
  engine : t.engine.Orderly
  active : t.engine.active = t.levels.filterMap Level.id?

variable {s t : Thread β κ} {e : Event β κ} {es : List (Event β κ)} {n : Nat} {c : Coroutine β κ}

theorem orderly_fresh : (fresh : Thread β κ).Orderly := ⟨Engine.orderly_empty, rfl⟩

/-- the innermost coroutine is found -/
theorem Orderly.innermost (h : s.Orderly) {id : Nat} {body : β} {levels : List (Level β)}
    (hlevels : s.levels = .body id body :: levels) :
    s.engine.active = id :: levels.filterMap Level.id? ∧ ∃ c, s.engine.get? id = some c := by
  have hactive := h.active
  rw [hlevels] at hactive
  exact ⟨hactive, h.engine.found id (by rw [hactive]; exact List.mem_cons_self)⟩

/-- what an end of a body leaves to run -/
theorem act_leave {id : Nat} {body : β} {levels : List (Level β)} {finished : Bool}
    (hlevels : s.levels = .body id body :: levels) (h : s.act (.leave finished) = some t) :
    t.engine = (s.engine.leave id body finished).2 ∧
      (t.levels = levels ∨ t.levels = .deferred :: levels) := by
  simp only [act, hlevels] at h
  split at h
  · rename_i heq
    rw [heq, ← Option.some.inj h]
    exact ⟨rfl, .inr rfl⟩
  · rename_i heq
    rw [heq, ← Option.some.inj h]
    exact ⟨rfl, .inl rfl⟩

/-- **One event** keeps the rules -/
theorem Orderly.act (h : s.Orderly) (hact : s.act e = some t) : t.Orderly := by
  cases e with
  | create body =>
    rw [← Option.some.inj hact]
    exact ⟨h.engine.create body, h.active⟩
  | access a =>
    rw [← Option.some.inj hact]
    unfold Engine.onCurrent
    split
    · rename_i id hid
      refine ⟨h.engine.on id ?_ ?_ ?_, (Engine.active_on _ _ _).trans h.active⟩
      · exact fun c => (Coroutine.same_perform a c).id
      · exact fun c => (Coroutine.same_perform a c).status
      · exact fun c hc => (Coroutine.same_perform a c).orderly hc
    · exact h
  | yield id deferred =>
    rw [← Option.some.inj hact]
    refine ⟨h.engine.on id ?_ ?_ ?_, (Engine.active_on _ _ _).trans h.active⟩
    · exact fun c => c.id_yield deferred
    · exact fun c => c.status_yield deferred
    · exact fun c hc => hc.yield deferred
  | resume id =>
    have horderly := h.engine.enter id
    rcases h.engine.enter_cases id with ⟨v, heq, -⟩ | ⟨c, body, storage, -, -, -, heq⟩
    · simp only [Thread.act, heq] at hact
      rw [← Option.some.inj hact]
      exact h
    · rw [heq] at horderly
      simp only [Thread.act, heq] at hact
      rw [← Option.some.inj hact]
      exact ⟨horderly, congrArg (id :: ·) h.active⟩
  | leave finished =>
    cases hlevels : s.levels with
    | nil => exact absurd hact (by simp [Thread.act, hlevels])
    | cons l levels =>
      cases l with
      | deferred => exact absurd hact (by simp [Thread.act, hlevels])
      | body id body =>
        obtain ⟨hactive, c, hc⟩ := h.innermost hlevels
        obtain ⟨hengine, hrest⟩ := act_leave hlevels hact
        refine ⟨by rw [hengine]; exact h.engine.leave hactive body finished, ?_⟩
        rw [hengine, Engine.leave_eq hactive hc]
        rcases hrest with hrest | hrest
        · rw [hrest]
        · rw [hrest]
          rfl
  | finish =>
    cases hlevels : s.levels with
    | nil => exact absurd hact (by simp [Thread.act, hlevels])
    | cons l levels =>
      cases l with
      | body id body => exact absurd hact (by simp [Thread.act, hlevels])
      | deferred =>
        simp only [Thread.act, hlevels] at hact
        rw [← Option.some.inj hact]
        have hactive := h.active
        rw [hlevels] at hactive
        exact ⟨h.engine, hactive⟩

theorem Orderly.run (h : s.Orderly) (hrun : s.run es = some t) : t.Orderly := by
  induction es generalizing s with
  | nil =>
    rw [← Option.some.inj hrun]
    exact h
  | cons e es ih =>
    obtain ⟨s₁, hact, hrest⟩ := Option.bind_eq_some_iff.1 hrun
    exact ih (h.act hact) hrest

theorem Reachable.orderly (h : s.Reachable) : s.Orderly := by
  obtain ⟨es, hrun⟩ := h
  exact orderly_fresh.run hrun

/-! ## what an event changes -/

/-- what an event can make of the coroutine of a number -/
inductive Change (s : Thread β κ) (n : Nat) (c : Coroutine β κ) : Event β κ → Coroutine β κ → Prop
  | same (e : Event β κ) : Change s n c e c
  | access (a : Access) (current : s.engine.currentId? = some n) :
    Change s n c (.access a) (a.perform c).2
  | yield (deferred : Option κ) : Change s n c (.yield n deferred) (c.yield deferred).2
  | resume (storage : Storage) (idle : n ∉ s.engine.active) (live : c.status ≠ .terminal) :
    Change s n c (.resume n) { c with storage, body := none, status := .running }
  | leave {body : β} {levels : List (Level β)} (innermost : s.levels = .body n body :: levels)
    (finished : Bool) : Change s n c (.leave finished) (c.endRun body finished).2

/-- **What an event changes**: no coroutine is lost, and each event changes at most one -/
theorem Orderly.change (h : s.Orderly) (hact : s.act e = some t) (hc : s.engine.get? n = some c) :
    ∃ c', t.engine.get? n = some c' ∧ s.Change n c e c' := by
  cases e with
  | create body =>
    rw [← Option.some.inj hact]
    exact ⟨c, Engine.get?_create_of_some hc body, .same _⟩
  | access a =>
    rw [← Option.some.inj hact]
    unfold Engine.onCurrent
    split
    · rename_i id hid
      refine ⟨_, h.engine.get?_on (fun c => (Coroutine.same_perform a c).id) hc, ?_⟩
      split
      · rename_i hn
        exact .access a (by rw [hid, hn])
      · exact .same _
    · exact ⟨c, hc, .same _⟩
  | yield id deferred =>
    rw [← Option.some.inj hact]
    refine ⟨_, h.engine.get?_on (fun c => c.id_yield deferred) hc, ?_⟩
    split
    · rename_i hn
      subst hn
      exact .yield deferred
    · exact .same _
  | resume id =>
    rcases h.engine.enter_cases id with ⟨v, heq, -⟩ | ⟨b, body, storage, hb, hidle, hlive, heq⟩
    · simp only [Thread.act, heq] at hact
      rw [← Option.some.inj hact]
      exact ⟨c, hc, .same _⟩
    · simp only [Thread.act, heq] at hact
      rw [← Option.some.inj hact]
      have hget := Engine.get?_put_if (d := { b with storage, body := none, status := .running }) hb
        (h.engine.numbered id b hb) hc (id :: s.engine.active)
      refine ⟨_, hget, ?_⟩
      split
      · rename_i hn
        subst hn
        obtain rfl := Option.some.inj (hb.symm.trans hc)
        exact .resume storage hidle hlive
      · exact .same _
  | leave finished =>
    cases hlevels : s.levels with
    | nil => exact absurd hact (by simp [Thread.act, hlevels])
    | cons l levels =>
      cases l with
      | deferred => exact absurd hact (by simp [Thread.act, hlevels])
      | body id body =>
        obtain ⟨hactive, b, hb⟩ := h.innermost hlevels
        have hid := (b.endRun_spec body finished).1.trans (h.engine.numbered id b hb)
        rw [(act_leave hlevels hact).1, Engine.leave_eq hactive hb]
        refine ⟨_, Engine.get?_put_if hb hid hc _, ?_⟩
        split
        · rename_i hn
          subst hn
          obtain rfl := Option.some.inj (hb.symm.trans hc)
          exact .leave hlevels finished
        · exact .same _
  | finish =>
    cases hlevels : s.levels with
    | nil => exact absurd hact (by simp [Thread.act, hlevels])
    | cons l levels =>
      cases l with
      | body id body => exact absurd hact (by simp [Thread.act, hlevels])
      | deferred =>
        simp only [Thread.act, hlevels] at hact
        rw [← Option.some.inj hact]
        exact ⟨c, hc, .same _⟩

/-- a coroutine that has terminated stays so -/
theorem Orderly.ended_act (h : s.Orderly) (hact : s.act e = some t) (hn : s.engine.Ended n) :
    t.engine.Ended n := by
  obtain ⟨c, hc, hs⟩ := hn
  obtain ⟨c', hc', hchange⟩ := h.change hact hc
  refine ⟨c', hc', ?_⟩
  cases hchange with
  | same => exact hs
  | access a _ => exact (Coroutine.same_perform a c).status.trans hs
  | yield deferred => exact (c.status_yield deferred).trans hs
  | resume storage _ hlive => exact absurd hs hlive
  | leave hlevels finished =>
    have hmem : n ∈ s.engine.active := by
      rw [(h.innermost hlevels).1]
      exact List.mem_cons_self
    exact absurd ((h.engine.running n c hc).2 hmem) (by rw [hs]; simp)

theorem Orderly.ended_run (h : s.Orderly) (hrun : s.run es = some t) (hn : s.engine.Ended n) :
    t.engine.Ended n := by
  induction es generalizing s with
  | nil =>
    rw [← Option.some.inj hrun]
    exact hn
  | cons e es ih =>
    obtain ⟨s₁, hact, hrest⟩ := Option.bind_eq_some_iff.1 hrun
    exact ih (h.act hact) hrest (h.ended_act hact hn)

/-! ## the life of coroutines -/

/-- **The life of coroutines.**  Wherever events can lead, the running coroutines are those that are
listed, each once; one that is being suspended runs, one with something deferred is being suspended, and
one without its body runs, so that only a coroutine that runs is refused as running already.  One that
has terminated stays so, and a call of `resume`, however it ends, leaves the list as it was. -/
theorem lifecycle (h : s.Reachable) :
    s.engine.Orderly ∧
    (∀ id n, (s.engine.enter id).1 = .error (.alreadyRunning n) → id ∈ s.engine.active) ∧
    (∀ es t id, s.run es = some t → s.engine.Ended id → t.engine.Ended id) ∧
    ∀ id es t, s.Returns id es t → t.engine.active = s.engine.active := by
  have horderly := h.orderly
  refine ⟨horderly.engine, fun id n hn => ?_, fun es t id hrun => horderly.ended_run hrun,
    fun id es t hreturns => ?_⟩
  · rcases horderly.engine.enter_cases id with ⟨v, heq, hv⟩ | ⟨c, body, storage, -, -, -, heq⟩
    · rw [heq] at hn
      exact hv n (Except.error.inj hn)
    · rw [heq] at hn
      exact absurd hn (by simp)
  · rw [(horderly.run hreturns.run).active, hreturns.back, horderly.active]

/-- a coroutine runs and another one was created -/
def resumer : Thread Unit Unit where
  engine := ⟨#[{ Coroutine.create 1 () with body := none, status := .running }, .create 2 ()], [1]⟩
  levels := [.body 1 ()]

theorem reachable_resumer : resumer.Reachable := ⟨[.create (), .create (), .resume 1], rfl⟩

/-- The other coroutine suspends, and what it deferred resumes it again and tries to resume the first one. -/
def excursion : List (Event Unit Unit) :=
  [.access (.push (.int 7)), .yield 2 (some ()), .leave true, .resume 2, .resume 1, .leave false, .finish]

theorem lifecycle_resumer : resumer.Reachable ∧ resumer.engine.Orderly ∧ ∃ t,
    resumer.Returns 2 excursion t ∧ t.engine.active = [1] ∧ t.engine.Ended 2 := by
  obtain ⟨horderly, -, -, hback⟩ := lifecycle reachable_resumer
  have hreturns : resumer.Returns 2 excursion _ := ⟨⟨rfl, by decide⟩, rfl⟩
  exact ⟨reachable_resumer, horderly, _, hreturns, hback 2 excursion _ hreturns, _, rfl, rfl⟩

end Thread
end Resumable
