import Resumable.Proofs.Companion
import Resumable.Proofs.Deferral

/-!
# The mark of a companion

A coroutine marks that the reference of a receiver lies on top of its references.  The mark is set with such a
reference, and all that puts values on the storage or takes values off clears it, but for one thing: the beginning of
a run takes the reference off and leaves the mark.  So what the mark says is wrong exactly if that was the last thing
that happened to the storage.

* `Thread.alters`, `Thread.lastAlteration?` : what has happened to the storage of a coroutine last;
* `Thread.companion?` : the reference of a receiver that an event leaves;
* `Thread.LeftOnTop`, `Thread.TakenOff` : the reference lies on top, it was taken off;
* `Thread.Orderly.mark_act` : one event;
* `Thread.leftOnTop_or_takenOff` : any number of events;
* `Thread.companion_mark_iff` : what the mark says, and what dropping a companion takes away.
-/

namespace Resumable

variable {β κ : Type}

/-! ## one coroutine -/

theorem Storage.eq_pushRef_of_pop? {s t : Storage} {v : Value} (h : s.pop? .ref = some (v, t)) :
    ∃ r, s = t.pushRef r := by
  unfold Storage.pop? at h
  dsimp only at h
  split at h
  · exact absurd h (by simp)
  · rename_i r refs hrefs
    obtain ⟨-, rfl⟩ := Prod.mk.inj (Option.some.inj h)
    refine ⟨r, ?_⟩
    show s = { s with refs := r :: refs }
    rw [← hrefs]

theorem Storage.depths_pushRef_ne (s : Storage) (r : Option Ref) : (s.pushRef r).depths ≠ s.depths := by
  intro h
  have hlen : s.refs.length + 1 = s.refs.length := congrArg Depths.refs h
  omega

namespace Coroutine

variable {c : Coroutine β κ}

/-- if the mark is set afterwards, it was set before, and the storage is the same -/
def KeepsMark (c d : Coroutine β κ) : Prop :=
  d.companionOnTop = true → c.companionOnTop = true ∧ d.storage = c.storage

theorem KeepsMark.same {d : Coroutine β κ} (hmark : d.companionOnTop = c.companionOnTop)
    (hstorage : d.storage = c.storage) : c.KeepsMark d := fun h => ⟨hmark ▸ h, hstorage⟩

theorem KeepsMark.cleared {d : Coroutine β κ} (h : d.companionOnTop = false) : c.KeepsMark d :=
  fun hd => absurd hd (by rw [h]; simp)

/-- **An operation** sets the mark only with the reference of a receiver -/
theorem keepsMark_perform {a : Access} (ha : ∀ r, a ≠ .pushCompanion r) (c : Coroutine β κ) :
    c.KeepsMark (a.perform c).2 := by
  cases a with
  | pushCompanion r => exact absurd rfl (ha r)
  | pushState n => exact .cleared rfl
  | popState =>
    show c.KeepsMark c.popState.2
    unfold popState
    split <;> exact .same rfl rfl
  | push v =>
    show c.KeepsMark (c.push v).2
    unfold push
    split
    · exact .cleared rfl
    · exact .same rfl rfl
  | pop k =>
    show c.KeepsMark (c.pop k).2
    unfold pop
    split <;> exact .cleared rfl
  | discardCompanion =>
    show c.KeepsMark c.discardCompanion.2
    unfold discardCompanion
    split
    · split
      · exact .cleared rfl
      · exact .same rfl rfl
    · exact .same rfl rfl
  | beginStaging => exact .same rfl rfl
  | stage v =>
    show c.KeepsMark (c.stage v).2
    unfold stage
    split
    · exact .same rfl rfl
    · split <;> exact .same rfl rfl
  | peekStaged k depth =>
    show c.KeepsMark (c.peekStaged k depth).2
    unfold peekStaged
    split
    · exact .same rfl rfl
    · split <;> exact .same rfl rfl
  | commitStaging =>
    show c.KeepsMark c.commitStaging.2
    unfold commitStaging
    split
    · exact .same rfl rfl
    · exact .cleared rfl
  | endStaging =>
    show c.KeepsMark c.endStaging.2
    unfold endStaging
    split <;> exact .same rfl rfl

/-- a yield sets it exactly if it takes effect, with the coroutine itself -/
theorem keepsMark_yield {d : Option κ} (h : c.takesEffect d = false) : c.KeepsMark (c.yield d).2 := by
  unfold yield
  split
  · exact .same rfl rfl
  · rename_i hpending
    split
    · exact .same rfl rfl
    · rename_i hrunning
      split
      · exact .same rfl rfl
      · rename_i hyielding
        rw [takesEffect_iff.2 ⟨by simpa using hpending, not_not.1 hrunning, by simpa using hyielding⟩] at h
        exact nomatch h

theorem storage_yield {d : Option κ} (h : c.takesEffect d = true) :
    (c.yield d).2.storage = c.storage.pushRef (some c.ref) := by
  obtain ⟨hpending, hrunning, hyielding⟩ := takesEffect_iff.1 h
  unfold yield
  simp [hpending, hrunning, hyielding]

theorem keepsMark_endRun (c : Coroutine β κ) (body : β) (finished : Bool) :
    c.KeepsMark (c.endRun body finished).2 := by
  unfold endRun
  split <;> exact .same rfl rfl

/-- the beginning of a run leaves the mark, and it leaves the storage or takes a reference off -/
theorem beginRun_mark (c : Coroutine β κ) : c.beginRun.2.id = c.id ∧
    c.beginRun.2.companionOnTop = c.companionOnTop ∧ (c.beginRun.2.storage = c.storage ∨
      c.status = .suspended ∧ ∃ r, c.storage = c.beginRun.2.storage.pushRef r) := by
  have htake (d : Coroutine β κ) : d.takeBody.2.id = d.id ∧ d.takeBody.2.companionOnTop = d.companionOnTop ∧
      d.takeBody.2.storage = d.storage := by
    unfold takeBody
    split <;> exact ⟨rfl, rfl, rfl⟩
  unfold beginRun
  split
  · exact ⟨rfl, rfl, .inl rfl⟩
  · exact ⟨rfl, rfl, .inl rfl⟩
  · obtain ⟨hid, hmark, hstorage⟩ := htake c
    exact ⟨hid, hmark, .inl hstorage⟩
  · rename_i hsuspended
    split
    · rename_i v storage hpop
      obtain ⟨hid, hmark, hstorage⟩ := htake { c with storage }
      obtain ⟨r, hr⟩ := Storage.eq_pushRef_of_pop? hpop
      exact ⟨hid, hmark, .inr ⟨hsuspended, r, by rw [hstorage]; exact hr⟩⟩
    · exact ⟨rfl, rfl, .inl rfl⟩

end Coroutine

/-! ## one event -/

namespace Thread

variable {s t u : Thread β κ} {e : Event β κ} {es : List (Event β κ)} {id : Nat} {c : Coroutine β κ}

/-- the reference of a receiver that the event leaves on the storage of a coroutine -/
def companion? (t : Thread β κ) (id : Nat) : Event β κ → Option (Option Ref)
  | .access (.pushCompanion r) => if t.engine.currentId? = some id then some r else none
  | e => (t.effect? id e).map fun _ => some (.coroutine id)

/-- the coroutine when a run of it begins, or is refused -/
theorem Orderly.get?_resume (h : s.Orderly) (hact : s.act (.resume id) = some t) (hc : s.engine.get? id = some c) :
    t.engine.get? id = some c.beginRun.2 := by
  have hon : (s.engine.on id Coroutine.beginRun).2.get? id = some c.beginRun.2 := by
    rw [h.engine.get?_on (fun c => c.beginRun_mark.1) hc, if_pos rfl]
  have hget (active : List Nat) (e : Engine β κ) : ({ e with active } : Engine β κ).get? id = e.get? id := by
    cases id <;> rfl
  cases hrun : s.engine.on id Coroutine.beginRun with
  | mk r e =>
    rw [hrun] at hon
    cases r with
    | error v =>
      simp only [Thread.act, Engine.enter, hrun] at hact
      rw [← Option.some.inj hact]
      exact hon
    | ok body =>
      simp only [Thread.act, Engine.enter, hrun] at hact
      rw [← Option.some.inj hact]
      exact (hget _ e).trans hon

/-- **One event** after which the mark is set: mark and storage are as before, or the event leaves the reference of a
receiver, or it begins a run and takes the reference off. -/
theorem Orderly.mark_act (h : s.Orderly) (hact : s.act e = some t) (hc : s.engine.get? id = some c)
    {d : Coroutine β κ} (hd : t.engine.get? id = some d) (hmark : d.companionOnTop = true) :
    (c.companionOnTop = true ∧ d.storage = c.storage) ∨
    (∃ r, s.companion? id e = some r ∧ d.storage = c.storage.pushRef r) ∨
    (e = .resume id ∧ c.companionOnTop = true ∧ c.status = .suspended ∧ ∃ r, c.storage = d.storage.pushRef r) := by
  obtain ⟨d', hd', hchange⟩ := h.change hact hc
  obtain rfl : d' = d := Option.some.inj (hd'.symm.trans hd)
  cases hchange with
  | same => exact .inl ⟨hmark, rfl⟩
  | access a hcurrent =>
    by_cases ha : ∃ r, a = .pushCompanion r
    · obtain ⟨r, rfl⟩ := ha
      exact .inr (.inl ⟨r, if_pos hcurrent, rfl⟩)
    · exact .inl (Coroutine.keepsMark_perform (fun r heq => ha ⟨r, heq⟩) c hmark)
  | yield deferred =>
    cases heffect : c.takesEffect deferred with
    | false => exact .inl (Coroutine.keepsMark_yield heffect hmark)
    | true =>
      refine .inr (.inl ⟨some (.coroutine id), ?_, ?_⟩)
      · have hsome : s.effect? id (.yield id deferred) = some deferred :=
          if_pos ⟨rfl, by rw [hc]; exact heffect⟩
        show (s.effect? id (.yield id deferred)).map _ = _
        rw [hsome]
        rfl
      · rw [Coroutine.storage_yield heffect, Coroutine.ref, h.engine.numbered id c hc]
  | resume storage idle live =>
    obtain ⟨-, hsame, hstorage⟩ := c.beginRun_mark
    have hd : { c with storage, body := none, status := .running } = c.beginRun.2 :=
      Option.some.inj (hd'.symm.trans (h.get?_resume hact hc))
    rw [← hd] at hsame hstorage
    rcases hstorage with hstorage | ⟨hsuspended, r, hr⟩
    · exact .inl ⟨hsame ▸ hmark, hstorage⟩
    · exact .inr (.inr ⟨rfl, hsame ▸ hmark, hsuspended, r, hr⟩)
  | leave innermost finished => exact .inl (c.keepsMark_endRun _ finished hmark)

/-! ## any number of events -/

/-- the heights of the stacks on which a coroutine keeps its values -/
def heights? (t : Thread β κ) (id : Nat) : Option Depths := (t.engine.get? id).map fun c => c.storage.depths

/-- the event puts something on the storage of a coroutine, or takes something off -/
def alters (id : Nat) (p : Thread β κ × Event β κ) : Bool :=
  (p.1.act p.2).any fun t => t.heights? id ≠ p.1.heights? id

/-- the last event of a history that does -/
def lastAlteration? (id : Nat) (es : List (Event β κ)) : Option (Thread β κ × Event β κ) :=
  ((fresh.trace es).filter (alters id)).getLast?

/-- **What the mark says**: the last thing that happened to the storage was that the reference of a receiver was put on
it, and this lies now on what was there. -/
def LeftOnTop (id : Nat) (es : List (Event β κ)) (c : Coroutine β κ) (below : Storage) : Prop :=
  ∃ s e r b, lastAlteration? id es = some (s, e) ∧ s.companion? id e = some r ∧ s.engine.get? id = some b ∧
    b.storage = below ∧ c.storage = below.pushRef r

/-- the last thing that happened to the storage was that the coroutine was resumed, with the mark set: the reference on
top was taken off, and what lay under it is left -/
def TakenOff (id : Nat) (es : List (Event β κ)) (c : Coroutine β κ) : Prop :=
  ∃ s b r, lastAlteration? id es = some (s, .resume id) ∧ s.engine.get? id = some b ∧ b.companionOnTop = true ∧
    b.status = .suspended ∧ b.storage = c.storage.pushRef r

theorem lastAlteration?_snoc (hrun : fresh.run es = some t) (id : Nat) (e : Event β κ) :
    lastAlteration? id (es ++ [e]) = if alters id (t, e) then some (t, e) else lastAlteration? id es := by
  have htrace : t.trace [e] = [(t, e)] := by
    rw [trace]
    cases t.act e <;> rfl
  unfold lastAlteration?
  rw [trace_append hrun, htrace, List.filter_append]
  cases halters : alters id (t, e) with
  | true => simp [halters]
  | false => simp [halters]

theorem alters_eq (hact : s.act e = some t) {d : Coroutine β κ} (hc : s.engine.get? id = some c)
    (hd : t.engine.get? id = some d) : alters id (s, e) = decide (d.storage.depths ≠ c.storage.depths) := by
  unfold alters heights?
  simp [hact, hc, hd]

theorem run_snoc {s : Thread β κ} (h : s.run (es ++ [e]) = some t) : ∃ u, s.run es = some u ∧ u.act e = some t := by
  induction es generalizing s with
  | nil =>
    obtain ⟨u, hact, hrest⟩ := Option.bind_eq_some_iff.1 h
    obtain rfl := Option.some.inj hrest
    exact ⟨s, rfl, hact⟩
  | cons e' es ih =>
    obtain ⟨s₁, hact, hrest⟩ := Option.bind_eq_some_iff.1 h
    obtain ⟨u, hrun, hu⟩ := ih hrest
    exact ⟨u, by rw [run, hact]; exact hrun, hu⟩

/-- they exclude each other -/
theorem LeftOnTop.not_takenOff {below : Storage} (h : LeftOnTop id es c below) : ¬ TakenOff id es c := by
  rintro ⟨_, _, _, hlast, -⟩
  obtain ⟨s, e, r, _, hlast', hcompanion, -⟩ := h
  obtain ⟨rfl, rfl⟩ := Prod.mk.inj (Option.some.inj (hlast'.symm.trans hlast))
  exact absurd hcompanion (by simp [companion?, effect?])

/-- **Any number of events**: where the mark is set, the reference lies on top, or it was taken off -/
theorem leftOnTop_or_takenOff (hrun : fresh.run es = some t) (hc : t.engine.get? id = some c)
    (hmark : c.companionOnTop = true) : (∃ below, LeftOnTop id es c below) ∨ TakenOff id es c := by
  -- the mark speaks of the last alteration, so the history is taken apart at its end
  induction es using List.reverseRecOn generalizing t c with
  | nil =>
    obtain rfl := Option.some.inj hrun
    exact absurd hc (by cases id <;> simp [fresh, Engine.empty, Engine.get?])
  | append_singleton es e ih =>
    obtain ⟨s, hs, hact⟩ := run_snoc hrun
    have horderly : s.Orderly := orderly_fresh.run hs
    have hlast := lastAlteration?_snoc hs id e
    cases hb : s.engine.get? id with
    | none =>
      obtain ⟨body, rfl⟩ := created hact hb hc
      exact absurd hmark (by simp [Coroutine.create])
    | some b =>
      rw [alters_eq hact hb hc] at hlast
      rcases horderly.mark_act hact hb hc hmark with ⟨hmark', hsame⟩ | ⟨r, hcompanion, hstorage⟩ |
        ⟨rfl, hmark', hsuspended, r, hstorage⟩
      · -- the event is no alteration, and what was true before it still is
        rw [hsame, if_neg (by simp)] at hlast
        rcases ih hs hb hmark' with ⟨below, s', e', r, b', hlast', hcompanion, hb', hbelow, hstorage⟩ |
          ⟨s', b', r, hlast', hb', hset, hsuspended, hstorage⟩
        · exact .inl ⟨below, s', e', r, b', hlast.trans hlast', hcompanion, hb', hbelow, hsame.trans hstorage⟩
        · exact .inr ⟨s', b', r, hlast.trans hlast', hb', hset, hsuspended, hsame ▸ hstorage⟩
      · rw [hstorage, if_pos (by simpa using Storage.depths_pushRef_ne b.storage r)] at hlast
        exact .inl ⟨b.storage, s, e, r, b, hlast, hcompanion, hb, rfl, hstorage⟩
      · rw [hstorage, if_pos (by simpa using (Storage.depths_pushRef_ne c.storage r).symm)] at hlast
        exact .inr ⟨s, b, r, hlast, hb, hmark', hsuspended, hstorage⟩

/-- **The mark of a companion.**  In every history, a coroutine with the mark set has the reference of a receiver on
top of its references, put there by the last event that touched its storage, exactly if it was not taken off by the
beginning of a run.  If it lies there, dropping the companion takes this reference off and nothing else; if the mark is
not set, nothing is dropped. -/
theorem companion_mark_iff (hrun : fresh.run es = some t) (hc : t.engine.get? id = some c) :
    (c.companionOnTop = true → ((∃ below, LeftOnTop id es c below) ↔ ¬ TakenOff id es c)) ∧
    (∀ below, c.companionOnTop = true → LeftOnTop id es c below →
      c.discardCompanion = (.ok (), { c with storage := below, companionOnTop := false })) ∧
    (c.companionOnTop = false → c.discardCompanion = (.ok (), c)) := by
  refine ⟨fun hmark => ⟨fun ⟨below, h⟩ => h.not_takenOff, fun h => ?_⟩, fun below hmark h => ?_, fun hmark => ?_⟩
  · exact (leftOnTop_or_takenOff hrun hc hmark).resolve_right h
  · obtain ⟨_, _, r, _, -, -, -, -, hstorage⟩ := h
    have hpop : c.storage.pop? .ref = some (.ref r, below) := by
      rw [hstorage]
      exact Storage.pop?_pushRef below r
    unfold Coroutine.discardCompanion
    rw [if_pos hmark, hpop]
  · unfold Coroutine.discardCompanion
    rw [hmark]
    rfl

/-! #### a companion that is taken off -/

namespace Marking

/-- a coroutine saves a reference and is asked to suspend -/
def asked : List (Event Unit Unit) := [.create (), .resume 1, .access (.push (.ref (some (.object 7)))), .yield 1 none]

/-- it suspends and is resumed -/
def resumed : List (Event Unit Unit) := asked ++ [.leave true, .resume 1]

/-- what was saved -/
def saved : Storage := Storage.empty.pushRef (some (.object 7))

/-- the coroutine as it unwinds -/
def unwinding : Coroutine Unit Unit :=
  { Coroutine.create 1 () with
    body := none, status := .running, yielding := true, storage := saved.pushRef (some (.coroutine 1))
    companionOnTop := true }

/-- the coroutine when it runs again -/
def again : Coroutine Unit Unit :=
  { Coroutine.create 1 () with
    body := none, status := .running, yieldPending := true, storage := saved, companionOnTop := true }

theorem left_asked : LeftOnTop 1 asked unwinding saved := ⟨_, _, _, _, rfl, rfl, rfl, rfl, rfl⟩

theorem takenOff_resumed : TakenOff 1 resumed again := ⟨_, _, _, rfl, rfl, rfl, rfl, rfl⟩

end Marking

/-- While it unwinds, its own reference is dropped. -/
theorem companion_mark_iff_asked : ∃ t, fresh.run Marking.asked = some t ∧
    t.engine.get? 1 = some Marking.unwinding ∧ LeftOnTop 1 Marking.asked Marking.unwinding Marking.saved ∧
    ¬ TakenOff 1 Marking.asked Marking.unwinding ∧
    Marking.unwinding.discardCompanion.2.storage = Marking.saved := by
  have hrun : fresh.run Marking.asked = some ⟨⟨#[Marking.unwinding], [1]⟩, [.body 1 ()]⟩ := rfl
  have hfound : (⟨#[Marking.unwinding], [1]⟩ : Engine Unit Unit).get? 1 = some Marking.unwinding := rfl
  obtain ⟨hiff, hdiscard, -⟩ := companion_mark_iff hrun hfound
  refine ⟨_, hrun, hfound, Marking.left_asked, (hiff rfl).1 ⟨_, Marking.left_asked⟩, ?_⟩
  rw [hdiscard _ rfl Marking.left_asked]

/-- **When it runs again**, the mark is still set, and dropping the companion takes off what was saved. -/
theorem not_left_resumed : ∃ t, fresh.run Marking.resumed = some t ∧ t.engine.get? 1 = some Marking.again ∧
    Marking.again.companionOnTop = true ∧ (¬ ∃ below, LeftOnTop 1 Marking.resumed Marking.again below) ∧
    Marking.again.storage.refs = [some (.object 7)] ∧
    Marking.again.discardCompanion = (.ok (), { Marking.again with storage := .empty, companionOnTop := false }) := by
  have hrun : fresh.run Marking.resumed = some ⟨⟨#[Marking.again], [1]⟩, [.body 1 ()]⟩ := rfl
  exact ⟨_, hrun, rfl, rfl, fun ⟨_, h⟩ => h.not_takenOff Marking.takenOff_resumed, rfl, rfl⟩

end Thread

end Resumable
