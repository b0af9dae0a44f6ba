import Mathlib.Data.List.ReduceOption
import Resumable.Proofs.MachineThread

/-!
# What yields defer

A yield that takes effect may name what is to run once the body has unwound.  A coroutine has one place for
it, and what runs there may resume the coroutine again, which may yield once more.  Still nothing is lost and
nothing runs twice: in a run of the body at most one yield takes effect, what it deferred starts when the run
ends, and whatever starts was deferred in the run that ends.

* `Coroutine.takesEffect`, `Thread.effect?`, `Thread.starts?` : a yield takes effect, something deferred starts;
* `Thread.Hosts` : a call of `resume` whose body runs;
* `Thread.slot`, `Thread.Orderly.slot_act`, `Thread.Orderly.starts_of_ends` : what the place of a coroutine
  holds after an event;
* `Thread.owed`, `Thread.Orderly.started_eq_owed` : in a history, what has started is what was owed;
* `Thread.Hosts.asked_eq` : in a run, the place holds the only yield that took effect;
* `Thread.Late`, `Thread.deferral` : what is deferred runs once and late.
-/

namespace Resumable

variable {β κ : Type}

/-! ## yields that take effect -/

namespace Coroutine

variable {c : Coroutine β κ} {d : Option κ}

/-- the yield is accepted, and it is not the one that is called once more on the way back -/
def takesEffect (c : Coroutine β κ) (d : Option κ) : Bool := (c.yield d).1.isOk && !c.yieldPending

/-- a yield takes effect in a running coroutine that is not being suspended yet -/
theorem takesEffect_iff :
    c.takesEffect d = true ↔ c.yieldPending = false ∧ c.status = .running ∧ c.yielding = false := by
  unfold takesEffect yield
  cases c.yieldPending with
  | true => simp
  | false =>
    by_cases hs : c.status = .running
    · cases c.yielding <;> simp [hs, Except.isOk, Except.toBool]
    · simp [hs, Except.isOk, Except.toBool]

/-- it leaves what it deferred -/
theorem yield_of_takesEffect (h : c.takesEffect d = true) :
    (c.yield d).2.yielding = true ∧ (c.yield d).2.deferred = d := by
  obtain ⟨hpending, hrunning, hyielding⟩ := takesEffect_iff.1 h
  unfold yield
  simp [hpending, hrunning, hyielding]

/-- any other yield leaves nothing -/
theorem yield_of_not_takesEffect (h : c.takesEffect d = false) :
    (c.yield d).2.yielding = c.yielding ∧ (c.yield d).2.deferred = c.deferred := by
  unfold yield
  split
  · exact ⟨rfl, rfl⟩
  · rename_i hpending
    split
    · exact ⟨rfl, rfl⟩
    · rename_i hrunning
      split
      · exact ⟨rfl, rfl⟩
      · rename_i hyielding
        rw [takesEffect_iff.2 ⟨by simpa using hpending, not_not.1 hrunning, by simpa using hyielding⟩] at h
        exact nomatch h

/-- the place for what is to run later, with the yield that has taken effect -/
def slot (c : Coroutine β κ) : Option (Option κ) := if c.yielding then some c.deferred else none

theorem Same.slot {d : Coroutine β κ} (h : c.Same d) : d.slot = c.slot := by
  unfold Coroutine.slot
  rw [h.yielding, h.deferred]

/-- only a yield that takes effect fills the place, and it finds the place empty -/
theorem slot_yield (c : Coroutine β κ) (d : Option κ) : (c.yield d).2.slot.toList =
    c.slot.toList ++ (if c.takesEffect d then some d else none).toList := by
  unfold slot
  cases h : c.takesEffect d with
  | true =>
    obtain ⟨hyielding, hdeferred⟩ := yield_of_takesEffect h
    rw [hyielding, hdeferred, (takesEffect_iff.1 h).2.2]
    rfl
  | false =>
    obtain ⟨hyielding, hdeferred⟩ := yield_of_not_takesEffect h
    rw [hyielding, hdeferred]
    exact (List.append_nil _).symm

/-- what a run hands out belongs to a coroutine that is suspended now -/
theorem status_of_endRun {body : β} {finished : Bool} {k : κ} (h : (c.endRun body finished).1 = some k) :
    (c.endRun body finished).2.status = .suspended := by
  unfold endRun at h ⊢
  split
  · rfl
  · rename_i hended
    rw [if_neg hended] at h
    exact nomatch h

end Coroutine

/-! ## as many coroutines as before -/

namespace Engine

variable {α : Type} {e e' : Engine β κ} {n : Nat}

theorem size_put (e : Engine β κ) (c : Coroutine β κ) : (e.put c).coroutines.size = e.coroutines.size :=
  Array.size_setIfInBounds

theorem size_on (e : Engine β κ) (id : Nat) (op : Coroutine β κ → Coroutine.Outcome β κ α) :
    (e.on id op).2.coroutines.size = e.coroutines.size := by
  unfold on
  split
  · exact e.size_put _
  · rfl

theorem size_enter (e : Engine β κ) (id : Nat) : (e.enter id).2.coroutines.size = e.coroutines.size := by
  have hsize := e.size_on id Coroutine.beginRun
  unfold enter
  split
  · rename_i heq
    rw [heq] at hsize
    exact hsize
  · rename_i heq
    rw [heq] at hsize
    exact hsize

theorem size_leave (e : Engine β κ) (id : Nat) (body : β) (finished : Bool) :
    (e.leave id body finished).2.coroutines.size = e.coroutines.size := by
  unfold leave
  dsimp only
  split
  · exact size_put _ _
  · rfl

theorem get?_eq_none_of_size (hsize : e'.coroutines.size = e.coroutines.size) (h : e.get? n = none) :
    e'.get? n = none := by
  cases n with
  | zero => rfl
  | succ n => exact Array.getElem?_eq_none (hsize ▸ Array.getElem?_eq_none_iff.1 h)

end Engine

namespace Thread

variable {s t u : Thread β κ} {e : Event β κ} {es fs : List (Event β κ)} {id : Nat} {body : β}
  {finished : Bool} {upper base : List (Level β)}

/-- the event is a yield of the coroutine that takes effect: what is to run later -/
def effect? (t : Thread β κ) (id : Nat) : Event β κ → Option (Option κ)
  | .yield n d => if n = id ∧ (t.engine.get? id).any (·.takesEffect d) then some d else none
  | _ => none

/-- the event ends a run of the coroutine's body: whether it returned -/
def ends? (t : Thread β κ) (id : Nat) : Event β κ → Option Bool
  | .leave finished => if t.levels.head?.bind Level.id? = some id then some finished else none
  | _ => none

/-- what the coroutine deferred and the event starts -/
def starts? (t : Thread β κ) (id : Nat) (e : Event β κ) : Option κ :=
  match t.levels with
  | .body n body :: _ => (t.ends? id e).bind fun finished => (t.engine.leave n body finished).1
  | _ => none

/-- the place of the coroutine -/
def slot (t : Thread β κ) (id : Nat) : Option (Option κ) := (t.engine.get? id).bind Coroutine.slot

/-- the yields of the coroutine that took effect -/
def asked (s : Thread β κ) (id : Nat) (es : List (Event β κ)) : List (Option κ) :=
  (s.trace es).filterMap fun p => p.1.effect? id p.2

/-- what the coroutine deferred and was started -/
def started (s : Thread β κ) (id : Nat) (es : List (Event β κ)) : List κ :=
  (s.trace es).filterMap fun p => p.1.starts? id p.2

/-- What is owed to the yields of a coroutine: when a run of its body returns, all that was deferred in this
run, and nothing when it throws.  The yields before the history begins come first. -/
def owed (id : Nat) (asked : List (Option κ)) : List (Thread β κ × Event β κ) → List κ
  | [] => []
  | (t, e) :: history =>
    match t.ends? id e with
    | some true => asked.reduceOption ++ owed id [] history
    | some false => owed id [] history
    | none => owed id (asked ++ (t.effect? id e).toList) history

/-! ## the place of a coroutine -/

theorem ends?_eq_some : t.ends? id e = some finished ↔
    e = .leave finished ∧ ∃ body levels, t.levels = .body id body :: levels := by
  cases e with
  | leave f =>
    unfold ends?
    cases hlevels : t.levels with
    | nil => simp
    | cons l levels => cases l <;> simp [Level.id?, and_comm]
  | _ => simp [ends?]

theorem starts?_eq_none (h : t.ends? id e = none) : t.starts? id e = none := by
  unfold starts?
  split
  · rw [h]
    rfl
  · rfl

theorem starts?_leave {levels : List (Level β)} (hlevels : s.levels = .body id body :: levels) :
    s.starts? id (.leave finished) = (s.engine.leave id body finished).1 := by
  unfold starts?
  rw [hlevels, ends?_eq_some.2 ⟨rfl, body, levels, hlevels⟩]
  rfl

/-- a coroutine whose body is not under way has deferred nothing -/
theorem Orderly.slot_eq_none (h : t.Orderly) (hid : id ∉ t.engine.active) : t.slot id = none := by
  unfold slot
  cases hc : t.engine.get? id with
  | none => rfl
  | some c =>
    refine if_neg fun hyielding => hid ((h.engine.running id c hc).1 ?_)
    exact (h.engine.each id c hc).yielding hyielding

/-- a body under way stays under way, or a call of `resume` begins it -/
theorem levels_cases (hact : s.act e = some t) (hlevels : t.levels = upper ++ .body id body :: base) :
    (∃ upper', s.levels = upper' ++ .body id body :: base) ∨
      e = .resume id ∧ s.levels = base ∧ upper = [] := by
  cases e with
  | create b => exact .inl ⟨upper, by rw [← hlevels, ← Option.some.inj hact]⟩
  | access a => exact .inl ⟨upper, by rw [← hlevels, ← Option.some.inj hact]⟩
  | yield n d => exact .inl ⟨upper, by rw [← hlevels, ← Option.some.inj hact]⟩
  | resume n =>
    simp only [act] at hact
    split at hact
    · rw [← Option.some.inj hact] at hlevels
      cases upper with
      | nil =>
        obtain ⟨hhead, htail⟩ := List.cons.inj hlevels
        exact .inr ⟨by rw [(Level.body.inj hhead).1], htail, rfl⟩
      | cons l upper => exact .inl ⟨upper, (List.cons.inj hlevels).2⟩
    · exact .inl ⟨upper, by rw [← hlevels, ← Option.some.inj hact]⟩
  | leave finished =>
    cases hs : s.levels with
    | nil => exact absurd hact (by simp [act, hs])
    | cons l levels =>
      cases l with
      | deferred => exact absurd hact (by simp [act, hs])
      | body n b =>
        rcases (act_leave hs hact).2 with ht | ht
        · exact .inl ⟨.body n b :: upper, congrArg _ (ht.symm.trans hlevels)⟩
        · cases upper with
          | nil => exact absurd (List.cons.inj (ht.symm.trans hlevels)).1 (by simp)
          | cons l upper =>
            exact .inl ⟨.body n b :: upper, congrArg _ (List.cons.inj (ht.symm.trans hlevels)).2⟩
  | finish =>
    cases hs : s.levels with
    | nil => exact absurd hact (by simp [act, hs])
    | cons l levels =>
      cases l with
      | body n b => exact absurd hact (by simp [act, hs])
      | deferred =>
        simp only [act, hs] at hact
        rw [← Option.some.inj hact] at hlevels
        exact .inl ⟨.deferred :: upper, congrArg _ hlevels⟩

/-- a call of `resume` that begins a body finds the coroutine not running -/
theorem Orderly.idle_of_resume (h : s.Orderly) (hact : s.act (.resume id) = some t)
    (hlevels : t.levels = .body id body :: s.levels) : id ∉ s.engine.active := by
  rcases h.engine.enter_cases id with ⟨v, heq, -⟩ | ⟨-, -, -, -, hidle, -, -⟩
  · simp only [Thread.act, heq] at hact
    rw [← Option.some.inj hact] at hlevels
    exact absurd (congrArg List.length hlevels) (by simp)
  · exact hidle

/-- a body that is under way belongs to a running coroutine -/
theorem Orderly.mem_active (h : t.Orderly) (hlevels : t.levels = upper ++ .body id body :: base) :
    id ∈ t.engine.active := by
  rw [h.active, hlevels, List.filterMap_append]
  exact List.mem_append_right _ List.mem_cons_self

theorem Orderly.exists_body (h : t.Orderly) (hid : id ∈ t.engine.active) :
    ∃ upper body base, t.levels = upper ++ .body id body :: base := by
  rw [h.active, List.mem_filterMap] at hid
  obtain ⟨l, hl, hid⟩ := hid
  obtain ⟨upper, base, hlevels⟩ := List.append_of_mem hl
  cases l with
  | deferred => exact absurd hid (by simp [Level.id?])
  | body n body =>
    obtain rfl := Option.some.inj hid
    exact ⟨upper, body, base, hlevels⟩

/-- a yield takes effect in a running coroutine -/
theorem Orderly.mem_of_effect {d : Option κ} (h : t.Orderly) (heffect : t.effect? id e = some d) :
    id ∈ t.engine.active := by
  unfold effect? at heffect
  split at heffect
  · split at heffect
    · rename_i htakes
      obtain ⟨c, hc, htakes⟩ := (Option.any_eq_true _ _).1 htakes.2
      exact (h.engine.running id c hc).1 (Coroutine.takesEffect_iff.1 htakes).2.1
    · exact nomatch heffect
  · exact nomatch heffect

/-- only creating a coroutine makes them more -/
theorem size_act (hact : s.act e = some t) :
    (∃ body, e = .create body) ∨ t.engine.coroutines.size = s.engine.coroutines.size := by
  cases e with
  | create body => exact .inl ⟨body, rfl⟩
  | access a =>
    rw [← Option.some.inj hact]
    unfold Engine.onCurrent
    split
    · exact .inr (Engine.size_on _ _ _)
    · exact .inr rfl
  | yield n d =>
    rw [← Option.some.inj hact]
    exact .inr (Engine.size_on _ _ _)
  | resume n =>
    have hsize := Engine.size_enter s.engine n
    simp only [act] at hact
    split at hact
    · rename_i heq
      rw [heq] at hsize
      rw [← Option.some.inj hact]
      exact .inr hsize
    · rename_i heq
      rw [heq] at hsize
      rw [← Option.some.inj hact]
      exact .inr hsize
  | leave finished =>
    cases hs : s.levels with
    | nil => exact absurd hact (by simp [act, hs])
    | cons l levels =>
      cases l with
      | deferred => exact absurd hact (by simp [act, hs])
      | body n body =>
        rw [(act_leave hs hact).1]
        exact .inr (Engine.size_leave _ _ _ _)
  | finish =>
    cases hs : s.levels with
    | nil => exact absurd hact (by simp [act, hs])
    | cons l levels =>
      cases l with
      | body n b => exact absurd hact (by simp [act, hs])
      | deferred =>
        simp only [act, hs] at hact
        rw [← Option.some.inj hact]
        exact .inr rfl

/-- a coroutine that an event does not find is one that it creates -/
theorem created {c : Coroutine β κ} (hact : s.act e = some t) (hnone : s.engine.get? id = none)
    (hc : t.engine.get? id = some c) : ∃ body, c = .create id body := by
  rcases size_act hact with ⟨body, rfl⟩ | hsize
  · rw [← Option.some.inj hact, Engine.get?_create] at hc
    split at hc
    · rename_i hid
      exact ⟨body, by rw [hid, ← Option.some.inj hc]⟩
    · exact absurd (hnone.symm.trans hc) (by simp)
  · exact absurd ((Engine.get?_eq_none_of_size hsize hnone).symm.trans hc) (by simp)

theorem slot_unknown (hact : s.act e = some t) (hnone : s.engine.get? id = none) : t.slot id = none := by
  unfold slot
  cases hc : t.engine.get? id with
  | none => rfl
  | some c =>
    obtain ⟨body, rfl⟩ := created hact hnone hc
    rfl

/-- the coroutine after the end of a run -/
theorem Orderly.get?_leave {levels : List (Level β)} {c : Coroutine β κ} (h : s.Orderly)
    (hact : s.act (.leave finished) = some t) (hlevels : s.levels = .body id body :: levels)
    (hc : s.engine.get? id = some c) : t.engine.get? id = some (c.endRun body finished).2 := by
  have hid := (c.endRun_spec body finished).1.trans (h.engine.numbered id c hc)
  rw [(act_leave hlevels hact).1, Engine.leave_eq (h.innermost hlevels).1 hc, Engine.get?_put_if hc hid hc,
    if_pos rfl]

/-- the end of a run takes the coroutine off the list of those that run -/
theorem Orderly.left (h : s.Orderly) (hact : s.act e = some t) (he : s.ends? id e = some finished) :
    id ∉ t.engine.active := by
  obtain ⟨rfl, body, levels, hlevels⟩ := ends?_eq_some.1 he
  obtain ⟨hactive, c, hc⟩ := h.innermost hlevels
  have honce := h.engine.once
  rw [hactive] at honce
  rw [(act_leave hlevels hact).1, Engine.leave_eq hactive hc]
  exact (List.nodup_cons.1 honce).1

/-- **The end of a run** starts what was deferred if the body returned -/
theorem Orderly.starts_of_ends (h : s.Orderly) (he : s.ends? id e = some finished) :
    (s.starts? id e).toList = if finished then (s.slot id).toList.reduceOption else [] := by
  obtain ⟨rfl, body, levels, hlevels⟩ := ends?_eq_some.1 he
  obtain ⟨hactive, c, hc⟩ := h.innermost hlevels
  rw [starts?_leave hlevels, Engine.leave_eq hactive hc, slot, hc, Option.bind_some]
  unfold Coroutine.endRun Coroutine.slot
  cases finished <;> cases c.yielding <;> cases c.deferred <;> rfl

/-- **Any other event**: a yield that takes effect finds the place empty, and only such a yield fills it -/
theorem Orderly.slot_act (h : s.Orderly) (hact : s.act e = some t) (he : s.ends? id e = none) :
    (t.slot id).toList = (s.slot id).toList ++ (s.effect? id e).toList := by
  cases hc : s.engine.get? id with
  | none =>
    have heffect : s.effect? id e = none := by
      unfold effect?
      split
      · exact if_neg (by simp [hc])
      · rfl
    rw [slot_unknown hact hc, heffect, slot, hc]
    rfl
  | some c =>
    by_cases hy : ∃ n d, e = .yield n d
    · obtain ⟨n, d, rfl⟩ := hy
      rw [← Option.some.inj hact, slot, slot, effect?, hc, h.engine.get?_on (fun c => c.id_yield d) hc]
      by_cases hn : n = id
      · simpa [hn] using c.slot_yield d
      · simp [hn, Ne.symm hn]
    · have heffect : s.effect? id e = none := by
        unfold effect?
        split
        · exact absurd ⟨_, _, rfl⟩ hy
        · rfl
      obtain ⟨c', hc', hchange⟩ := h.change hact hc
      rw [heffect, slot, slot, hc, hc', Option.toList_none, List.append_nil]
      cases hchange with
      | same => rfl
      | access a _ => exact congrArg Option.toList (Coroutine.same_perform a c).slot
      | yield deferred => exact absurd ⟨_, _, rfl⟩ hy
      | resume storage _ _ => rfl
      | leave hlevels finished => exact absurd (he.symm.trans (ends?_eq_some.2 ⟨rfl, _, _, hlevels⟩)) (by simp)

/-! ## histories -/

theorem trace_cons (hact : s.act e = some t) (es : List (Event β κ)) :
    s.trace (e :: es) = (s, e) :: t.trace es := by
  rw [trace, hact]
  rfl

theorem trace_append (hrun : s.run es = some t) (fs : List (Event β κ)) :
    s.trace (es ++ fs) = s.trace es ++ t.trace fs := by
  induction es generalizing s with
  | nil =>
    rw [← Option.some.inj hrun]
    rfl
  | cons e es ih =>
    obtain ⟨s₁, hact, hrest⟩ := Option.bind_eq_some_iff.1 hrun
    rw [List.cons_append, trace_cons hact, trace_cons hact, ih hrest, List.cons_append]

theorem asked_snoc (hrun : s.run es = some t) (hact : t.act e = some u) (id : Nat) :
    s.asked id (es ++ [e]) = s.asked id es ++ (t.effect? id e).toList := by
  unfold asked
  rw [trace_append hrun, List.filterMap_append, trace_cons hact]
  cases h : t.effect? id e <;> simp [trace, h]

theorem started_cons (hact : s.act e = some t) (id : Nat) (es : List (Event β κ)) :
    s.started id (e :: es) = (s.starts? id e).toList ++ t.started id es := by
  unfold started
  rw [trace_cons hact]
  cases h : s.starts? id e <;> simp [h]

/-- **What has started is what was owed**: the place of the coroutine holds the yields of the run under way -/
theorem Orderly.started_eq_owed (h : s.Orderly) (hrun : s.run es = some t) (id : Nat) :
    s.started id es = owed id (s.slot id).toList (s.trace es) := by
  induction es generalizing s with
  | nil => rfl
  | cons e es ih =>
    obtain ⟨s₁, hact, hrest⟩ := Option.bind_eq_some_iff.1 hrun
    rw [started_cons hact, ih (h.act hact) hrest, trace_cons hact, owed]
    cases hends : s.ends? id e with
    | none =>
      rw [starts?_eq_none hends, h.slot_act hact hends]
      rfl
    | some finished =>
      rw [h.starts_of_ends hends, (h.act hact).slot_eq_none (h.left hact hends)]
      cases finished <;> rfl

/-! ## runs of a body -/

/-- A call of `resume` and what happened since, with the body that it began still under way -/
inductive Hosts (s : Thread β κ) (id : Nat) (body : β) : List (Event β κ) → Thread β κ → Prop
  | begin {t : Thread β κ} (hact : s.act (.resume id) = some t)
    (hlevels : t.levels = .body id body :: s.levels) : Hosts s id body [] t
  | next {es : List (Event β κ)} {e : Event β κ} {t u : Thread β κ} {upper : List (Level β)}
    (h : Hosts s id body es t) (hact : t.act e = some u)
    (hlevels : u.levels = upper ++ .body id body :: s.levels) : Hosts s id body (es ++ [e]) u

theorem Hosts.run (h : s.Hosts id body es t) : s.run (.resume id :: es) = some t := by
  induction h with
  | begin hact hlevels => exact run_one hact
  | next h hact hlevels ih => exact run_append ih (run_one hact)

theorem Hosts.levels (h : s.Hosts id body es t) : ∃ upper, t.levels = upper ++ .body id body :: s.levels := by
  cases h with
  | begin hact hlevels => exact ⟨[], hlevels⟩
  | next h hact hlevels => exact ⟨_, hlevels⟩

theorem Resumes.next (h : s.Resumes id es t) (hact : t.act e = some u)
    (habove : s.levels.length < t.levels.length) : s.Resumes id (es ++ [e]) u := by
  refine ⟨run_append h.run (run_one hact), fun p hp => ?_⟩
  rw [← List.cons_append, trace_append h.run, List.tail_append_of_ne_nil (by simp [trace]),
    List.mem_append] at hp
  rcases hp with hp | hp
  · exact h.above p hp
  · rw [trace_cons hact] at hp
    obtain rfl : p = (t, e) := by simpa [trace] using hp
    exact habove

/-- the body is under way above the calls that were under way before -/
theorem Hosts.above (h : s.Hosts id body es t) : s.levels.length < t.levels.length := by
  obtain ⟨upper, hlevels⟩ := h.levels
  rw [hlevels, List.length_append, List.length_cons]
  omega

theorem Hosts.resumes (h : s.Hosts id body es t) : s.Resumes id es t := by
  induction h with
  | begin hact hlevels =>
    refine ⟨run_one hact, fun p hp => ?_⟩
    rw [trace_cons hact] at hp
    exact absurd hp (by simp [trace])
  | next h hact hlevels ih => exact ih.next hact h.above

/-- **The yields of a run**: the place of the coroutine holds the only one that took effect -/
theorem Hosts.asked_eq (h : s.Hosts id body es t) (hs : s.Orderly) :
    s.asked id (.resume id :: es) = (t.slot id).toList := by
  induction h with
  | @begin t hact hlevels =>
    have hslot : (t.slot id).toList = (s.slot id).toList ++ (s.effect? id (.resume id)).toList :=
      hs.slot_act hact rfl
    rw [hslot, hs.slot_eq_none (hs.idle_of_resume hact hlevels), asked, trace_cons hact]
    rfl
  | @next es e t u upper h hact hlevels ih =>
    have ht := hs.run h.run
    rw [← List.cons_append, asked_snoc h.run hact, ih]
    cases hends : t.ends? id e with
    | none => exact (ht.slot_act hact hends).symm
    | some finished => exact absurd ((ht.act hact).mem_active hlevels) (ht.left hact hends)

/-- every body under way was begun by a call of `resume` -/
def Hosted (t : Thread β κ) : Prop :=
  ∀ upper id body base, t.levels = upper ++ .body id body :: base →
    ∃ (s : Thread β κ) (es : List (Event β κ)), s.Reachable ∧ s.levels = base ∧ s.Hosts id body es t

theorem Reachable.act (h : s.Reachable) (hact : s.act e = some t) : t.Reachable := by
  obtain ⟨es, hrun⟩ := h
  exact ⟨es ++ [e], run_append hrun (run_one hact)⟩

theorem Hosted.act (h : s.Hosted) (hs : s.Reachable) (hact : s.act e = some t) : t.Hosted := by
  intro upper id body base hlevels
  rcases levels_cases hact hlevels with ⟨upper', hsplit⟩ | ⟨rfl, rfl, rfl⟩
  · obtain ⟨r, es, hr, rfl, hhosts⟩ := h upper' id body base hsplit
    exact ⟨r, es ++ [e], hr, rfl, hhosts.next hact hlevels⟩
  · exact ⟨s, [], hs, rfl, .begin hact hlevels⟩

theorem Hosted.run (h : s.Hosted) (hs : s.Reachable) (hrun : s.run es = some t) : t.Hosted := by
  induction es generalizing s with
  | nil =>
    rw [← Option.some.inj hrun]
    exact h
  | cons e es ih =>
    obtain ⟨s₁, hact, hrest⟩ := Option.bind_eq_some_iff.1 hrun
    exact ih (h.act hs hact) (hs.act hact) hrest

theorem Reachable.hosted (h : t.Reachable) : t.Hosted := by
  obtain ⟨es, hrun⟩ := h
  refine Hosted.run (s := fresh) (fun upper id body base hlevels => ?_) ⟨[], rfl⟩ hrun
  exact absurd (congrArg List.length hlevels) (by simp [fresh])

end Thread

/-! ## machines -/

namespace Machine

variable {m : Machine} {id : Nat} {body : Call} {rest : List Pending}

/-- **Starting is calling**: when the body of a coroutine has returned, a machine calls next what starts -/
theorem step_starts (w : World) {v : Option Value} {k : Call} (hmode : m.mode = .returning v)
    (hpending : m.pending = .body id body :: rest)
    (hstarts : m.thread.starts? id (.leave true) = some k) :
    m.thread.act (.leave true) = some (m.step w).thread ∧
      (m.step w).mode = .calling k ∧ (m.step w).pending = .discard :: rest := by
  have hstep : m.step w = m.leaveBody id body rest := by
    unfold step
    rw [hmode, hpending]
    rfl
  have hthread : m.thread = ⟨m.engine, .body id body :: rest.filterMap Pending.level?⟩ := by
    rw [thread, hpending]
    rfl
  rw [hthread, Thread.starts?_leave rfl] at hstarts
  rw [hstep, hthread, thread_leaveBody]
  refine ⟨rfl, ?_⟩
  unfold leaveBody
  generalize m.engine.leave id body true = r at hstarts
  obtain ⟨deferred, engine⟩ := r
  obtain rfl : deferred = some k := hstarts
  exact ⟨rfl, rfl⟩

end Machine

namespace Thread

variable {s t u : Thread β κ} {es : List (Event β κ)} {id : Nat} {body : β} {finished : Bool}

/-! ## what is deferred runs late -/

/-- What the coroutine deferred begins to run during the call of `resume` that was made on `s`: the coroutine
is suspended and off the list of those that run, which is as it was, and it holds nothing more to run. -/
structure Late (s : Thread β κ) (id : Nat) (t : Thread β κ) : Prop where
  suspended : ∃ c, t.engine.get? id = some c ∧ c.status = .suspended
  empty : t.slot id = none
  left : id ∉ t.engine.active
  active : t.engine.active = s.engine.active
  levels : t.levels = .deferred :: s.levels

theorem Hosts.late {k : κ} (h : s.Hosts id body es t) (hs : s.Orderly)
    (hlevels : t.levels = .body id body :: s.levels) (hact : t.act (.leave finished) = some u)
    (hstarts : t.starts? id (.leave finished) = some k) : s.Late id u := by
  have ht := hs.run h.run
  have hu := ht.act hact
  obtain ⟨hactive, c, hc⟩ := ht.innermost hlevels
  have hleft := ht.left hact (ends?_eq_some.2 ⟨rfl, body, _, hlevels⟩)
  have hlate : u.levels = .deferred :: s.levels := by
    rw [starts?_leave hlevels] at hstarts
    simp only [Thread.act, hlevels] at hact
    generalize t.engine.leave id body finished = r at hstarts hact
    obtain ⟨deferred, engine⟩ := r
    obtain rfl : deferred = some k := hstarts
    rw [← Option.some.inj hact]
  refine ⟨⟨_, ht.get?_leave hact hlevels hc, ?_⟩, hu.slot_eq_none hleft, hleft, ?_, hlate⟩
  · rw [starts?_leave hlevels, Engine.leave_eq hactive hc] at hstarts
    exact Coroutine.status_of_endRun hstarts
  · rw [hu.active, hlate, hs.active]
    rfl

/-- **What yields defer runs once and late.**  In every history, what has started of a coroutine's
continuations is what was owed.  A yield that takes effect belongs to a run of the body, begun by a call of
`resume`.  In each run at most one takes effect, and at the end of the run what it deferred starts, late, if
the body returned, and nothing starts if it threw; a machine calls it next.  Nothing starts otherwise, and a
yield that does not take effect, be it called again on the way back or refused, leaves every place as it was. -/
theorem deferral (hrun : fresh.run es = some t) :
    (∀ id, fresh.started id es = owed id [] (fresh.trace es)) ∧
    (∀ id e d, t.effect? id e = some d →
      ∃ (s : Thread β κ) (body : β) (fs : List (Event β κ)), s.Reachable ∧ s.Hosts id body fs t) ∧
    (∀ (s : Thread β κ) id body fs finished u, s.Reachable → s.Hosts id body fs t →
      t.levels = .body id body :: s.levels → t.act (.leave finished) = some u →
        (s.asked id (.resume id :: fs)).length ≤ 1 ∧
        (t.starts? id (.leave finished)).toList =
          (if finished then (s.asked id (.resume id :: fs)).reduceOption else []) ∧
        ∀ k, t.starts? id (.leave finished) = some k →
          s.Resumes id (fs ++ [.leave finished]) u ∧ s.Late id u) ∧
    (∀ id e k, t.starts? id e = some k →
      ∃ (s : Thread β κ) (body : β) (fs : List (Event β κ)), s.Reachable ∧ s.Hosts id body fs t ∧
        t.levels = .body id body :: s.levels ∧ e = .leave true ∧
        s.asked id (.resume id :: fs) = [some k]) ∧
    (∀ (w : World) (m : Machine) id body rest v k, m.mode = .returning v → m.pending = .body id body :: rest →
      m.thread.starts? id (.leave true) = some k →
        m.thread.act (.leave true) = some (m.step w).thread ∧
        (m.step w).mode = .calling k ∧ (m.step w).pending = .discard :: rest) ∧
    ∀ id d u, t.effect? id (.yield id d) = none → t.act (.yield id d) = some u →
      ∀ n, u.slot n = t.slot n := by
  have hreachable : t.Reachable := ⟨es, hrun⟩
  have horderly := hreachable.orderly
  refine ⟨fun id => ?_, fun id e d heffect => ?_, fun s id body fs finished u hs h hlevels hact => ?_,
    fun id e k hstarts => ?_, fun w m id body rest v k => m.step_starts w, fun id d u heffect hact n => ?_⟩
  · rw [orderly_fresh.started_eq_owed hrun id, orderly_fresh.slot_eq_none (by simp [fresh, Engine.empty])]
    rfl
  · obtain ⟨upper, body, base, hlevels⟩ := horderly.exists_body (horderly.mem_of_effect heffect)
    obtain ⟨s, fs, hs, -, h⟩ := hreachable.hosted upper id body base hlevels
    exact ⟨s, body, fs, hs, h⟩
  · have hends : t.ends? id (.leave finished) = some finished := ends?_eq_some.2 ⟨rfl, body, _, hlevels⟩
    rw [h.asked_eq hs.orderly]
    refine ⟨?_, horderly.starts_of_ends hends, fun k hstarts => ?_⟩
    · cases t.slot id <;> simp
    · exact ⟨h.resumes.next hact h.above, h.late hs.orderly hlevels hact hstarts⟩
  · obtain ⟨finished, hends⟩ : ∃ finished, t.ends? id e = some finished := by
      refine Option.ne_none_iff_exists'.1 fun hnone => ?_
      exact absurd ((starts?_eq_none hnone).symm.trans hstarts) (by simp)
    obtain ⟨rfl, body, levels, hlevels⟩ := ends?_eq_some.1 hends
    obtain ⟨s, fs, hs, rfl, h⟩ := hreachable.hosted [] id body levels hlevels
    have hslot := horderly.starts_of_ends hends
    rw [hstarts] at hslot
    cases finished with
    | false => exact absurd hslot (by simp)
    | true =>
      refine ⟨s, body, fs, hs, h, hlevels, rfl, ?_⟩
      rw [h.asked_eq hs.orderly]
      cases hheld : t.slot id with
      | none =>
        rw [hheld] at hslot
        exact absurd hslot (by simp)
      | some d =>
        rw [hheld] at hslot
        have hd : [k] = d.toList := hslot.trans (List.reduceOption_singleton d)
        rw [← Option.head?_toList (o := d), ← hd]
        rfl
  · have hothers : t.effect? n (.yield id d) = none := by
      by_cases hn : id = n
      · rw [← hn, heffect]
      · exact if_neg fun hand => hn hand.1
    have hslot : (u.slot n).toList = (t.slot n).toList ++ (t.effect? n (.yield id d)).toList :=
      horderly.slot_act hact rfl
    rw [hothers, Option.toList_none, List.append_nil] at hslot
    rw [← Option.head?_toList (o := u.slot n), hslot, Option.head?_toList]

/-- Its continuation resumes the coroutine again, which throws then, and the continuation runs once. -/
theorem deferral_excursion : ∃ t,
    fresh.run ([.create (), .create (), .resume 1] ++ .resume 2 :: excursion) = some t ∧
    fresh.started 2 ([.create (), .create (), .resume 1] ++ .resume 2 :: excursion) = [()] := by
  refine ⟨_, rfl, ?_⟩
  rw [(deferral rfl).1]
  rfl

end Thread

end Resumable
