import Resumable.Proofs.Deferral

/-!
# Suspensions on top

Woven code asks the innermost running coroutine whether it is being suspended, and unwinds if it is.  But a
yield names the coroutine that it suspends, which may be any that runs, and code that is to unwind may still
resume another coroutine.  These are the only two ways in which a coroutine below the innermost one comes to
be suspended: who avoids them finds all that is being suspended on top.

* `Thread.OnTop` : only the innermost coroutine is being suspended;
* `Thread.Keeps` : the event is none that would break this;
* `Thread.Orderly.onTop_act`, `Thread.Orderly.onTop_run` : exactly such events keep it;
* `Thread.onTop_throughout_iff` : what holds in all histories.
-/

namespace Resumable
namespace Thread

variable {β κ : Type} {s t : Thread β κ} {e : Event β κ} {es : List (Event β κ)} {id : Nat}

/-- only the innermost running coroutine is being suspended -/
def OnTop (t : Thread β κ) : Prop :=
  ∀ id c, t.engine.get? id = some c → c.yielding = true → t.engine.currentId? = some id

/-- a yield that takes effect is one of the innermost coroutine, and nothing begins to run on top of a
coroutine that is being suspended -/
def Keeps (t : Thread β κ) : Event β κ → Prop
  | .yield id d => (t.effect? id (.yield id d)).isSome → t.engine.currentId? = some id
  | .resume id => (t.engine.enter id).1.isOk → t.engine.isYielding = false
  | _ => True

instance decidableKeeps (t : Thread β κ) : (e : Event β κ) → Decidable (t.Keeps e)
  | .yield id d =>
    inferInstanceAs (Decidable ((t.effect? id (.yield id d)).isSome → t.engine.currentId? = some id))
  | .resume id => inferInstanceAs (Decidable ((t.engine.enter id).1.isOk → t.engine.isYielding = false))
  | .create _ | .access _ | .leave _ | .finish => inferInstanceAs (Decidable True)

/-! ## the place of what is deferred -/

theorem isSome_slot_iff :
    (t.slot id).isSome ↔ ∃ c, t.engine.get? id = some c ∧ c.yielding = true := by
  unfold slot
  cases hc : t.engine.get? id with
  | none => simp
  | some c => cases hy : c.yielding <;> simp [Coroutine.slot, hy]

theorem onTop_iff : t.OnTop ↔ ∀ id, (t.slot id).isSome → t.engine.currentId? = some id := by
  refine ⟨fun h id hid => ?_, fun h id c hc hy => h id (isSome_slot_iff.2 ⟨c, hc, hy⟩)⟩
  obtain ⟨c, hc, hy⟩ := isSome_slot_iff.1 hid
  exact h id c hc hy

theorem isYielding_iff : t.engine.isYielding = true ↔
    ∃ id, t.engine.currentId? = some id ∧ (t.slot id).isSome := by
  unfold Engine.isYielding Engine.current?
  cases ht : t.engine.currentId? with
  | none => simp
  | some n => simp [isSome_slot_iff, Option.any_eq_true]

/-- what is being suspended was so before, or a yield takes effect -/
theorem Orderly.isSome_slot_act (h : s.Orderly) (hact : s.act e = some t) (he : s.ends? id e = none) :
    (t.slot id).isSome ↔ (s.slot id).isSome ∨ (s.effect? id e).isSome := by
  have hslot := congrArg List.length (h.slot_act hact he)
  rw [List.length_append, Option.length_toList, Option.length_toList, Option.length_toList] at hslot
  cases ht : t.slot id <;> cases hs : s.slot id <;> cases hd : s.effect? id e <;> simp_all

/-! ## who is innermost -/

/-- a call of `resume` is refused, or a coroutine that did not run is on top of the others now -/
theorem Orderly.act_resume (h : s.Orderly) (hact : s.act (.resume id) = some t) :
    ((s.engine.enter id).1.isOk = false ∧ t.engine = s.engine) ∨
    ((s.engine.enter id).1.isOk = true ∧ id ∉ s.engine.active ∧ t.engine.active = id :: s.engine.active) := by
  rcases h.engine.enter_cases id with ⟨v, heq, -⟩ | ⟨c, body, storage, -, hidle, -, heq⟩
  · simp only [Thread.act, heq] at hact
    exact .inl ⟨by rw [heq]; rfl, by rw [← Option.some.inj hact]⟩
  · simp only [Thread.act, heq] at hact
    exact .inr ⟨by rw [heq]; rfl, hidle, by rw [← Option.some.inj hact]⟩

/-- apart from the begin and the end of a run, those that run stay as they are -/
theorem Orderly.active_act (h : s.Orderly) (hact : s.act e = some t) (hresume : ∀ id, e ≠ .resume id)
    (hleave : ∀ finished, e ≠ .leave finished) : t.engine.active = s.engine.active := by
  cases e with
  | create body =>
    rw [← Option.some.inj hact]
    rfl
  | access a =>
    rw [← Option.some.inj hact]
    unfold Engine.onCurrent
    split
    · exact Engine.active_on _ _ _
    · rfl
  | yield id d =>
    rw [← Option.some.inj hact]
    exact Engine.active_on _ _ _
  | resume id => exact absurd rfl (hresume id)
  | leave finished => exact absurd rfl (hleave finished)
  | finish =>
    have ht := (h.act hact).active
    simp only [Thread.act] at hact
    split at hact
    · rw [← Option.some.inj hact]
    · exact absurd hact (by simp)

/-! ## one event -/

/-- an event other than a begin or an end of a run leaves on top what is on top, unless it is a yield that
takes effect further below -/
theorem Orderly.onTop_of_same (h : s.Orderly) (hact : s.act e = some t) (hs : s.OnTop)
    (hresume : ∀ id, e ≠ .resume id) (hleave : ∀ finished, e ≠ .leave finished)
    (hyield : ∀ id, (s.effect? id e).isSome → s.engine.currentId? = some id) : t.OnTop := by
  have hcurrent : t.engine.currentId? = s.engine.currentId? :=
    congrArg List.head? (h.active_act hact hresume hleave)
  refine onTop_iff.2 fun id hid => ?_
  have hends : s.ends? id e = none := by
    refine Option.eq_none_iff_forall_ne_some.2 fun finished hends => ?_
    exact hleave finished (ends?_eq_some.1 hends).1
  rw [hcurrent]
  rcases (h.isSome_slot_act hact hends).1 hid with hbefore | heffect
  · exact onTop_iff.1 hs id hbefore
  · exact hyield id heffect

/-- a yield keeps suspensions on top if and only if it takes effect on top or not at all -/
theorem Orderly.onTop_yield {d : Option κ} (h : s.Orderly) (hact : s.act (.yield id d) = some t)
    (hs : s.OnTop) : t.OnTop ↔ s.Keeps (.yield id d) := by
  refine ⟨fun ht heffect => ?_, fun hkeeps => ?_⟩
  · have hcurrent : t.engine.currentId? = s.engine.currentId? :=
      congrArg List.head? (h.active_act hact (by simp) (by simp))
    have hslot : (t.slot id).isSome := (h.isSome_slot_act hact rfl).2 (.inr heffect)
    rw [← hcurrent]
    exact onTop_iff.1 ht id hslot
  · refine h.onTop_of_same hact hs (by simp) (by simp) fun n heffect => ?_
    obtain rfl : id = n := by
      by_contra hne
      exact absurd heffect (by simp [effect?, hne])
    exact hkeeps heffect

/-- A begin of a run keeps suspensions on top if and only if the coroutine that was innermost is not being
suspended: it still runs, but below the one that begins. -/
theorem Orderly.onTop_resume (h : s.Orderly) (hact : s.act (.resume id) = some t) (hs : s.OnTop) :
    t.OnTop ↔ s.Keeps (.resume id) := by
  have hslot (n : Nat) : (t.slot n).isSome ↔ (s.slot n).isSome := by
    have hact' : (t.slot n).isSome ↔ (s.slot n).isSome ∨ (s.effect? n (.resume id)).isSome :=
      h.isSome_slot_act hact rfl
    simpa [effect?] using hact'
  rcases h.act_resume hact with ⟨hrefused, hengine⟩ | ⟨hentered, hidle, hactive⟩
  · have ht : t.OnTop := by
      unfold OnTop
      rw [hengine]
      exact hs
    exact ⟨fun _ hok => absurd hok (by simp [hrefused]), fun _ => ht⟩
  · have hcurrent : t.engine.currentId? = some id := by
      rw [Engine.currentId?, hactive]
      rfl
    refine ⟨fun ht _ => ?_, fun hkeeps => onTop_iff.2 fun n hn => ?_⟩
    · refine Bool.eq_false_iff.2 fun hyielding => ?_
      obtain ⟨n, hn, hbefore⟩ := isYielding_iff.1 hyielding
      have htop := onTop_iff.1 ht n ((hslot n).2 hbefore)
      obtain rfl : id = n := Option.some.inj (hcurrent.symm.trans htop)
      exact hidle (List.mem_of_mem_head? hn)
    · have hbefore := (hslot n).1 hn
      have hyielding := isYielding_iff.2 ⟨n, onTop_iff.1 hs n hbefore, hbefore⟩
      exact absurd hyielding (by simp [hkeeps hentered])

/-- the end of the innermost run ends its suspension, and there is no other one -/
theorem Orderly.onTop_leave {finished : Bool} (h : s.Orderly) (hact : s.act (.leave finished) = some t)
    (hs : s.OnTop) : t.OnTop := by
  refine onTop_iff.2 fun id hid => ?_
  cases hends : s.ends? id (.leave finished) with
  | some _ =>
    rw [(h.act hact).slot_eq_none (h.left hact hends)] at hid
    exact absurd hid (by simp)
  | none =>
    have hbefore : (s.slot id).isSome := by simpa [effect?] using (h.isSome_slot_act hact hends).1 hid
    have hcurrent := onTop_iff.1 hs id hbefore
    obtain ⟨n, body, levels, hlevels⟩ : ∃ n body levels, s.levels = .body n body :: levels := by
      simp only [Thread.act] at hact
      split at hact
      · exact ⟨_, _, _, ‹_›⟩
      · exact absurd hact (by simp)
    obtain rfl : n = id := by
      rw [Engine.currentId?, (h.innermost hlevels).1] at hcurrent
      exact Option.some.inj hcurrent
    have hsome : s.ends? n (.leave finished) = some finished := ends?_eq_some.2 ⟨rfl, body, levels, hlevels⟩
    exact absurd (hends.symm.trans hsome) (by simp)

/-- **One event** keeps suspensions on top if and only if it is none of the two that do not -/
theorem Orderly.onTop_act (h : s.Orderly) (hact : s.act e = some t) (hs : s.OnTop) :
    t.OnTop ↔ s.Keeps e := by
  cases e with
  | create body => exact iff_of_true (h.onTop_of_same hact hs (by simp) (by simp) (by simp [effect?])) trivial
  | access a => exact iff_of_true (h.onTop_of_same hact hs (by simp) (by simp) (by simp [effect?])) trivial
  | yield id d => exact h.onTop_yield hact hs
  | resume id => exact h.onTop_resume hact hs
  | leave finished => exact iff_of_true (h.onTop_leave hact hs) trivial
  | finish => exact iff_of_true (h.onTop_of_same hact hs (by simp) (by simp) (by simp [effect?])) trivial

/-! ## histories -/

theorem onTop_fresh : (fresh : Thread β κ).OnTop := by
  intro id c hc
  exact absurd hc (by cases id <;> simp [fresh, Engine.empty, Engine.get?])

/-- **All events** of a history keep suspensions on top if and only if they are on top throughout -/
theorem Orderly.onTop_run (h : s.Orderly) (hs : s.OnTop) (hrun : s.run es = some t) :
    (∀ fs u, fs <+: es → s.run fs = some u → u.OnTop) ↔ ∀ p ∈ s.trace es, p.1.Keeps p.2 := by
  induction es generalizing s with
  | nil =>
    refine iff_of_true (fun fs u hfs hu => ?_) (by simp [trace])
    rw [List.prefix_nil.1 hfs] at hu
    rw [← Option.some.inj hu]
    exact hs
  | cons e es ih =>
    obtain ⟨s₁, hact, hrest⟩ := Option.bind_eq_some_iff.1 hrun
    have hfirst := h.onTop_act hact hs
    have hcons (fs : List (Event β κ)) : s.run (e :: fs) = s₁.run fs := by
      rw [Thread.run, hact, Option.bind_some]
    rw [trace_cons hact, List.forall_mem_cons, ← hfirst]
    constructor
    · intro hall
      have hs₁ : s₁.OnTop := hall [e] s₁ (List.prefix_append [e] es) (by rw [hcons, Thread.run])
      refine ⟨hs₁, (ih (h.act hact) hs₁ hrest).1 fun fs u hfs hu => ?_⟩
      exact hall (e :: fs) u (List.prefix_cons_inj e |>.2 hfs) (by rw [hcons, hu])
    · rintro ⟨hs₁, hrest'⟩ fs u hfs hu
      rcases List.prefix_cons_iff.1 hfs with rfl | ⟨gs, rfl, hgs⟩
      · rw [← Option.some.inj hu]
        exact hs
      · rw [hcons] at hu
        exact (ih (h.act hact) hs₁ hrest).2 hrest' gs u hgs hu

/-- **Who is being suspended.**  Wherever a history leads, what is being suspended runs.  Throughout a
history only the innermost coroutine is being suspended if and only if every yield that takes effect is one
of the innermost coroutine, and no coroutine begins to run on top of one that is being suspended. -/
theorem onTop_throughout_iff (hrun : fresh.run es = some t) :
    (∀ id c, t.engine.get? id = some c → c.yielding = true → id ∈ t.engine.active) ∧
    ((∀ fs u, fs <+: es → fresh.run fs = some u → u.OnTop) ↔ ∀ p ∈ fresh.trace es, p.1.Keeps p.2) := by
  have horderly : t.engine.Orderly := (orderly_fresh.run hrun).engine
  refine ⟨fun id c hc hy => ?_, orderly_fresh.onTop_run onTop_fresh hrun⟩
  exact (horderly.running id c hc).1 ((horderly.each id c hc).yielding hy)

/-- A coroutine that another one resumes suspends and is left, then the other one suspends. -/
def inTurn : List (Event Unit Unit) :=
  [.create (), .create (), .resume 1, .resume 2, .yield 2 none, .leave true, .yield 1 none]

theorem onTop_throughout_inTurn : ∃ t, fresh.run inTurn = some t ∧ 1 ∈ t.engine.active ∧
    ∀ fs u, fs <+: inTurn → fresh.run fs = some u → u.OnTop := by
  have hrun : fresh.run inTurn = some _ := rfl
  obtain ⟨hruns, hthroughout⟩ := onTop_throughout_iff hrun
  exact ⟨_, hrun, hruns 1 _ rfl rfl, hthroughout.2 (by decide)⟩

/-- A coroutine that is being suspended resumes another one, which runs on top of it. -/
theorem not_onTop_nested : ¬ ∀ t : Thread Unit Unit, t.Reachable → t.OnTop := by
  intro h
  have htop := h _ ⟨[.create (), .create (), .resume 1, .yield 1 none, .resume 2], rfl⟩
  exact absurd (htop 1 _ rfl rfl) (by decide)

/-- So it does if the one that runs on top of it suspends it. -/
example : ∃ t : Thread Unit Unit, fresh.run [.create (), .create (), .resume 1, .resume 2, .yield 1 none] =
    some t ∧ (t.engine.get? 1).any (·.yielding) ∧ t.engine.currentId? = some 2 := ⟨_, rfl, rfl, rfl⟩

end Thread
end Resumable
