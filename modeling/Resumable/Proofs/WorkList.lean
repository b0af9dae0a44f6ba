import Resumable.Analysis
import Resumable.Proofs.Effects

/-!
# The work list

What one step of the work list does, and what holds when nothing is pending any more: whatever flows out of an
instruction that has a frame has arrived where it flows to.  The invariant says this of every instruction that
is not waiting to be looked at again; frames only move upward, so what has arrived once stays arrived.  It is
stated for any order in which joins are upper bounds, and for any property that instructions and joins keep.

* `Flow.EdgesOf`, `Flow.edges_ok` : what flows out of an instruction;
* `Flow.flow_cases`, `Flow.step_cases` : one edge, one step;
* `Flow.Domain` : a property of frames and an order of them;
* `Flow.Reached`, `Flow.Solved` : an edge has arrived, all edges have;
* `Flow.frames_solved` : the frames of a method.
-/

namespace Resumable
namespace Flow

/-! ## edges -/

section
variable {b : Body} {i : Nat} {insn : Insn} {before after : Frame} {es : List Edge}

theorem jumpEdges_ok {ls : List Label} (h : jumpEdges b i after ls = .ok es) :
    (∀ e ∈ es, e.1 < b.code.length ∧ e.2 = after) ∧
    ∀ l ∈ ls, ∃ n, labelPosition l b.code = some n ∧ (n, after) ∈ es := by
  induction ls generalizing es with
  | nil =>
    obtain rfl : [] = es := by simpa [jumpEdges] using h
    exact ⟨fun e he => absurd he (by simp), fun l hl => absurd hl (by simp)⟩
  | cons l ls ih =>
    rw [jumpEdges] at h
    split at h
    · rename_i n hn
      obtain ⟨rest, hrest, h⟩ := Effect.bind_eq_ok h
      injection h with h
      subst h
      obtain ⟨hall, hls⟩ := ih hrest
      constructor
      · intro e he
        rcases List.mem_cons.1 he with rfl | he
        · exact ⟨labelPosition_lt hn, rfl⟩
        · exact hall e he
      · intro l' hl'
        rcases List.mem_cons.1 hl' with rfl | hl'
        · exact ⟨n, hn, List.mem_cons_self⟩
        · obtain ⟨n', hn', hmem⟩ := hls l' hl'
          exact ⟨n', hn', List.mem_cons_of_mem _ hmem⟩
    · exact absurd h (by simp)

theorem nextEdges_ok (h : nextEdges b i insn after = .ok es) :
    (∀ e ∈ es, e.1 < b.code.length ∧ e.2 = after) ∧
    (insn.fallsThrough = true → i + 1 < b.code.length ∧ (i + 1, after) ∈ es) := by
  unfold nextEdges at h
  split at h
  · rename_i hfalls
    split at h
    · rename_i hlt
      injection h with h
      subst h
      refine ⟨fun e he => ?_, fun _ => ⟨hlt, List.mem_singleton_self _⟩⟩
      obtain rfl := List.mem_singleton.1 he
      exact ⟨hlt, rfl⟩
    · exact absurd h (by simp)
  · rename_i hfalls
    injection h with h
    subst h
    exact ⟨fun e he => absurd he (by simp), fun h => absurd h (by simpa using hfalls)⟩

/-- what flows out of an instruction, and nothing else does -/
structure EdgesOf (b : Body) (i : Nat) (insn : Insn) (before after : Frame) (es : List Edge) :
    Prop where
  applied : before.apply insn = .ok after
  handlers : ∀ h ∈ b.handlers, h.start ≤ i → i < h.stop →
    (h.target, (⟨before.locals, [h.caught]⟩ : Frame)) ∈ es
  jumps : ∀ l ∈ insn.targets, ∃ n, labelPosition l b.code = some n ∧ (n, after) ∈ es
  next : insn.fallsThrough = true → i + 1 < b.code.length ∧ (i + 1, after) ∈ es
  only : ∀ e ∈ es, (∃ h ∈ b.handlers, e = (h.target, ⟨before.locals, [h.caught]⟩)) ∨
    e.1 < b.code.length ∧ e.2 = after

theorem edges_ok (h : edges b i insn before = .ok es) : ∃ after, EdgesOf b i insn before after es := by
  obtain ⟨after, happly, h⟩ : ∃ after, before.apply insn = .ok after ∧
      (jumpEdges b i after insn.targets >>= fun jumps => nextEdges b i insn after >>= fun next =>
        .ok (handlerEdges b i before ++ jumps ++ next)) = Except.ok es := by
    unfold edges at h
    cases happly : before.apply insn with
    | error e =>
      rw [happly] at h
      exact absurd h (by simp [bind, Except.bind])
    | ok after =>
      rw [happly] at h
      exact ⟨after, rfl, h⟩
  obtain ⟨jumps, hjumps, h⟩ := Effect.bind_eq_ok h
  obtain ⟨next, hnext, h⟩ := Effect.bind_eq_ok h
  injection h with h
  subst h
  obtain ⟨hjall, hjls⟩ := jumpEdges_ok hjumps
  obtain ⟨hnall, hnfalls⟩ := nextEdges_ok hnext
  refine ⟨after, happly, ?_, ?_, ?_, ?_⟩
  · intro h hh hstart hstop
    refine List.mem_append_left _ (List.mem_append_left _ (List.mem_map.2 ⟨h, ?_, rfl⟩))
    rw [List.mem_filter]
    exact ⟨hh, by simp [hstart, hstop]⟩
  · intro l hl
    obtain ⟨n, hn, hmem⟩ := hjls l hl
    exact ⟨n, hn, List.mem_append_left _ (List.mem_append_right _ hmem)⟩
  · intro hfalls
    obtain ⟨hlt, hmem⟩ := hnfalls hfalls
    exact ⟨hlt, List.mem_append_right _ hmem⟩
  · intro e he
    rcases List.mem_append.1 he with he | he
    · rcases List.mem_append.1 he with he | he
      · obtain ⟨h, hh, rfl⟩ := List.mem_map.1 he
        exact .inl ⟨h, (List.mem_filter.1 hh).1, rfl⟩
      · exact .inr (hjall e he)
    · exact .inr (hnall e he)

end

/-! ## one edge, one step -/

/-- the state after a frame was put at an index that waits now -/
def arrive (s : State) (i : Nat) (f : Frame) : State :=
  { frames := s.frames.set i (some f)
    pending := if i ∈ s.pending then s.pending else s.pending ++ [i] }

theorem mem_pending_arrive {s : State} {i j : Nat} {f : Frame} :
    j ∈ (arrive s i f).pending ↔ j ∈ s.pending ∨ j = i := by
  show j ∈ (if i ∈ s.pending then s.pending else s.pending ++ [i]) ↔ _
  split
  · rename_i hi
    constructor
    · exact fun hj => .inl hj
    · rintro (hj | rfl)
      · exact hj
      · exact hi
  · rw [List.mem_append, List.mem_singleton]

section
variable {b : Body} {s t : State} {e : Edge} {es : List Edge}

/-- **One edge**: joining it in changes nothing, or it puts a frame at its target -/
theorem flow_cases (h : flow b s e = .ok t) :
    (∃ old, s.frames[e.1]? = some (some old) ∧ old.merge b.program e.2 = .ok old ∧ t = s) ∨
    (∃ old g, s.frames[e.1]? = some (some old) ∧ old.merge b.program e.2 = .ok g ∧ g ≠ old ∧
      t = arrive s e.1 g) ∨
    (∀ old, s.frames[e.1]? ≠ some (some old)) ∧ t = arrive s e.1 e.2 := by
  unfold flow at h
  dsimp only at h
  split at h
  · rename_i old hold
    split at h
    · rename_i g hg
      split at h
      · rename_i heq
        refine .inl ⟨old, hold, ?_, (Except.ok.inj h).symm⟩
        rw [hg, heq]
      · rename_i hne
        exact .inr (.inl ⟨old, g, hold, hg, hne, (Except.ok.inj h).symm⟩)
    · exact absurd h (by simp)
  · rename_i hnone
    exact .inr (.inr ⟨fun old hold => hnone old hold, (Except.ok.inj h).symm⟩)

/-- **One step** looks at the first index that waits: nothing happens, or everything flows out of its
instruction -/
theorem step_cases (h : step b s = .ok t) :
    (s.pending = [] ∧ t = s) ∨
    ∃ i rest, s.pending = i :: rest ∧
      ((∀ insn before, b.code[i]? = some insn → s.frames[i]? ≠ some (some before)) ∧
        t = { s with pending := rest } ∨
      ∃ insn before es, b.code[i]? = some insn ∧ s.frames[i]? = some (some before) ∧
        edges b i insn before = .ok es ∧ flowAll b { s with pending := rest } es = .ok t) := by
  unfold step at h
  split at h
  · rename_i hnil
    exact .inl ⟨hnil, (Except.ok.inj h).symm⟩
  · rename_i i rest hcons
    refine .inr ⟨i, rest, hcons, ?_⟩
    dsimp only at h
    split at h
    · rename_i insn before hinsn hbefore
      obtain ⟨es, hes, h⟩ := Effect.bind_eq_ok h
      exact .inr ⟨insn, before, es, hinsn, hbefore, hes, h⟩
    · rename_i hnone
      exact .inl ⟨fun insn before hinsn hbefore => hnone insn before hinsn hbefore, (Except.ok.inj h).symm⟩

/-- a frame that absorbs what flows to it stays -/
theorem flow_same {old : Frame} (hold : s.frames[e.1]? = some (some old))
    (hmerge : old.merge b.program e.2 = .ok old) : flow b s e = .ok s := by
  unfold flow
  dsimp only
  rw [hold]
  dsimp only
  rw [hmerge]
  exact congrArg Except.ok (if_pos rfl)

theorem flow_join {old g : Frame} (hold : s.frames[e.1]? = some (some old))
    (hmerge : old.merge b.program e.2 = .ok g) (hne : g ≠ old) : flow b s e = .ok (arrive s e.1 g) := by
  unfold flow
  dsimp only
  rw [hold]
  dsimp only
  rw [hmerge]
  exact congrArg Except.ok (if_neg hne)

theorem flow_absent (hold : s.frames[e.1]? = some none) : flow b s e = .ok (arrive s e.1 e.2) := by
  unfold flow
  dsimp only
  rw [hold]
  rfl

/-- a step at an instruction with a frame -/
theorem step_at {i : Nat} {rest : List Nat} {insn : Insn} {before : Frame} (hpending : s.pending = i :: rest)
    (hinsn : b.code[i]? = some insn) (hbefore : s.frames[i]? = some (some before))
    (hes : edges b i insn before = .ok es) : step b s = flowAll b { s with pending := rest } es := by
  unfold step
  rw [hpending]
  dsimp only
  rw [hinsn, hbefore]
  dsimp only
  rw [hes]
  rfl

/-- a step at an index without a frame -/
theorem step_skip {i : Nat} {rest : List Nat} (hpending : s.pending = i :: rest)
    (hnone : b.code[i]? = none ∨ s.frames[i]? = some none) : step b s = .ok { s with pending := rest } := by
  unfold step
  rw [hpending]
  dsimp only
  rcases hnone with hnone | hnone
  · rw [hnone]
  · rw [hnone]
    cases b.code[i]? <;> rfl

end

/-! ## what every step keeps -/

/-- A property of frames that instructions, handlers and joins keep, and an order of frames in which joins are
upper bounds. -/
structure Domain (b : Body) (S : Frame → Prop) (R : Frame → Frame → Prop) : Prop where
  refl : ∀ f, R f f
  trans : ∀ f g e, R f g → R g e → R f e
  apply : ∀ f g i, S f → f.apply i = .ok g → S g
  caught : ∀ f, ∀ h ∈ b.handlers, S f → S ⟨f.locals, [h.caught]⟩
  merge : ∀ f g e, S f → S g → f.merge b.program g = .ok e → S e ∧ R e f ∧ R e g
  targets : ∀ h ∈ b.handlers, h.target < b.code.length

/-- what flowed along an edge has arrived: the frame there is above it -/
def Reached (R : Frame → Frame → Prop) (frames : List (Option Frame)) (e : Edge) : Prop :=
  ∃ f, frames[e.1]? = some (some f) ∧ R f e.2

/-- everything that flows out of an instruction has arrived -/
def ReachedFrom (b : Body) (R : Frame → Frame → Prop) (frames : List (Option Frame)) (i : Nat) : Prop :=
  ∀ insn f, b.code[i]? = some insn → frames[i]? = some (some f) →
    ∃ es, edges b i insn f = .ok es ∧ ∀ e ∈ es, Reached R frames e

/-- every frame found has the property -/
def AllFrames (S : Frame → Prop) (frames : List (Option Frame)) : Prop :=
  ∀ (i : Nat) (f : Frame), frames[i]? = some (some f) → S f

/-- What a step of the work list may change: a frame changes only if its instruction is waiting
afterwards, and it then moves upward. -/
structure Advances (R : Frame → Frame → Prop) (s t : State) : Prop where
  length : t.frames.length = s.frames.length
  pending : ∀ i ∈ s.pending, i ∈ t.pending
  same : ∀ i : Nat, i ∉ t.pending → t.frames[i]? = s.frames[i]?
  upward : ∀ (i : Nat) (f : Frame), s.frames[i]? = some (some f) →
    ∃ g : Frame, t.frames[i]? = some (some g) ∧ R g f

section
variable {b : Body} {S : Frame → Prop} {R : Frame → Frame → Prop} {s t u : State} {e : Edge} {es : List Edge}

namespace Domain

theorem advances_refl (d : Domain b S R) (s : State) : Advances R s s :=
  ⟨rfl, fun _ h => h, fun _ _ => rfl, fun _ f h => ⟨f, h, d.refl f⟩⟩

theorem advances_trans (d : Domain b S R) (h : Advances R s t) (h' : Advances R t u) : Advances R s u := by
  refine ⟨h'.length.trans h.length, fun i hi => h'.pending i (h.pending i hi), fun i hi => ?_,
    fun i f hf => ?_⟩
  · rw [h'.same i hi, h.same i fun hmem => hi (h'.pending i hmem)]
  · obtain ⟨g, hg, hgf⟩ := h.upward i f hf
    obtain ⟨g', hg', hgg⟩ := h'.upward i g hg
    exact ⟨g', hg', d.trans _ _ _ hgg hgf⟩

theorem reached_advance (d : Domain b S R) (h : Reached R s.frames e) (ha : Advances R s t) :
    Reached R t.frames e := by
  obtain ⟨f, hf, hfe⟩ := h
  obtain ⟨g, hg, hgf⟩ := ha.upward e.1 f hf
  exact ⟨g, hg, d.trans _ _ _ hgf hfe⟩

theorem advances_arrive (d : Domain b S R) {i : Nat} {f : Frame} (hi : i < s.frames.length)
    (hf : ∀ g, s.frames[i]? = some (some g) → R f g) : Advances R s (arrive s i f) := by
  refine ⟨List.length_set, fun j hj => mem_pending_arrive.2 (.inl hj), fun j hj => ?_, fun j g hg => ?_⟩
  · have hne : i ≠ j := fun h => hj (mem_pending_arrive.2 (.inr h.symm))
    exact List.getElem?_set_ne hne
  · by_cases hij : i = j
    · subst hij
      exact ⟨f, List.getElem?_set_self hi, hf g hg⟩
    · exact ⟨g, by rw [← hg]; exact List.getElem?_set_ne hij, d.refl g⟩

end Domain

theorem AllFrames.arrive {i : Nat} {f : Frame} (hs : AllFrames S s.frames) (hf : S f) :
    AllFrames S (arrive s i f).frames := by
  intro j g hg
  have hget : ((s.frames.set i (some f))[j]?) = some (some g) := hg
  rw [List.getElem?_set] at hget
  split at hget
  · split at hget
    · obtain rfl : f = g := by simpa using hget
      exact hf
    · exact absurd hget (by simp)
  · exact hs j g hget

/-- **An edge** that carries a frame with the property arrives -/
theorem Domain.flow (d : Domain b S R) (hs : AllFrames S s.frames) (hlt : e.1 < s.frames.length) (he : S e.2)
    (h : flow b s e = .ok t) : Advances R s t ∧ AllFrames S t.frames ∧ Reached R t.frames e := by
  have hself (f : Frame) : (arrive s e.1 f).frames[e.1]? = some (some f) := List.getElem?_set_self hlt
  rcases flow_cases h with ⟨old, hold, hmerge, rfl⟩ | ⟨old, g, hold, hmerge, -, rfl⟩ | ⟨hnone, rfl⟩
  · obtain ⟨-, -, hge⟩ := d.merge _ _ _ (hs e.1 old hold) he hmerge
    exact ⟨d.advances_refl _, hs, old, hold, hge⟩
  · obtain ⟨hg, hgold, hge⟩ := d.merge _ _ _ (hs e.1 old hold) he hmerge
    refine ⟨d.advances_arrive hlt fun f hf => ?_, hs.arrive hg, g, hself g, hge⟩
    rw [hold] at hf
    obtain rfl : old = f := by simpa using hf
    exact hgold
  · exact ⟨d.advances_arrive hlt fun f hf => absurd hf (hnone f), hs.arrive he, e.2, hself e.2, d.refl e.2⟩

theorem Domain.flowAll (d : Domain b S R) (hs : AllFrames S s.frames)
    (hes : ∀ e ∈ es, e.1 < s.frames.length ∧ S e.2) (h : flowAll b s es = .ok t) :
    Advances R s t ∧ AllFrames S t.frames ∧ ∀ e ∈ es, Reached R t.frames e := by
  induction es generalizing s with
  | nil =>
    obtain rfl : s = t := by simpa [Flow.flowAll] using h
    exact ⟨d.advances_refl s, hs, fun e he => absurd he (by simp)⟩
  | cons e es ih =>
    rw [Flow.flowAll] at h
    obtain ⟨s', hs', h⟩ := Effect.bind_eq_ok h
    obtain ⟨hlt, he⟩ := hes e List.mem_cons_self
    obtain ⟨hadv, hall, hreached⟩ := d.flow hs hlt he hs'
    obtain ⟨hadv', hall', hreached'⟩ := ih hall (fun e' he' => by
      obtain ⟨hlt', hS'⟩ := hes e' (List.mem_cons_of_mem _ he')
      exact ⟨by rw [hadv.length]; exact hlt', hS'⟩) h
    refine ⟨d.advances_trans hadv hadv', hall', fun e' he' => ?_⟩
    rcases List.mem_cons.1 he' with rfl | he'
    · exact d.reached_advance hreached hadv'
    · exact hreached' e' he'

/-- what flows out of an instruction has the property and stays in the code -/
theorem Domain.edges (d : Domain b S R) {i : Nat} {insn : Insn} {before : Frame} (hbefore : S before)
    (h : edges b i insn before = .ok es) : ∀ e ∈ es, e.1 < b.code.length ∧ S e.2 := by
  obtain ⟨after, hes⟩ := edges_ok h
  intro e he
  rcases hes.only e he with ⟨h, hh, rfl⟩ | ⟨hlt, heq⟩
  · exact ⟨d.targets h hh, d.caught _ h hh hbefore⟩
  · exact ⟨hlt, by rw [heq]; exact d.apply _ _ _ hbefore hes.applied⟩

/-- everything has arrived that flows out of an instruction that does not wait -/
structure Inv (b : Body) (S : Frame → Prop) (R : Frame → Frame → Prop) (entry : Frame) (s : State) : Prop where
  length : s.frames.length = b.code.length
  all : AllFrames S s.frames
  entry : Reached R s.frames (0, entry)
  closed : ∀ i, i ∉ s.pending → ReachedFrom b R s.frames i

variable {entry : Frame}

theorem Inv.step (d : Domain b S R) (hinv : Inv b S R entry s) (h : step b s = .ok t) : Inv b S R entry t := by
  rcases step_cases h with ⟨-, rfl⟩ | ⟨i, rest, hpending, ⟨hnone, rfl⟩ | ⟨insn, before, es, hinsn, hbefore, hes, h⟩⟩
  · exact hinv
  · refine ⟨hinv.length, hinv.all, hinv.entry, fun j hj => ?_⟩
    by_cases hji : j = i
    · subst hji
      intro insn f hinsn hf
      exact absurd hf (hnone insn f hinsn)
    · exact hinv.closed j (by rw [hpending]; simp [show j ∉ rest from hj, hji])
  · have hout := d.edges (hinv.all i before hbefore) hes
    obtain ⟨hadv, hall, hreached⟩ := d.flowAll (s := { s with pending := rest }) hinv.all
      (fun e he => by rw [hinv.length]; exact hout e he) h
    refine ⟨hadv.length.trans hinv.length, hall, d.reached_advance (s := { s with pending := rest }) hinv.entry hadv,
      fun j hj insn' f hinsn' hf => ?_⟩
    rw [hadv.same j hj] at hf
    have hf : s.frames[j]? = some (some f) := hf
    by_cases hji : j = i
    · subst hji
      rw [hinsn] at hinsn'
      obtain rfl := Option.some.inj hinsn'
      rw [hbefore] at hf
      obtain rfl : before = f := by simpa using hf
      exact ⟨es, hes, hreached⟩
    · have hrest : j ∉ rest := fun hmem => hj (hadv.pending j hmem)
      obtain ⟨es', hes', hreached'⟩ := hinv.closed j (by rw [hpending]; simp [hrest, hji]) insn' f hinsn' hf
      exact ⟨es', hes', fun e he =>
        d.reached_advance (s := { s with pending := rest }) (hreached' e he) hadv⟩

theorem Inv.run (d : Domain b S R) {fuel : Nat} (hinv : Inv b S R entry s) (h : run b fuel s = .ok t) :
    Inv b S R entry t ∧ t.pending = [] := by
  induction fuel generalizing s with
  | zero =>
    rw [Flow.run] at h
    split at h
    · rename_i hempty
      injection h with h
      rw [← h]
      exact ⟨hinv, List.isEmpty_iff.1 hempty⟩
    · exact absurd h (by simp)
  | succ fuel ih =>
    rw [Flow.run] at h
    split at h
    · rename_i hempty
      injection h with h
      rw [← h]
      exact ⟨hinv, List.isEmpty_iff.1 hempty⟩
    · obtain ⟨s', hs', h⟩ := Effect.bind_eq_ok h
      exact ih (hinv.step d hs') h

/-- only the first instruction has a frame at the start -/
theorem getElem?_start {code : List Insn} {i : Nat} {f : Frame}
    (hf : (start code entry).frames[i]? = some (some f)) : i = 0 ∧ f = entry := by
  cases i with
  | zero => exact ⟨rfl, by simpa [start] using hf.symm⟩
  | succ i =>
    have hrep : (List.replicate (code.length - 1) (none : Option Frame))[i]? = some (some f) := hf
    rw [List.getElem?_replicate] at hrep
    split at hrep <;> exact absurd hrep (by simp)

theorem length_start {code : List Insn} (hne : code ≠ []) : (start code entry).frames.length = code.length := by
  have hpos := List.length_pos_iff.2 hne
  show (some entry :: List.replicate (code.length - 1) none).length = code.length
  rw [List.length_cons, List.length_replicate]
  omega

theorem Domain.inv_start (d : Domain b S R) (hne : b.code ≠ []) (hentry : S entry) :
    Inv b S R entry (start b.code entry) := by
  refine ⟨length_start hne, fun i f hf => ?_, ⟨entry, rfl, d.refl entry⟩, fun i hi insn f _ hf => ?_⟩
  · rw [(getElem?_start hf).2]
    exact hentry
  · exact absurd (getElem?_start hf).1 fun h => hi (by rw [h]; exact List.mem_singleton_self 0)

end

/-! ## the frames of a method -/

/-- frames with a property that solve the flow equations in an order -/
structure Solved (b : Body) (S : Frame → Prop) (R : Frame → Frame → Prop) (entry : Frame)
    (frames : List (Option Frame)) : Prop where
  length : frames.length = b.code.length
  all : AllFrames S frames
  entry : Reached R frames (0, entry)
  closed : ∀ i, ReachedFrom b R frames i

theorem handler_ok {code : List Insn} {t : TryCatch} {h : Handler} (hh : handler code t = .ok h) :
    labelPosition t.start code = some h.start ∧ labelPosition t.stop code = some h.stop ∧
      labelPosition t.handler code = some h.target ∧ h.caught.kind? = some .ref := by
  have hpos {l : Label} {n : Nat} (hl : tablePosition code l = .ok n) :
      labelPosition l code = some n := by
    unfold tablePosition at hl
    split at hl
    · rename_i n' hn
      injection hl with hl
      rw [hn, hl]
    · exact absurd hl (by simp)
  unfold handler at hh
  obtain ⟨start, hstart, hh⟩ := Effect.bind_eq_ok hh
  obtain ⟨stop, hstop, hh⟩ := Effect.bind_eq_ok hh
  obtain ⟨target, htarget, hh⟩ := Effect.bind_eq_ok hh
  injection hh with hh
  rw [← hh]
  exact ⟨hpos hstart, hpos hstop, hpos htarget, rfl⟩

/-- what a handler catches is a reference to what its region names -/
theorem handler_caught {code : List Insn} {t : TryCatch} {h : Handler} (hh : handler code t = .ok h) :
    h.caught = .ref (t.catchType.getD throwableType) := by
  obtain ⟨start, -, hh⟩ := Effect.bind_eq_ok hh
  obtain ⟨stop, -, hh⟩ := Effect.bind_eq_ok hh
  obtain ⟨target, -, hh⟩ := Effect.bind_eq_ok hh
  rw [← Except.ok.inj hh]

/-- a list of results that were computed one by one -/
theorem mapM_ok {α β ε : Type} {f : α → Except ε β} {xs : List α} {ys : List β}
    (h : xs.mapM f = .ok ys) : (∀ x ∈ xs, ∃ y ∈ ys, f x = .ok y) ∧ ∀ y ∈ ys, ∃ x ∈ xs, f x = .ok y := by
  induction xs generalizing ys with
  | nil =>
    obtain rfl : [] = ys := by simpa [pure, Except.pure] using h
    exact ⟨fun x hx => absurd hx (by simp), fun y hy => absurd hy (by simp)⟩
  | cons x xs ih =>
    rw [List.mapM_cons] at h
    obtain ⟨y, hy, h⟩ := Effect.bind_eq_ok h
    obtain ⟨ys', hys', h⟩ := Effect.bind_eq_ok h
    obtain rfl : y :: ys' = ys := by simpa [pure, Except.pure] using h
    obtain ⟨h1, h2⟩ := ih hys'
    constructor
    · intro x' hx'
      rcases List.mem_cons.1 hx' with rfl | hx'
      · exact ⟨y, List.mem_cons_self, hy⟩
      · obtain ⟨y', hy', hf⟩ := h1 x' hx'
        exact ⟨y', List.mem_cons_of_mem _ hy', hf⟩
    · intro y' hy'
      rcases List.mem_cons.1 hy' with rfl | hy'
      · exact ⟨x, List.mem_cons_self, hy⟩
      · obtain ⟨x', hx', hf⟩ := h2 y' hy'
        exact ⟨x', List.mem_cons_of_mem _ hx', hf⟩

/-- handlers lead into the code -/
theorem handlers_target {code : List Insn} {table : List TryCatch} {handlers : List Handler}
    (h : table.mapM (handler code) = .ok handlers) : ∀ h ∈ handlers, h.target < code.length := by
  intro h' hh
  obtain ⟨t, -, ht⟩ := (mapM_ok h).2 h' hh
  exact labelPosition_lt (handler_ok ht).2.2.1

/-- **The frames of a method** solve its flow equations -/
theorem frames_solved {p : Program} {code : List Insn} {table : List TryCatch} {entry : Frame}
    {S : Frame → Prop} {R : Frame → Frame → Prop} {fs : List (Option Frame)}
    (hd : ∀ handlers, table.mapM (handler code) = .ok handlers → Domain ⟨code, handlers, p⟩ S R)
    (hentry : S entry) (h : frames p code table entry = .ok fs) :
    ∃ handlers, table.mapM (handler code) = .ok handlers ∧ Solved ⟨code, handlers, p⟩ S R entry fs := by
  unfold frames at h
  obtain ⟨handlers, hhandlers, h⟩ := Effect.bind_eq_ok h
  split at h
  · exact absurd h (by simp)
  · rename_i hne
    obtain ⟨s, hs, h⟩ := Effect.bind_eq_ok h
    injection h with h
    subst h
    have d := hd handlers hhandlers
    have hstart : Inv ⟨code, handlers, p⟩ S R entry (start code entry) :=
      d.inv_start (fun hnil => hne (by rw [show code = [] from hnil]; rfl)) hentry
    obtain ⟨hinv, hempty⟩ := hstart.run d hs
    exact ⟨handlers, hhandlers, hinv.length, hinv.all, hinv.entry,
      fun i => hinv.closed i (by rw [hempty]; simp)⟩

end Flow
end Resumable
