import Resumable.Proofs.Frames
import Resumable.Proofs.WorkList

/-!
# The work list settles

When the work list of the analysis is empty, the frames are sound and solve the flow equations: a frame takes
nothing for granted beyond what has arrived there.

* `Flow.Arrived`, `Flow.Closed` : an edge has arrived, all edges of an instruction have;
* `Flow.frames_settled` : the frames of a method;
* `Analysis.ofTable?_sound` : an analysis, whose frames have hints.
-/

namespace Resumable
namespace Flow

/-- what flowed along an edge has arrived: the frame there takes nothing for granted beyond it -/
def Arrived (p : Program) (frames : List (Option Frame)) (e : Edge) : Prop :=
  ∃ f, frames[e.1]? = some (some f) ∧ f.Above p e.2

/-- everything that flows out of an instruction has arrived -/
def Closed (b : Body) (frames : List (Option Frame)) (i : Nat) : Prop :=
  ∀ insn f, b.code[i]? = some insn → frames[i]? = some (some f) →
    ∃ es, edges b i insn f = .ok es ∧ ∀ e ∈ es, Arrived b.program frames e

/-- every frame found is sound -/
def AllSound (n : Nat) (frames : List (Option Frame)) : Prop :=
  ∀ (i : Nat) (f : Frame), frames[i]? = some (some f) → f.Sound n

/-- instructions, handlers and joins keep frames sound, and a join takes nothing for granted -/
theorem domain_sound {p : Program} {code : List Insn} {table : List TryCatch} {handlers : List Handler}
    (h : table.mapM (handler code) = .ok handlers) (n : Nat) :
    Domain ⟨code, handlers, p⟩ (Frame.Sound n) (Frame.Above p) where
  refl := Frame.Above.refl p
  trans _ _ _ hf hg := hf.trans hg
  apply _ _ _ hf happly := hf.apply happly
  caught f h' hh hf := by
    obtain ⟨t, -, ht⟩ := (mapM_ok h).2 h' hh
    refine ⟨hf.length, hf.wide, fun c hc => ?_⟩
    obtain rfl := List.mem_singleton.1 hc
    exact ⟨.ref, (handler_ok ht).2.2.2⟩
  merge _ _ _ hf hg hmerge := hf.merge hg hmerge
  targets := handlers_target h

/-! ## the frames of a method -/

/-- frames that solve the flow equations of a method -/
structure Settled (b : Body) (n : Nat) (entry : Frame) (frames : List (Option Frame)) : Prop where
  length : frames.length = b.code.length
  sound : AllSound n frames
  entry : Arrived b.program frames (0, entry)
  closed : ∀ i, Closed b frames i

/-- **The frames of a method** solve its flow equations -/
theorem frames_settled {p : Program} {code : List Insn} {table : List TryCatch} {entry : Frame}
    {n : Nat} {fs : List (Option Frame)} (hentry : entry.Sound n)
    (h : frames p code table entry = .ok fs) :
    ∃ handlers, table.mapM (handler code) = .ok handlers ∧
      Settled ⟨code, handlers, p⟩ n entry fs := by
  obtain ⟨handlers, hhandlers, hsolved⟩ := frames_solved (fun _ hh => domain_sound hh n) hentry h
  exact ⟨handlers, hhandlers, hsolved.length, hsolved.all, hsolved.entry, hsolved.closed⟩

end Flow

/-! ## hints -/

/-- a category with a hint: what was only known to be null may be a reference to a type -/
def Category.Hinted (c d : Category) : Prop := d = c ∨ c = .null ∧ ∃ t, d = .ref t

namespace Category.Hinted

variable {c d e : Category}

theorem trans (h : c.Hinted d) (h' : d.Hinted e) : c.Hinted e := by
  rcases h with rfl | ⟨rfl, t, rfl⟩
  · exact h'
  · rcases h' with rfl | ⟨h', -⟩
    · exact .inr ⟨rfl, t, rfl⟩
    · exact absurd h' (by simp)

theorem kind (h : c.Hinted d) : d.kind? = c.kind? := by
  rcases h with rfl | ⟨rfl, t, rfl⟩ <;> rfl

end Category.Hinted

/-- a frame with hints for locals -/
structure Frame.Hinted (f g : Frame) : Prop where
  stack : g.stack = f.stack
  locals : List.Forall₂ Category.Hinted f.locals g.locals

namespace Frame.Hinted

variable {f g e : Frame} {n i : Nat} {c d : Category}

theorem refl (f : Frame) : f.Hinted f := ⟨rfl, List.forall₂_same.2 fun _ _ => .inl rfl⟩

theorem trans (h : f.Hinted g) (h' : g.Hinted e) : f.Hinted e := by
  refine ⟨h'.stack.trans h.stack, List.forall₂_iff_get.2
    ⟨h.locals.length_eq.trans h'.locals.length_eq, fun i h1 h2 => ?_⟩⟩
  exact ((List.forall₂_iff_get.1 h.locals).2 i h1 (h.locals.length_eq ▸ h1)).trans
    ((List.forall₂_iff_get.1 h'.locals).2 i _ h2)

theorem length (h : f.Hinted g) : g.locals.length = f.locals.length := h.locals.length_eq.symm

/-- the local without hint -/
theorem «local» (h : f.Hinted g) (hd : g.locals[i]? = some d) :
    ∃ c, f.locals[i]? = some c ∧ c.Hinted d := by
  obtain ⟨hlt, rfl⟩ := List.getElem?_eq_some_iff.1 hd
  have hlt' : i < f.locals.length := h.length ▸ hlt
  exact ⟨_, List.getElem?_eq_getElem hlt', (List.forall₂_iff_get.1 h.locals).2 i hlt' hlt⟩

/-- the local with a hint, if there is one -/
theorem hint (h : f.Hinted g) (hc : f.locals[i]? = some c) :
    ∃ d, g.locals[i]? = some d ∧ c.Hinted d := by
  obtain ⟨hlt, rfl⟩ := List.getElem?_eq_some_iff.1 hc
  have hlt' : i < g.locals.length := h.length ▸ hlt
  exact ⟨_, List.getElem?_eq_getElem hlt', (List.forall₂_iff_get.1 h.locals).2 i hlt hlt'⟩

/-- the local of the other frame is of the same kind -/
theorem local_kind (h : f.Hinted g) (hd : g.locals[i]? = some d) :
    ∃ c, f.locals[i]? = some c ∧ c.kind? = d.kind? := by
  obtain ⟨c, hc, hcd⟩ := h.local hd
  exact ⟨c, hc, hcd.kind.symm⟩

theorem covers (h : f.Hinted g) : g.Covers f := by
  intro i c k hc hk
  obtain ⟨d, hd, hkd⟩ := h.local_kind hc
  exact ⟨d, hd, by rw [hkd, hk]⟩

/-- hints do not take locals for values of another kind -/
theorem covered (h : f.Hinted g) : f.Covers g := by
  intro i c k hc hk
  obtain ⟨d, hd, hcd⟩ := h.hint hc
  exact ⟨d, hd, by rw [hcd.kind, hk]⟩

theorem sound (h : f.Hinted g) (hf : f.Sound n) : g.Sound n := by
  refine ⟨h.length.trans hf.length, ?_, ?_⟩
  · intro i c hc h2
    obtain ⟨k, hk⟩ := Category.kind?_of_width h2
    obtain ⟨d, hd, hkd⟩ := h.local_kind hc
    have hd2 : d.width = 2 := by
      rw [Category.width_eq_of_kind? (hkd.trans hk), ← Category.width_eq_of_kind? hk, h2]
    obtain ⟨e, he, hnone⟩ := hf.wide i d hd hd2
    obtain ⟨e', he', hhint⟩ := h.hint he
    exact ⟨e', he', hhint.kind.trans hnone⟩
  · intro c hc
    rw [h.stack] at hc
    exact hf.loaded c hc

end Frame.Hinted

namespace Analysis

/-- frames with hints -/
structure FramesHinted (fs gs : List (Option Frame)) : Prop where
  length : gs.length = fs.length
  hinted : ∀ (i : Nat) (g : Frame), gs[i]? = some (some g) →
    ∃ f, fs[i]? = some (some f) ∧ f.Hinted g
  kept : ∀ (i : Nat) (f : Frame), fs[i]? = some (some f) → ∃ g, gs[i]? = some (some g)

theorem FramesHinted.refl (fs : List (Option Frame)) : FramesHinted fs fs :=
  ⟨rfl, fun _ g hg => ⟨g, hg, .refl g⟩, fun _ f hf => ⟨f, hf⟩⟩

theorem FramesHinted.trans {fs gs es : List (Option Frame)} (h : FramesHinted fs gs)
    (h' : FramesHinted gs es) : FramesHinted fs es := by
  refine ⟨h'.length.trans h.length, fun i e he => ?_, fun i f hf => ?_⟩
  · obtain ⟨g, hg, hge⟩ := h'.hinted i e he
    obtain ⟨f, hf, hfg⟩ := h.hinted i g hg
    exact ⟨f, hf, hfg.trans hge⟩
  · obtain ⟨g, hg⟩ := h.kept i f hf
    exact h'.kept i g hg

theorem hinted_hintLocal (slot : Nat) (type : String) (f : Frame) :
    f.Hinted (hintLocal slot type f) := by
  unfold hintLocal
  split
  · rename_i hnull
    obtain ⟨hlt, hget⟩ := List.getElem?_eq_some_iff.1 hnull
    refine ⟨rfl, List.forall₂_iff_get.2 ⟨by rw [List.length_set], fun i h1 h2 => ?_⟩⟩
    by_cases hi : slot = i
    · subst hi
      exact .inr ⟨hget, type, by simp⟩
    · exact .inl (by simp [List.getElem_set_ne hi])
  · exact .refl f

theorem framesHinted_hintRange (start stop slot : Nat) (type : String)
    (fs : List (Option Frame)) : FramesHinted fs (hintRange start stop slot type fs) := by
  have hget (i : Nat) : (hintRange start stop slot type fs)[i]? = fs[i]?.map fun f =>
      if start ≤ i && i < stop then f.map (hintLocal slot type) else f := by
    unfold hintRange
    rw [List.getElem?_mapIdx]
  refine ⟨by rw [hintRange, List.length_mapIdx], fun i g hg => ?_, fun i f hf => ?_⟩
  · rw [hget] at hg
    cases hf : fs[i]? with
    | none => rw [hf] at hg; exact absurd hg (by simp)
    | some f =>
      rw [hf, Option.map_some] at hg
      injection hg with hg
      split at hg
      · cases f with
        | none => exact absurd hg (by simp)
        | some f =>
          injection hg with hg
          exact ⟨f, rfl, by rw [← hg]; exact hinted_hintLocal slot type f⟩
      · exact ⟨g, by rw [hg], .refl g⟩
  · rw [hget, hf, Option.map_some]
    split
    · exact ⟨_, rfl⟩
    · exact ⟨f, rfl⟩

theorem framesHinted_applyHints {code : List Insn} {fs gs : List (Option Frame)}
    {vs : List LocalVar} (h : applyHints code fs vs = .ok gs) : FramesHinted fs gs := by
  unfold applyHints at h
  induction vs generalizing fs with
  | nil =>
    obtain rfl : fs = gs := by simpa [pure, Except.pure] using h
    exact .refl fs
  | cons v vs ih =>
    rw [List.foldlM_cons] at h
    obtain ⟨fs', hfs', h⟩ := Effect.bind_eq_ok h
    refine FramesHinted.trans ?_ (ih h)
    unfold applyHint at hfs'
    split at hfs'
    · obtain ⟨start, -, hfs'⟩ := Effect.bind_eq_ok hfs'
      obtain ⟨stop, -, hfs'⟩ := Effect.bind_eq_ok hfs'
      injection hfs' with hfs'
      rw [← hfs']
      exact framesHinted_hintRange start stop v.slot.toNat _ fs
    · injection hfs' with hfs'
      rw [← hfs']
      exact .refl fs

/-! ## the frame at the start -/

theorem wideOk_append {as bs : List Category} (ha : WideOk as) (hb : WideOk bs) :
    WideOk (as ++ bs) := by
  intro i c hc h2
  by_cases hi : i < as.length
  · rw [List.getElem?_append_left hi] at hc
    obtain ⟨d, hd, hnone⟩ := ha i c hc h2
    refine ⟨d, ?_, hnone⟩
    rw [List.getElem?_append_left (List.getElem?_eq_some_iff.1 hd).1, hd]
  · rw [List.getElem?_append_right (by omega)] at hc
    obtain ⟨d, hd, hnone⟩ := hb _ c hc h2
    refine ⟨d, ?_, hnone⟩
    rw [List.getElem?_append_right (by omega), ← hd]
    congr 1
    omega

theorem wideOk_narrow {as : List Category} (h : ∀ c ∈ as, c.width ≠ 2) : WideOk as :=
  fun _ c hc h2 => absurd h2 (h c (List.mem_of_getElem? hc))

theorem wideOk_slots (c : Category) : WideOk (Frame.slots c) := by
  unfold Frame.slots
  split
  · intro i d hd h2
    match i with
    | 0 => exact ⟨.empty, rfl, rfl⟩
    | 1 =>
      obtain rfl : Category.empty = d := by simpa using hd
      exact absurd h2 (by simp [Category.width])
    | _ + 2 => exact absurd hd (by simp)
  · rename_i h2
    refine wideOk_narrow fun d hd => ?_
    rw [List.mem_singleton.1 hd]
    exact h2

theorem wideOk_flatMap_slots (ts : List FieldType) :
    WideOk (ts.flatMap fun t => Frame.slots (.ofType t)) := by
  induction ts with
  | nil => exact wideOk_narrow fun c hc => absurd hc (by simp)
  | cons t ts ih =>
    rw [List.flatMap_cons]
    exact wideOk_append (wideOk_slots _) ih

/-- the frame at the start of a method is sound -/
theorem sound_entry (owner : String) (isStatic : Bool) (desc : MethodDesc) (maxLocals : Nat) :
    (Frame.entry owner isStatic desc maxLocals).Sound
      (Frame.entry owner isStatic desc maxLocals).locals.length := by
  refine ⟨rfl, ?_, fun c hc => absurd hc (by simp [Frame.stack_entry])⟩
  refine wideOk_append (wideOk_append ?_ (wideOk_flatMap_slots _)) ?_
  · refine wideOk_narrow fun c hc => ?_
    cases isStatic with
    | true => exact absurd hc (by simp)
    | false =>
      obtain rfl : c = .ref owner := by simpa using hc
      simp [Category.width]
  · refine wideOk_narrow fun c hc => ?_
    rw [List.eq_of_mem_replicate hc]
    simp [Category.width]

/-! ## the analysis -/

/-- what an analysis knows about the method it was made of -/
structure Sound (a : Analysis) (p : Program) (owner : String) (m : Method) : Prop where
  method : a.method = m.id owner
  isStatic : a.isStatic = m.isStatic
  insns : a.insns = m.code
  settled : ∃ desc handlers fs, MethodDesc.parse? m.desc = some desc ∧
    m.tryCatches.mapM (Flow.handler m.code) = .ok handlers ∧
    Flow.Settled ⟨m.code, handlers, p⟩
      (Frame.entry owner m.isStatic desc m.maxLocals.toNat).locals.length
      (Frame.entry owner m.isStatic desc m.maxLocals.toNat) fs ∧
    FramesHinted fs a.frames

theorem definiteFrames_settled {p : Program} {owner : String} {m : Method}
    {gs : List (Option Frame)} (h : definiteFrames p owner m = .ok gs) :
    ∃ desc handlers fs, MethodDesc.parse? m.desc = some desc ∧
      m.tryCatches.mapM (Flow.handler m.code) = .ok handlers ∧
      Flow.Settled ⟨m.code, handlers, p⟩
        (Frame.entry owner m.isStatic desc m.maxLocals.toNat).locals.length
        (Frame.entry owner m.isStatic desc m.maxLocals.toNat) fs ∧
      FramesHinted fs gs := by
  unfold definiteFrames at h
  split at h
  · exact absurd h (by simp)
  · rename_i desc hdesc
    obtain ⟨fs, hfs, h⟩ := Effect.bind_eq_ok h
    obtain ⟨gs', hgs', h⟩ := Effect.bind_eq_ok h
    obtain ⟨_, -, h⟩ := Effect.bind_eq_ok h
    injection h with h
    subst h
    obtain ⟨handlers, hhandlers, hsettled⟩ :=
      Flow.frames_settled (sound_entry owner m.isStatic desc m.maxLocals.toNat) hfs
    exact ⟨desc, handlers, fs, hdesc, hhandlers, hsettled, framesHinted_applyHints hgs'⟩

theorem analyze_sound {p : Program} {owner : String} {m : Method} {declared : List RestorePoint}
    {rootEntry : Bool} {a : Analysis} (h : analyze p owner m declared rootEntry = .ok a) :
    a.Sound p owner m := by
  unfold analyze at h
  split at h
  · exact absurd h (by simp)
  · rename_i frames hframes
    injection h with h
    subst h
    exact ⟨rfl, rfl, rfl, definiteFrames_settled hframes⟩

theorem ofProvider?_sound {p : Program} {s : SpecProvider} {owner : String} {m : Method} {a : Analysis}
    (h : ofProvider? p s owner m = .ok (some a)) : a.Sound p owner m := by
  unfold ofProvider? at h
  split at h
  · exact absurd h (by simp)
  · rename_i declared hdeclared
    cases ha : analyze p owner m declared (s.isEntry (m.id owner)) with
    | error e => rw [ha] at h; exact absurd h (by simp [Except.map])
    | ok a' =>
      rw [ha] at h
      obtain rfl : a' = a := by simpa [Except.map] using h
      exact analyze_sound ha

/-- **The analysis that a table asks for** is sound -/
theorem ofTable?_sound {p : Program} {t : RestoreTable} {owner : String} {m : Method} {a : Analysis}
    (h : ofTable? p t owner m = .ok (some a)) : a.Sound p owner m := ofProvider?_sound h

/-- every frame of a sound analysis is sound -/
theorem Sound.frame {a : Analysis} {p : Program} {owner : String} {m : Method}
    (ha : a.Sound p owner m) {i : Nat} {f : Frame} (hf : a.frames[i]? = some (some f)) :
    ∃ n, f.Sound n := by
  obtain ⟨desc, handlers, fs, -, -, hsettled, hhinted⟩ := ha.settled
  obtain ⟨f', hf', hh⟩ := hhinted.hinted i f hf
  exact ⟨_, hh.sound (hsettled.sound i f' hf')⟩

end Analysis
end Resumable
