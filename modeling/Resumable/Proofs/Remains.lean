import Resumable.Proofs.Coverage
import Resumable.Proofs.Refusals
import Resumable.Proofs.WorkList

/-!
# What remains of a region

However excluded ranges lie to one another, be they empty, nested, or overlapping, what clipping leaves of a
region is determined by them: the pieces lie apart, in order, clear of all excluded ranges, they hold each
position that is not excluded, and they end where the region or an excluded range does.  So each entry of a table
gives entries of which exactly one covers an instruction that it covered and that is not excluded.

* `Region.Loop.unique` : the loop ends in one way;
* `Region.Remains`, `Region.pieces_remains` : what remains of a region;
* `Region.Remains.parts` : a position that is not excluded lies in one piece;
* `collectEntries_pieces_eq` : the entries for the pieces that hold an instruction;
* `TryCatch.Split`, `splitRegions_exact` : the entries that remain of each entry of a table.
-/

namespace Resumable
namespace Region

variable {r a b s ex : Region} {exs rs pending found : List Region} {fuel length q : Nat}

/-- the first clip of the next piece says what the loop does -/
theorem loop_cons_iff {end? : Option (List Region)} : Loop exs (r :: pending) found end? ↔
    match r.firstClip exs with
    | .keep => Loop exs pending (found ++ [r]) end?
    | .split a b => Loop exs (a :: b :: pending) found end?
    | .trim a => Loop exs (a :: pending) found end?
    | .inside => end? = none := by
  constructor
  · intro h
    cases h with
    | keep hclip next => rw [hclip]; exact next
    | split hclip next => rw [hclip]; exact next
    | trim hclip next => rw [hclip]; exact next
    | inside hclip => rw [hclip]
  · intro h
    split at h
    · exact .keep ‹_› h
    · exact .split ‹_› h
    · exact .trim ‹_› h
    · rw [h]
      exact .inside ‹_›

/-- **The loop ends in one way** -/
theorem Loop.unique {end? end?' : Option (List Region)} (h : Loop exs pending found end?)
    (h' : Loop exs pending found end?') : end? = end?' := by
  induction h with
  | done =>
    cases h'
    rfl
  | keep hclip _ ih =>
    rw [loop_cons_iff, hclip] at h'
    exact ih h'
  | split hclip _ ih =>
    rw [loop_cons_iff, hclip] at h'
    exact ih h'
  | trim hclip _ ih =>
    rw [loop_cons_iff, hclip] at h'
    exact ih h'
  | inside hclip =>
    rw [loop_cons_iff, hclip] at h'
    exact h'.symm

/-! ## one clip -/

/-- all of a region is excluded at once: an excluded range holds it and does not just touch it -/
structure Holds (ex r : Region) : Prop where
  start : ex.start ≤ r.start
  stop : r.stop ≤ ex.stop
  meets : ex.start < r.stop ∧ r.start < ex.stop

/-- the ends of a piece are those of the region, or excluded ranges set them -/
structure EndsOf (exs : List Region) (r s : Region) : Prop where
  start : s.start = r.start ∨ ∃ ex ∈ exs, ex.stop = s.start
  stop : s.stop = r.stop ∨ ∃ ex ∈ exs, ex.start = s.stop

theorem EndsOf.refl (exs : List Region) (r : Region) : EndsOf exs r r := ⟨.inl rfl, .inl rfl⟩

theorem EndsOf.trans (h : EndsOf exs r a) (h' : EndsOf exs a s) : EndsOf exs r s := by
  refine ⟨?_, ?_⟩
  · rcases h'.start with hs | hs
    · rw [hs]
      exact h.start
    · exact .inr hs
  · rcases h'.stop with hs | hs
    · rw [hs]
      exact h.stop
    · exact .inr hs

theorem clip_eq_inside_iff : r.clip ex = .inside ↔ ex.Holds r := by
  unfold clip
  split
  · exact ⟨fun h => absurd h (by simp), fun h => by
      have := h.meets
      omega⟩
  · rename_i hmeet
    by_cases h1 : r.start < ex.start <;> by_cases h2 : ex.stop < r.stop <;>
      simp only [h1, h2, decide_true, decide_false, reduceCtorEq, false_iff, true_iff]
    · exact fun h => absurd h.start (by omega)
    · exact fun h => absurd h.start (by omega)
    · exact fun h => absurd h.stop (by omega)
    · exact ⟨by omega, by omega, by omega, by omega⟩

/-- what the first clip makes of a region when no excluded range ends before it starts -/
inductive Clip.Cuts (exs : List Region) (r : Region) : Clip → Prop
  | keep (clear : ∀ ex ∈ exs, ex.stop ≤ r.start ∨ r.stop ≤ ex.start) : Clip.Cuts exs r .keep
  | trim {a : Region} (rest : a.PartOf r) (ends : EndsOf exs r a) : Clip.Cuts exs r (.trim a)
  | split {a b : Region} (left : a.PartOf r) (right : b.PartOf r) (endsLeft : EndsOf exs r a)
      (endsRight : EndsOf exs r b) (apart : a.stop ≤ b.start) : Clip.Cuts exs r (.split a b)
  | inside {ex : Region} (mem : ex ∈ exs) (holds : ex.Holds r) : Clip.Cuts exs r .inside

theorem clip_cuts (hordered : ex.start ≤ ex.stop) (hex : ex ∈ exs) (hne : r.clip ex ≠ .keep) :
    (r.clip ex).Cuts exs r := by
  have hshort := clip_shortens r ex
  have hstart : ∃ e ∈ exs, e.start = ex.start := ⟨ex, hex, rfl⟩
  have hstop : ∃ e ∈ exs, e.stop = ex.stop := ⟨ex, hex, rfl⟩
  unfold clip at hne hshort ⊢
  split at hne
  · exact absurd rfl hne
  · rename_i hmeet
    rw [if_neg hmeet] at hshort ⊢
    by_cases h1 : r.start < ex.start <;> by_cases h2 : ex.stop < r.stop <;>
      simp only [h1, h2, decide_true, decide_false] at hshort ⊢
    · cases hshort with
      | split left right => exact .split left right ⟨.inl rfl, .inr hstart⟩ ⟨.inr hstop, .inl rfl⟩ hordered
    · cases hshort with
      | trim rest => exact .trim rest ⟨.inl rfl, .inr hstart⟩
    · cases hshort with
      | trim rest => exact .trim rest ⟨.inr hstop, .inl rfl⟩
    · exact .inside hex ⟨by omega, by omega, by omega, by omega⟩

/-- **The first clip** cuts at the ends of an excluded range -/
theorem firstClip_cuts (hexs : ∀ ex ∈ exs, ex.start ≤ ex.stop) (r : Region) :
    (r.firstClip exs).Cuts exs r := by
  rcases firstClip_eq r exs with ⟨hfirst, hall⟩ | ⟨ex, hex, hfirst, hne⟩
  · rw [hfirst]
    exact .keep fun ex hex => clip_eq_keep (hall ex hex)
  · rw [hfirst]
    exact clip_cuts (hexs ex hex) hex hne

/-! ## all clips -/

/-- What remains of a region: parts of it that lie apart, in order, clear of all excluded ranges, and hold what
is not excluded -/
structure Remains (exs : List Region) (r : Region) (rs : List Region) : Prop where
  part : ∀ s ∈ rs, s = r ∨ s.PartOf r
  ends : ∀ s ∈ rs, EndsOf exs r s
  clear : ∀ s ∈ rs, ∀ ex ∈ exs, ex.stop ≤ s.start ∨ s.stop ≤ ex.start
  apart : rs.Pairwise fun a b => a.stop ≤ b.start
  has : ∀ q, r.Has q → Outside exs q → ∃ s ∈ rs, s.Has q

/-- a part of a part is a part -/
theorem PartOf.of_or (ha : a.PartOf r) (hs : s = a ∨ s.PartOf a) : s.PartOf r := by
  rcases hs with rfl | hs
  · exact ha
  · exact hs.trans ha

theorem Remains.single (clear : ∀ ex ∈ exs, ex.stop ≤ r.start ∨ r.stop ≤ ex.start) : Remains exs r [r] where
  part s hs := .inl (List.mem_singleton.1 hs)
  ends s hs := by
    rw [List.mem_singleton.1 hs]
    exact .refl exs r
  clear s hs := by
    rw [List.mem_singleton.1 hs]
    exact clear
  apart := List.pairwise_singleton _ _
  has q hq _ := ⟨r, List.mem_singleton_self r, hq⟩

theorem Remains.trim (h : Remains exs a rs) (ha : a.PartOf r) (hends : EndsOf exs r a)
    (hhas : ∀ q, Outside exs q → r.Has q → a.Has q) : Remains exs r rs where
  part s hs := .inr (ha.of_or (h.part s hs))
  ends s hs := hends.trans (h.ends s hs)
  clear := h.clear
  apart := h.apart
  has q hq hout := h.has q (hhas q hout hq) hout

theorem Remains.append {ls : List Region} (hl : Remains exs a ls) (hr : Remains exs b rs)
    (ha : a.PartOf r) (hb : b.PartOf r) (hendsLeft : EndsOf exs r a) (hendsRight : EndsOf exs r b)
    (hapart : a.stop ≤ b.start) (hhas : ∀ q, Outside exs q → r.Has q → a.Has q ∨ b.Has q) :
    Remains exs r (ls ++ rs) where
  part := List.forall_mem_append.2
    ⟨fun s hs => .inr (ha.of_or (hl.part s hs)), fun s hs => .inr (hb.of_or (hr.part s hs))⟩
  ends := List.forall_mem_append.2
    ⟨fun s hs => hendsLeft.trans (hl.ends s hs), fun s hs => hendsRight.trans (hr.ends s hs)⟩
  clear := List.forall_mem_append.2 ⟨hl.clear, hr.clear⟩
  apart := by
    refine List.pairwise_append.2 ⟨hl.apart, hr.apart, fun s hs u hu => ?_⟩
    have hstop : s.stop ≤ a.stop := by
      rcases hl.part s hs with rfl | hs
      · exact Nat.le_refl _
      · exact hs.stop
    have hstart : b.start ≤ u.start := by
      rcases hr.part u hu with rfl | hu
      · exact Nat.le_refl _
      · exact hu.start
    omega
  has q hq hout := by
    rcases hhas q hout hq with hq | hq
    · obtain ⟨s, hs, hsq⟩ := hl.has q hq hout
      exact ⟨s, List.mem_append_left _ hs, hsq⟩
    · obtain ⟨s, hs, hsq⟩ := hr.has q hq hout
      exact ⟨s, List.mem_append_right _ hs, hsq⟩

/-- **All clips** with enough fuel -/
theorem piecesFrom_remains (hexs : ∀ ex ∈ exs, ex.start ≤ ex.stop) (hfuel : r.stop - r.start < fuel)
    (h : piecesFrom exs fuel r = some rs) : Remains exs r rs := by
  induction fuel generalizing r rs with
  | zero => omega
  | succ fuel ih =>
    have hcuts := firstClip_cuts hexs r
    have hhas (q : Nat) (hout : Outside exs q) : (r.firstClip exs).Has r q ↔ r.Has q := firstClip_has hout
    rw [piecesFrom] at h
    generalize r.firstClip exs = c at hcuts hhas h
    cases hcuts with
    | keep clear =>
      obtain rfl := Option.some.inj h
      exact .single clear
    | trim rest ends =>
      have := rest.shorter
      exact (ih (by omega) h).trim rest ends fun q hout => (hhas q hout).2
    | split left right endsLeft endsRight apart =>
      have := left.shorter
      have := right.shorter
      obtain ⟨ls, hls, h⟩ := Option.bind_eq_some_iff.1 h
      obtain ⟨ts, hts, h⟩ := Option.bind_eq_some_iff.1 h
      obtain rfl : ls ++ ts = rs := Option.some.inj h
      exact (ih (by omega) hls).append (ih (by omega) hts) left right endsLeft endsRight apart
        fun q hout => (hhas q hout).2
    | inside => exact absurd h (by simp)

/-- a region without a position remains as it is -/
theorem piecesFrom_of_empty (hr : r.stop ≤ r.start) (h : piecesFrom exs fuel r = some rs) : rs = [r] := by
  cases fuel with
  | zero => exact (Option.some.inj h).symm
  | succ fuel =>
    have hshort := firstClip_shortens r exs
    rw [piecesFrom] at h
    generalize r.firstClip exs = c at hshort h
    cases hshort with
    | keep => exact (Option.some.inj h).symm
    | trim rest =>
      have := rest.shorter
      omega
    | split left _ =>
      have := left.shorter
      omega
    | inside => exact absurd h (by simp)

/-! ## in order -/

theorem insertByStart_eq (h : ∀ s ∈ rs, r.start ≤ s.start) : insertByStart r rs = r :: rs := by
  cases rs with
  | nil => rfl
  | cons s ss => rw [insertByStart, if_pos (h s List.mem_cons_self)]

/-- what is in order stays as it is -/
theorem sortByStart_eq (h : rs.Pairwise fun a b => a.start ≤ b.start) : sortByStart rs = rs := by
  induction rs with
  | nil => rfl
  | cons r rs ih =>
    obtain ⟨hr, hrs⟩ := List.pairwise_cons.1 h
    show insertByStart r (sortByStart rs) = r :: rs
    rw [ih hrs, insertByStart_eq hr]

theorem Remains.ordered (h : Remains exs r rs) (hr : r.start ≤ r.stop) : ∀ s ∈ rs, s.start ≤ s.stop := by
  intro s hs
  rcases h.part s hs with rfl | hpart
  · exact hr
  · exact Nat.le_of_lt hpart.proper

/-- clipping finds pieces in order -/
theorem pieces_eq (hexs : ∀ ex ∈ exs, ex.start ≤ ex.stop) (length : Nat) (r : Region) :
    pieces exs length r = piecesFrom exs (r.stop + (length - r.start) + 1) r := by
  unfold pieces
  cases h : piecesFrom exs (r.stop + (length - r.start) + 1) r with
  | none => rfl
  | some rs =>
    refine congrArg some (sortByStart_eq ?_)
    rcases Nat.le_total r.stop r.start with hr | hr
    · rw [piecesFrom_of_empty hr h]
      exact List.pairwise_singleton _ _
    · have hremains := piecesFrom_remains hexs (by omega) h
      refine hremains.apart.imp_of_mem fun ha _ hab => ?_
      exact Nat.le_trans (hremains.ordered hr _ ha) hab

/-- **What remains** of a region, for any excluded ranges that do not end before they start -/
theorem pieces_remains (hexs : ∀ ex ∈ exs, ex.start ≤ ex.stop) (h : pieces exs length r = some rs) :
    Remains exs r rs := by
  rw [pieces_eq hexs] at h
  exact piecesFrom_remains hexs (by omega) h

/-! ## by position -/

/-- a position lies in at most one of regions that lie apart -/
theorem count_le_one (h : rs.Pairwise fun a b => a.stop ≤ b.start) (q : Nat) : count rs q ≤ 1 := by
  induction rs with
  | nil => exact Nat.zero_le 1
  | cons r rs ih =>
    obtain ⟨hr, hrs⟩ := List.pairwise_cons.1 h
    rw [show r :: rs = [r] ++ rs from rfl, count_append, count_singleton]
    split
    · rename_i hq
      have hnone : count rs q = 0 := by
        refine List.countP_eq_zero.2 fun s hs hsq => ?_
        have := hr s hs
        obtain ⟨-, h1⟩ := hq
        obtain ⟨h2, -⟩ := of_decide_eq_true hsq
        omega
      omega
    · have := ih hrs
      omega

/-- **Each position** of the region that is not excluded lies in exactly one piece, and no other does -/
theorem Remains.parts (h : Remains exs r rs) (hr : r.start ≤ r.stop) : Parts exs r rs := by
  refine ⟨h.ordered hr, fun q hq hout => ?_, fun q hq => ?_⟩
  · obtain ⟨s, hs, hsq⟩ := h.has q hq hout
    have hpos : 0 < count rs q := List.countP_pos_iff.2 ⟨s, hs, decide_eq_true hsq⟩
    have hle := count_le_one h.apart q
    omega
  · refine List.countP_eq_zero.2 fun s hs hsq => hq ⟨?_, fun ex hex hexq => ?_⟩
    · obtain ⟨h1, h2⟩ := of_decide_eq_true hsq
      rcases h.part s hs with rfl | hpart
      · exact ⟨h1, h2⟩
      · exact ⟨Nat.le_trans hpart.start h1, Nat.lt_of_lt_of_le h2 hpart.stop⟩
    · obtain ⟨h1, h2⟩ := of_decide_eq_true hsq
      obtain ⟨h3, h4⟩ := hexq
      have := h.clear s hs ex hex
      omega

end Region

/-! ## entries -/

section
variable {code : List Insn} {t : TryCatch} {ts es : List TryCatch} {r : Region} {rs excluded : List Region}
  {exclusions : List Exclusion} {q : Nat}

theorem protectsCode_iff : protectsCode code r = true ↔ ∃ q, r.Has q ∧ Occupied code q := by
  refine ⟨fun h => ?_, fun ⟨q, hq, i, hi, hl⟩ => protectsCode_of_has hq hi hl⟩
  obtain ⟨i, hi, hl⟩ := List.any_eq_true.1 h
  obtain ⟨k, hk⟩ := List.mem_iff_getElem?.1 hi
  rw [List.getElem?_take, List.getElem?_drop] at hk
  split at hk
  · exact ⟨r.start + k, ⟨by omega, by omega⟩, i, hk, by simpa using hl⟩
  · exact nomatch hk

/-- the entry for a piece -/
def TryCatch.clippedTo (t : TryCatch) (code : List Insn) (r : Region) : TryCatch :=
  { t with
    start := (labelAt? code r.start).getD t.start
    stop := (labelAt? code r.stop).getD t.stop }

/-- the entry for a piece protects what lies in the piece -/
theorem TryCatch.clippedTo_protects (hr : r.Ends (Marked code)) :
    (t.clippedTo code r).Protects code q ↔ r.Has q := by
  obtain ⟨start, hstart, hstart'⟩ := hr.1.labelAt?
  obtain ⟨stop, hstop, hstop'⟩ := hr.2.labelAt?
  refine protects_iff ?_ ?_
  · rw [clippedTo, hstart, Option.getD_some, hstart']
  · rw [clippedTo, hstop, Option.getD_some, hstop']

theorem pieceEntry_eq (hordered : r.start ≤ r.stop) (hr : r.Ends (Marked code)) : pieceEntry code t r =
    .ok (if protectsCode code r then [t.clippedTo code r] else []) := by
  obtain ⟨start, hstart, -⟩ := hr.1.labelAt?
  obtain ⟨stop, hstop, -⟩ := hr.2.labelAt?
  unfold pieceEntry
  rw [if_neg (by omega)]
  split
  · simp only [hstart, hstop, TryCatch.clippedTo, Option.getD_some]
  · rfl

/-- **The entries** for the pieces of a region: one for each that holds an instruction -/
theorem collectEntries_pieces_eq (hordered : ∀ r ∈ rs, r.start ≤ r.stop)
    (hrs : ∀ r ∈ rs, r.Ends (Marked code)) : collectEntries (pieceEntry code t) rs =
      .ok ((rs.filter fun r => protectsCode code r).map (t.clippedTo code)) := by
  induction rs with
  | nil => rfl
  | cons r rs ih =>
    rw [List.forall_mem_cons] at hordered hrs
    rw [collectEntries, pieceEntry_eq hordered.1 hrs.1, ih hordered.2 hrs.2, List.filter_cons]
    dsimp only [bind, Except.bind]
    split <;> rfl

/-- The entries that remain of an entry: they keep its handler and what it catches, exactly one of them covers
each instruction that it covers and that is free, and none covers anything else; what they cover is in order, and
none covers labels only. -/
structure TryCatch.Split (t : TryCatch) (code : List Insn) (free : Nat → Prop) (es : List TryCatch) : Prop where
  kept : ∀ e ∈ es, e.handler = t.handler ∧ e.catchType = t.catchType
  one : ∀ q, Occupied code q → t.Protects code q → free q → es.countP (·.covers code q) = 1
  none : ∀ q, ¬ (t.Protects code q ∧ free q) → es.countP (·.covers code q) = 0
  apart : es.Pairwise fun d e => ∀ p q, d.Protects code p → e.Protects code q → p < q
  busy : ∀ e ∈ es, ∃ q, Occupied code q ∧ e.Protects code q

/-- as many entries cover an instruction as there are pieces that it lies in -/
theorem countP_covers_pieces (hrs : ∀ r ∈ rs, r.Ends (Marked code)) :
    (((rs.filter fun r => protectsCode code r).map (t.clippedTo code)).countP (·.covers code q) ≤
      Region.count rs q) ∧
    (Occupied code q → ((rs.filter fun r => protectsCode code r).map (t.clippedTo code)).countP
      (·.covers code q) = Region.count rs q) := by
  have hcovers : ∀ r ∈ rs, (t.clippedTo code r).covers code q = decide (r.Has q) := by
    intro r hr
    rw [Bool.eq_iff_iff, TryCatch.covers_iff, TryCatch.clippedTo_protects (hrs r hr), decide_eq_true_iff]
  rw [List.countP_map, List.countP_filter]
  refine ⟨List.countP_mono_left fun r hr h => ?_, fun hq => List.countP_congr fun r hr => ?_⟩
  · rw [Function.comp_apply, hcovers r hr] at h
    exact (Bool.and_eq_true_iff.1 h).1
  · rw [Function.comp_apply, hcovers r hr, Bool.and_eq_true_iff]
    refine ⟨fun h => h.1, fun h => ⟨h, protectsCode_iff.2 ⟨q, of_decide_eq_true h, hq⟩⟩⟩

/-- the region between the labels of the entry, wherever they stand last -/
def TryCatch.At (t : TryCatch) (code : List Insn) (r : Region) : Prop :=
  labelPosition t.start code = some r.start ∧ labelPosition t.stop code = some r.stop

theorem TryCatch.At.unique {r' : Region} (h : t.At code r) (h' : t.At code r') : r = r' := by
  cases r
  cases r'
  congr
  · exact Option.some.inj (h.1.symm.trans h'.1)
  · exact Option.some.inj (h.2.symm.trans h'.2)

/-- pieces end at labels, as the region and the excluded ranges do -/
theorem TryCatch.At.pieces_ends (h : t.At code r) (hmarked : ∀ ex ∈ excluded, ex.Ends (Marked code))
    (hrs : Region.pieces excluded code.length r = some rs) : ∀ s ∈ rs, s.Ends (Marked code) :=
  (Region.pieces_has (q := 0) (Marked code) hrs).2 ⟨⟨_, h.1⟩, _, h.2⟩ hmarked

theorem splitRegion_eq (h : t.At code r) : splitRegion code excluded t =
    match Region.pieces excluded code.length r with
    | none => .error (.regionInsideInjectedCode t.start t.stop)
    | some rs => collectEntries (pieceEntry code t) rs := by
  unfold splitRegion regionPosition
  rw [h.1, h.2]
  rfl

/-- an entry that is split has a region of which something remains -/
theorem splitRegion_pieces (h : splitRegion code excluded t = .ok es) : ∃ r rs, t.At code r ∧
    Region.pieces excluded code.length r = some rs ∧ collectEntries (pieceEntry code t) rs = .ok es := by
  have hwhole := h
  obtain ⟨start, hstart, h⟩ := Effect.bind_eq_ok h
  obtain ⟨stop, hstop, -⟩ := Effect.bind_eq_ok h
  have hat : t.At code ⟨start, stop⟩ := ⟨regionPosition_ok hstart, regionPosition_ok hstop⟩
  rw [splitRegion_eq hat] at hwhole
  split at hwhole
  · exact nomatch hwhole
  · exact ⟨_, _, hat, ‹_›, hwhole⟩

/-- **One entry** is split -/
theorem splitRegion_split (h : splitRegion code excluded t = .ok es)
    (hordered : ∀ ex ∈ excluded, ex.start ≤ ex.stop) (hmarked : ∀ ex ∈ excluded, ex.Ends (Marked code)) :
    t.Split code (Outside excluded) es := by
  obtain ⟨r, rs, hat, hrs, hes⟩ := splitRegion_pieces h
  have hr : r.start ≤ r.stop := splitRegion_ordered h hat.1 hat.2
  have hprotects (q : Nat) : t.Protects code q ↔ r.Has q := TryCatch.protects_iff hat.1 hat.2
  have hremains := Region.pieces_remains hordered hrs
  have hparts := hremains.parts hr
  have hends := hat.pieces_ends hmarked hrs
  rw [collectEntries_pieces_eq hparts.ordered hends] at hes
  obtain rfl := Except.ok.inj hes
  refine ⟨fun e he => ?_, fun q hocc hq hout => ?_, fun q hq => ?_, ?_, fun e he => ?_⟩
  · obtain ⟨r, -, rfl⟩ := List.mem_map.1 he
    exact ⟨rfl, rfl⟩
  · rw [(countP_covers_pieces hends).2 hocc]
    exact hparts.one q ((hprotects q).1 hq) hout
  · have hle := (countP_covers_pieces (t := t) (q := q) hends).1
    rw [hparts.none q fun hboth => hq ⟨(hprotects q).2 hboth.1, hboth.2⟩] at hle
    exact Nat.le_zero.1 hle
  · refine List.pairwise_map.2 ((hremains.apart.filter _).imp_of_mem fun {a b} ha hb hab p q hp hq => ?_)
    obtain ⟨-, hp⟩ := (TryCatch.clippedTo_protects (hends a (List.mem_of_mem_filter ha))).1 hp
    obtain ⟨hq, -⟩ := (TryCatch.clippedTo_protects (hends b (List.mem_of_mem_filter hb))).1 hq
    omega
  · obtain ⟨r, hr, rfl⟩ := List.mem_map.1 he
    obtain ⟨hr, hcode⟩ := List.mem_filter.1 hr
    obtain ⟨q, hq, hocc⟩ := protectsCode_iff.1 hcode
    exact ⟨q, hocc, (TryCatch.clippedTo_protects (hends r hr)).2 hq⟩

/-! ## tables -/

namespace Exclusion

variable {x : Exclusion}

/-- the range does not end before it starts -/
def Ordered (x : Exclusion) (code : List Insn) : Prop :=
  ∀ start ∈ labelPosition x.start code, ∀ stop ∈ labelPosition x.stop code, start ≤ stop

instance (x : Exclusion) (code : List Insn) : Decidable (x.Ordered code) :=
  inferInstanceAs (Decidable (∀ start ∈ labelPosition x.start code, ∀ stop ∈ labelPosition x.stop code,
    start ≤ stop))

/-- the position lies in the range -/
def Excludes (x : Exclusion) (code : List Insn) (q : Nat) : Prop :=
  ∃ start stop, labelPosition x.start code = some start ∧ labelPosition x.stop code = some stop ∧
    start ≤ q ∧ q < stop

/-- both ends of the range are found -/
theorem region_ok (h : exclusionRegion code x = .ok r) :
    labelPosition x.start code = some r.start ∧ labelPosition x.stop code = some r.stop := by
  obtain ⟨start, hstart, h⟩ := Effect.bind_eq_ok h
  obtain ⟨stop, hstop, h⟩ := Effect.bind_eq_ok h
  obtain rfl := Except.ok.inj h
  exact ⟨regionPosition_ok hstart, regionPosition_ok hstop⟩

theorem excludes_iff (h : exclusionRegion code x = .ok r) : x.Excludes code q ↔ r.Has q := by
  obtain ⟨hstart, hstop⟩ := region_ok h
  simp only [Excludes, hstart, hstop, Option.some.injEq]
  constructor
  · rintro ⟨_, _, rfl, rfl, hq⟩
    exact hq
  · exact fun hq => ⟨_, _, rfl, rfl, hq⟩

end Exclusion

theorem outside_iff (h : exclusions.mapM (exclusionRegion code) = .ok excluded) :
    Outside excluded q ↔ ∀ x ∈ exclusions, ¬ x.Excludes code q := by
  obtain ⟨hfound, hof⟩ := Flow.mapM_ok h
  constructor
  · intro hout x hx hq
    obtain ⟨ex, hex, hregion⟩ := hfound x hx
    exact hout ex hex ((Exclusion.excludes_iff hregion).1 hq)
  · intro hout ex hex hq
    obtain ⟨x, hx, hregion⟩ := hof ex hex
    exact hout x hx ((Exclusion.excludes_iff hregion).2 hq)

theorem exclusions_ordered (h : exclusions.mapM (exclusionRegion code) = .ok excluded)
    (hordered : ∀ x ∈ exclusions, x.Ordered code) : ∀ ex ∈ excluded, ex.start ≤ ex.stop := by
  intro ex hex
  obtain ⟨x, hx, hregion⟩ := (Flow.mapM_ok h).2 ex hex
  obtain ⟨hstart, hstop⟩ := Exclusion.region_ok hregion
  exact hordered x hx _ hstart _ hstop

theorem exclusions_marked (h : exclusions.mapM (exclusionRegion code) = .ok excluded) :
    ∀ ex ∈ excluded, ex.Ends (Marked code) := by
  intro ex hex
  obtain ⟨x, -, hregion⟩ := (Flow.mapM_ok h).2 ex hex
  obtain ⟨hstart, hstop⟩ := Exclusion.region_ok hregion
  exact ⟨⟨_, hstart⟩, _, hstop⟩

/-- entries one after another are groups of entries -/
theorem collectEntries_groups {α : Type} {f : α → Except WeaveFailure (List TryCatch)} {xs : List α}
    (h : collectEntries f xs = .ok es) :
    ∃ groups, es = groups.flatten ∧ List.Forall₂ (fun x g => f x = .ok g) xs groups := by
  induction xs generalizing es with
  | nil => exact ⟨[], (Except.ok.inj h).symm, .nil⟩
  | cons x xs ih =>
    rw [collectEntries] at h
    obtain ⟨g, hg, h⟩ := Effect.bind_eq_ok h
    obtain ⟨others, hothers, h⟩ := Effect.bind_eq_ok h
    obtain ⟨groups, rfl, hgroups⟩ := ih hothers
    exact ⟨g :: groups, (Except.ok.inj h).symm, .cons hg hgroups⟩

/-- a table of one entry -/
theorem splitRegions_single (h : exclusions.mapM (exclusionRegion code) = .ok excluded) (t : TryCatch) :
    splitRegions code [t] exclusions = splitRegion code excluded t := by
  unfold splitRegions
  rw [h]
  dsimp only [bind, Except.bind]
  rw [collectEntries]
  cases splitRegion code excluded t with
  | error e => rfl
  | ok g => exact congrArg Except.ok (List.append_nil g)

/-- **Clipping is exact.**  For excluded ranges that do not end before they start, however they lie to one
another, the loop ends for every region, and in one way.  If clipping gives a table, this consists of one group
of entries for each entry of the table before, in the same order: what the entry alone gives.  In a group,
exactly one entry covers each instruction that the entry covered and that is not excluded, and none covers
anything else. -/
theorem splitRegions_exact {table : List TryCatch} (hordered : ∀ x ∈ exclusions, x.Ordered code) :
    (∀ (excluded : List Region) (r : Region), ∃ end?, Region.Loop excluded [r] [] end? ∧
      (∀ other, Region.Loop excluded [r] [] other → other = end?) ∧
      Region.pieces excluded code.length r = end?.map Region.sortByStart) ∧
    ∀ es, splitRegions code table exclusions = .ok es → ∃ groups, es = groups.flatten ∧
      List.Forall₂ (fun t g => splitRegions code [t] exclusions = .ok g ∧
        t.Split code (fun q => ∀ x ∈ exclusions, ¬ x.Excludes code q) g) table groups := by
  refine ⟨fun excluded r => ?_, fun es h => ?_⟩
  · obtain ⟨end?, hloop, hpieces⟩ := Region.loop_pieces excluded code.length r
    exact ⟨end?, hloop, fun other hother => hother.unique hloop, hpieces⟩
  · obtain ⟨excluded, hexcluded, h⟩ := Effect.bind_eq_ok h
    obtain ⟨groups, rfl, hgroups⟩ := collectEntries_groups h
    have hout : Outside excluded = fun q => ∀ x ∈ exclusions, ¬ x.Excludes code q :=
      funext fun q => propext (outside_iff hexcluded)
    refine ⟨groups, rfl, hgroups.imp fun t g hg => ⟨?_, ?_⟩⟩
    · rw [splitRegions_single hexcluded, hg]
    · rw [← hout]
      exact splitRegion_split hg (exclusions_ordered hexcluded hordered) (exclusions_marked hexcluded)

end

namespace Ranges

/-- instructions between labels; there is none between the labels 3 and 4 -/
def code : List Insn :=
  [.label ⟨0⟩, .nop, .label ⟨1⟩, .nop, .label ⟨2⟩, .nop, .label ⟨3⟩, .label ⟨4⟩, .nop, .label ⟨5⟩, .nop, .label ⟨6⟩]

/-- a range, an empty one, a part of the first one, and a range that begins where one ends but for labels -/
def exclusions : List Exclusion := [⟨⟨1⟩, ⟨3⟩⟩, ⟨⟨0⟩, ⟨0⟩⟩, ⟨⟨1⟩, ⟨2⟩⟩, ⟨⟨4⟩, ⟨5⟩⟩]

/-- the whole code is protected, and a part of it once more -/
def table : List TryCatch := [⟨⟨0⟩, ⟨6⟩, ⟨9⟩, none⟩, ⟨⟨2⟩, ⟨6⟩, ⟨8⟩, some "demo/E"⟩]

theorem splitRegions_exact_nested : (∀ x ∈ exclusions, x.Ordered code) ∧ ∃ groups,
    [⟨⟨0⟩, ⟨1⟩, ⟨9⟩, none⟩, ⟨⟨5⟩, ⟨6⟩, ⟨9⟩, none⟩, ⟨⟨5⟩, ⟨6⟩, ⟨8⟩, some "demo/E"⟩] = groups.flatten ∧
    List.Forall₂ (fun t g => splitRegions code [t] exclusions = .ok g ∧
      t.Split code (fun q => ∀ x ∈ exclusions, ¬ x.Excludes code q) g) table groups :=
  ⟨by decide, (splitRegions_exact (by decide)).2 _ rfl⟩

end Ranges
end Resumable
