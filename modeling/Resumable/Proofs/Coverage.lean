import Resumable.Proofs.Agreement
import Resumable.Proofs.Clipping

/-!
# What covers a position

A region that starts outside of all excluded ranges is cut into pieces that share no position, hold
exactly what is not excluded, and are all that clipping gives: it neither fails nor stops early.

What becomes of an exception is decided by the entries of the table that cover the place where it is
thrown: their handlers with what they catch, in the order of the table.  Weaving leaves this list as it
was for every instruction of the method and for the code that passes on what an unpatchable call has
thrown; other code that was put in is covered by nothing.

* `Region.Apart` : excluded ranges of which none reaches the end of another;
* `Region.Cut` : a region that clipping goes well for;
* `Region.firstClip_cases` : one clip leaves such regions, with less room to clip;
* `Region.pieces_parts` : each position that is not excluded lies in one piece;
* `coverage` : the entries that cover a position;
* `Clips` : a table against what clipping makes of it;
* `Layout.Laid.splitRegions_clips` : clipping the table of a woven method goes well;
* `region_integrity` : the entries of a woven method.
-/

namespace Resumable

namespace Region

instance (r : Region) (q : Nat) : Decidable (r.Has q) := inferInstanceAs (Decidable (_ ∧ _))

/-- no excluded range is empty, leaves the code, or holds the end of one -/
structure Apart (exs : List Region) (length : Nat) : Prop where
  proper : ∀ ex ∈ exs, ex.start < ex.stop ∧ ex.stop ≤ length
  free : ∀ ex ∈ exs, ∀ ex' ∈ exs, ¬ ex'.Has ex.stop

/-- a region in the code that does not start in an excluded range -/
structure Cut (exs : List Region) (length : Nat) (r : Region) : Prop where
  ordered : r.start ≤ r.stop
  inside : r.stop ≤ length
  free : ∀ ex ∈ exs, ¬ ex.Has r.start

/-- what there is to clip: it bounds the number of clips -/
def room (length : Nat) (r : Region) : Nat := r.stop + (length - r.start)

section
variable {r ex : Region} {exs rs : List Region} {length fuel q : Nat}

theorem clip_eq_keep (h : r.clip ex = .keep) : ex.stop ≤ r.start ∨ r.stop ≤ ex.start := by
  unfold clip at h
  split at h
  · assumption
  · split at h <;> exact absurd h (by simp)

/-- the first clip is that of some excluded range, or none takes anything away -/
theorem firstClip_eq (r : Region) (exs : List Region) :
    (r.firstClip exs = .keep ∧ ∀ ex ∈ exs, r.clip ex = .keep) ∨
      ∃ ex ∈ exs, r.firstClip exs = r.clip ex ∧ r.clip ex ≠ .keep := by
  induction exs with
  | nil => exact .inl ⟨rfl, fun ex hex => absurd hex (by simp)⟩
  | cons ex exs ih =>
    by_cases hkeep : r.clip ex = .keep
    · have hnext : r.firstClip (ex :: exs) = r.firstClip exs := by
        rw [firstClip, hkeep]
      rcases ih with ⟨hfirst, hall⟩ | ⟨ex', hex', hfirst, hne⟩
      · refine .inl ⟨hnext.trans hfirst, fun ex' hex' => ?_⟩
        rcases List.mem_cons.1 hex' with rfl | hex'
        · exact hkeep
        · exact hall ex' hex'
      · exact .inr ⟨ex', List.mem_cons_of_mem _ hex', hnext.trans hfirst, hne⟩
    · refine .inr ⟨ex, List.mem_cons_self, ?_, hkeep⟩
      rw [firstClip]
      split
      · contradiction
      · rfl

/-- what a clip by an excluded range leaves of a region that does not start in it -/
inductive Clipped (exs : List Region) (length : Nat) (r : Region) : Clip → Prop
  | keep (clear : ∀ ex ∈ exs, ex.stop ≤ r.start ∨ r.stop ≤ ex.start) : Clipped exs length r .keep
  | trim {a : Region} (cut : a.Cut exs length) (less : a.room length < r.room length) :
      Clipped exs length r (.trim a)
  | split {a b : Region} (left : a.Cut exs length) (right : b.Cut exs length)
      (lessLeft : a.room length < r.room length) (lessRight : b.room length < r.room length)
      (disjoint : a.stop ≤ b.start) : Clipped exs length r (.split a b)

/-- **One clip** leaves regions of the same sort, with less room -/
theorem firstClip_cases (hexs : Apart exs length) (hr : r.Cut exs length) :
    Clipped exs length r (r.firstClip exs) := by
  rcases firstClip_eq r exs with ⟨hfirst, hall⟩ | ⟨ex, hex, hfirst, hne⟩
  · rw [hfirst]
    exact .keep fun ex hex => clip_eq_keep (hall ex hex)
  · rw [hfirst]
    have hproper := hexs.proper ex hex
    have hordered := hr.ordered
    have hinside := hr.inside
    have hfree := hr.free ex hex
    unfold Has at hfree
    unfold clip at hne ⊢
    split at hne
    · exact absurd rfl hne
    · rename_i hmeet
      have hstart : r.start < ex.start := by omega
      rw [if_neg hmeet, decide_eq_true hstart]
      have hleft : Region.Cut exs length ⟨r.start, ex.start⟩ :=
        ⟨by dsimp only; omega, by dsimp only; omega, hr.free⟩
      by_cases hstop : ex.stop < r.stop
      · rw [decide_eq_true hstop]
        refine .split hleft ⟨by dsimp only; omega, hinside, fun ex' hex' => ?_⟩ ?_ ?_ ?_
        · exact hexs.free ex hex ex' hex'
        · unfold room
          dsimp only
          omega
        · unfold room
          dsimp only
          omega
        · dsimp only
          omega
      · rw [decide_eq_false hstop]
        refine .trim hleft ?_
        unfold room
        dsimp only
        omega

/-- a position lies in a number of regions -/
def count (rs : List Region) (q : Nat) : Nat := rs.countP fun r => decide (r.Has q)

theorem count_singleton (r : Region) (q : Nat) : count [r] q = if r.Has q then 1 else 0 := by
  unfold count
  rw [List.countP_singleton]
  simp

theorem count_append (rs ss : List Region) (q : Nat) :
    count (rs ++ ss) q = count rs q + count ss q := List.countP_append

/-- what clipping gives for a region: ordered pieces, one for each position that is not excluded -/
structure Parts (exs : List Region) (r : Region) (rs : List Region) : Prop where
  ordered : ∀ s ∈ rs, s.start ≤ s.stop
  one : ∀ q, r.Has q → Outside exs q → count rs q = 1
  none : ∀ q, ¬ (r.Has q ∧ Outside exs q) → count rs q = 0

theorem Parts.single (hr : r.start ≤ r.stop)
    (clear : ∀ ex ∈ exs, ex.stop ≤ r.start ∨ r.stop ≤ ex.start) : Parts exs r [r] := by
  have hout {q : Nat} (hq : r.Has q) : Outside exs q := by
    intro ex hex hin
    have := clear ex hex
    obtain ⟨h1, h2⟩ := hq
    obtain ⟨h3, h4⟩ := hin
    omega
  refine ⟨fun s hs => ?_, fun q hq _ => ?_, fun q hq => ?_⟩
  · rw [List.mem_singleton.1 hs]
    exact hr
  · rw [count_singleton, if_pos hq]
  · rw [count_singleton, if_neg fun h => hq ⟨h, hout h⟩]

theorem Parts.trim {a : Region} (h : Parts exs a rs)
    (hhas : ∀ q, Outside exs q → (a.Has q ↔ r.Has q)) : Parts exs r rs :=
  ⟨h.ordered, fun q hq hout => h.one q ((hhas q hout).2 hq) hout,
    fun q hq => h.none q fun hboth => hq ⟨(hhas q hboth.2).1 hboth.1, hboth.2⟩⟩

theorem Parts.append {a b : Region} {ls : List Region} (hl : Parts exs a ls) (hr : Parts exs b rs)
    (hdisjoint : a.stop ≤ b.start)
    (hhas : ∀ q, Outside exs q → (a.Has q ∨ b.Has q ↔ r.Has q)) : Parts exs r (ls ++ rs) := by
  refine ⟨fun s hs => ?_, fun q hq hout => ?_, fun q hq => ?_⟩
  · rcases List.mem_append.1 hs with hs | hs
    · exact hl.ordered s hs
    · exact hr.ordered s hs
  · rw [count_append]
    rcases (hhas q hout).2 hq with ha | hb
    · have hb : ¬ b.Has q := fun hb => by
        obtain ⟨h1, h2⟩ := ha
        obtain ⟨h3, h4⟩ := hb
        omega
      rw [hl.one q ha hout, hr.none q fun h => hb h.1]
    · have ha : ¬ a.Has q := fun ha => by
        obtain ⟨h1, h2⟩ := ha
        obtain ⟨h3, h4⟩ := hb
        omega
      rw [hl.none q fun h => ha h.1, hr.one q hb hout]
  · rw [count_append, hl.none q fun h => hq ⟨(hhas q h.2).1 (.inl h.1), h.2⟩,
      hr.none q fun h => hq ⟨(hhas q h.2).1 (.inr h.1), h.2⟩]

/-- **Clipping** a region with fuel for all its room -/
theorem piecesFrom_parts (hexs : Apart exs length) (hr : r.Cut exs length)
    (hfuel : r.room length < fuel) :
    ∃ rs, piecesFrom exs fuel r = some rs ∧ Parts exs r rs := by
  induction fuel generalizing r with
  | zero => omega
  | succ fuel ih =>
    have hclipped := firstClip_cases hexs hr
    have hhas (q : Nat) (hq : Outside exs q) : (r.firstClip exs).Has r q ↔ r.Has q :=
      firstClip_has hq
    rw [piecesFrom]
    generalize r.firstClip exs = c at hclipped hhas
    cases hclipped with
    | keep clear => exact ⟨[r], rfl, .single hr.ordered clear⟩
    | trim cut less =>
      obtain ⟨rs, hrs, hparts⟩ := ih cut (by omega)
      exact ⟨rs, hrs, hparts.trim hhas⟩
    | split left right lessLeft lessRight disjoint =>
      obtain ⟨ls, hls, hleft⟩ := ih left (by omega)
      obtain ⟨rs, hrs, hright⟩ := ih right (by omega)
      refine ⟨ls ++ rs, ?_, hleft.append hright disjoint hhas⟩
      dsimp only
      rw [hls, hrs]
      rfl

theorem insertByStart_perm (r : Region) (rs : List Region) : (insertByStart r rs).Perm (r :: rs) := by
  induction rs with
  | nil => exact .refl _
  | cons s ss ih =>
    rw [insertByStart]
    split
    · exact .refl _
    · exact (ih.cons s).trans (.swap r s ss)

theorem sortByStart_perm (rs : List Region) : (sortByStart rs).Perm rs := by
  induction rs with
  | nil => exact .refl _
  | cons r rs ih => exact (insertByStart_perm r (sortByStart rs)).trans (ih.cons r)

/-- **The pieces** of a region are there, and each position that is not excluded lies in one -/
theorem pieces_parts (hexs : Apart exs length) (hr : r.Cut exs length) :
    ∃ rs, pieces exs length r = some rs ∧ Parts exs r rs := by
  have hfuel : r.room length < r.stop + (length - r.start) + 1 := Nat.lt_succ_self _
  obtain ⟨rs, hrs, hparts⟩ := piecesFrom_parts hexs hr hfuel
  have hperm := sortByStart_perm rs
  have hcount (q : Nat) : count (sortByStart rs) q = count rs q := hperm.countP_eq _
  refine ⟨sortByStart rs, ?_, fun s hs => hparts.ordered s (hperm.mem_iff.1 hs), fun q hq hout => ?_,
    fun q hq => ?_⟩
  · rw [pieces, hrs]
    rfl
  · rw [hcount, hparts.one q hq hout]
  · rw [hcount, hparts.none q hq]

end

end Region

/-! ## coverage -/

/-- the entry covers the position -/
def TryCatch.covers (t : TryCatch) (code : List Insn) (q : Nat) : Bool :=
  match labelPosition t.start code, labelPosition t.stop code with
  | some start, some stop => start ≤ q && q < stop
  | _, _ => false

/-- handlers that cover a position, with what they catch, in the order of the table -/
def coverage (code : List Insn) (ts : List TryCatch) (q : Nat) : List (Option String × Label) :=
  (ts.filter fun t => t.covers code q).map fun t => (t.catchType, t.handler)

section
variable {code : List Insn} {ts us es : List TryCatch} {t e : TryCatch} {q : Nat}

theorem TryCatch.covers_iff : t.covers code q = true ↔ t.Protects code q := by
  unfold covers Protects
  cases labelPosition t.start code <;> cases labelPosition t.stop code <;> simp

theorem coverage_append (code : List Insn) (ts us : List TryCatch) (q : Nat) :
    coverage code (ts ++ us) q = coverage code ts q ++ coverage code us q := by
  simp [coverage, List.filter_append]

theorem coverage_single_of_protects (h : t.Protects code q) :
    coverage code [t] q = [(t.catchType, t.handler)] := by
  simp [coverage, TryCatch.covers_iff.2 h]

theorem coverage_single_of_not (h : ¬ t.Protects code q) : coverage code [t] q = [] := by
  rw [← TryCatch.covers_iff] at h
  simp [coverage, h]

theorem coverage_eq_nil (h : ∀ t ∈ ts, ¬ t.Protects code q) : coverage code ts q = [] := by
  unfold coverage
  rw [List.map_eq_nil_iff, List.filter_eq_nil_iff]
  intro t ht hcovers
  exact h t ht (TryCatch.covers_iff.1 hcovers)

/-- an entry that covers the position is among them -/
theorem mem_coverage (ht : t ∈ ts) (h : t.Protects code q) :
    (t.catchType, t.handler) ∈ coverage code ts q :=
  List.mem_map.2 ⟨t, List.mem_filter.2 ⟨ht, TryCatch.covers_iff.2 h⟩, rfl⟩

theorem of_mem_coverage {x : Option String × Label} (h : x ∈ coverage code ts q) :
    ∃ t ∈ ts, t.Protects code q ∧ x = (t.catchType, t.handler) := by
  obtain ⟨t, ht, rfl⟩ := List.mem_map.1 h
  obtain ⟨ht, hcovers⟩ := List.mem_filter.1 ht
  exact ⟨t, ht, TryCatch.covers_iff.1 hcovers, rfl⟩

/-- the same entries cover a position of one code and another one of the other code -/
theorem coverage_congr {code' : List Insn} {q' : Nat}
    (h : ∀ t ∈ ts, t.Protects code q ↔ t.Protects code' q') :
    coverage code ts q = coverage code' ts q' := by
  unfold coverage
  congr 1
  refine List.filter_congr fun t ht => ?_
  rw [Bool.eq_iff_iff, TryCatch.covers_iff, TryCatch.covers_iff]
  exact h t ht

/-! ## clipped tables -/

/-- A table against what clipping makes of it: outside of the excluded ranges the same entries cover
each instruction, and no others cover a label; inside nothing is covered. -/
structure Clips (code : List Insn) (excluded : List Region) (ts es : List TryCatch) : Prop where
  same : ∀ q, Occupied code q → Outside excluded q → coverage code es q = coverage code ts q
  fewer : ∀ q, Outside excluded q → (coverage code es q).Sublist (coverage code ts q)
  excluded : ∀ q, ¬ Outside excluded q → coverage code es q = []

variable {excluded : List Region}

theorem Clips.nil (code : List Insn) (excluded : List Region) : Clips code excluded [] [] :=
  ⟨fun _ _ _ => rfl, fun _ _ => .slnil, fun _ _ => rfl⟩

theorem Clips.append {ds : List TryCatch} (h : Clips code excluded ts es)
    (h' : Clips code excluded us ds) : Clips code excluded (ts ++ us) (es ++ ds) := by
  refine ⟨fun q hq hout => ?_, fun q hout => ?_, fun q hout => ?_⟩ <;>
    simp only [coverage_append]
  · rw [h.same q hq hout, h'.same q hq hout]
  · exact (h.fewer q hout).append (h'.fewer q hout)
  · rw [h.excluded q hout, h'.excluded q hout]
    rfl

/-- the entries of pieces of one entry: as many cover an instruction as there are pieces there -/
structure Pieced (code : List Insn) (t : TryCatch) (rs : List Region) (es : List TryCatch) : Prop where
  occupied : ∀ q, Occupied code q →
    coverage code es q = List.replicate (Region.count rs q) (t.catchType, t.handler)
  fewer : ∀ q, (coverage code es q).Sublist
    (List.replicate (Region.count rs q) (t.catchType, t.handler))

theorem Pieced.append {rs ss : List Region} {ds : List TryCatch} (h : Pieced code t rs es)
    (h' : Pieced code t ss ds) : Pieced code t (rs ++ ss) (es ++ ds) := by
  refine ⟨fun q hq => ?_, fun q => ?_⟩ <;>
    rw [coverage_append, Region.count_append, ← List.replicate_append_replicate]
  · rw [h.occupied q hq, h'.occupied q hq]
  · exact (h.fewer q).append (h'.fewer q)

/-- a piece that does not end before it starts becomes an entry, or nothing if it holds labels only -/
theorem pieceEntry_pieced {r : Region} (hr : r.start ≤ r.stop) (hends : r.Ends (Marked code)) :
    ∃ es, pieceEntry code t r = .ok es ∧ Pieced code t [r] es := by
  unfold pieceEntry
  rw [if_neg (by omega)]
  split
  · obtain ⟨start, hstart, hstart'⟩ := hends.1.labelAt?
    obtain ⟨stop, hstop, hstop'⟩ := hends.2.labelAt?
    rw [hstart, hstop]
    refine ⟨_, rfl, ?_⟩
    have hprotects (q : Nat) : ({ t with start, stop } : TryCatch).Protects code q ↔ r.Has q :=
      TryCatch.protects_iff hstart' hstop'
    have hcover (q : Nat) : coverage code [{ t with start, stop }] q =
        List.replicate (Region.count [r] q) (t.catchType, t.handler) := by
      rw [Region.count_singleton]
      by_cases hq : r.Has q
      · rw [if_pos hq, coverage_single_of_protects ((hprotects q).2 hq)]
        rfl
      · rw [if_neg hq, coverage_single_of_not fun h => hq ((hprotects q).1 h)]
        rfl
    exact ⟨fun q _ => hcover q, fun q => hcover q ▸ .refl _⟩
  · rename_i hempty
    refine ⟨[], rfl, fun q hq => ?_, fun q => List.nil_sublist _⟩
    obtain ⟨i, hi, hl⟩ := hq
    have hnot : ¬ r.Has q := fun hq => hempty (protectsCode_of_has hq hi hl)
    rw [Region.count_singleton, if_neg hnot]
    rfl

theorem collectEntries_pieced {rs : List Region} (hr : ∀ r ∈ rs, r.start ≤ r.stop)
    (hends : ∀ r ∈ rs, r.Ends (Marked code)) :
    ∃ es, collectEntries (pieceEntry code t) rs = .ok es ∧ Pieced code t rs es := by
  induction rs with
  | nil => exact ⟨[], rfl, fun q _ => rfl, fun q => .slnil⟩
  | cons r rs ih =>
    obtain ⟨first, hfirst, h1⟩ := pieceEntry_pieced (t := t) (hr r List.mem_cons_self)
      (hends r List.mem_cons_self)
    obtain ⟨others, hothers, h2⟩ := ih (fun r h => hr r (List.mem_cons_of_mem _ h))
      fun r h => hends r (List.mem_cons_of_mem _ h)
    refine ⟨first ++ others, ?_, h1.append h2⟩
    rw [collectEntries, hfirst, hothers]
    rfl

/-- the region of an entry by positions, which clipping goes well for -/
def TryCatch.Clippable (t : TryCatch) (code : List Insn) (excluded : List Region) : Prop :=
  ∃ start stop, labelPosition t.start code = some start ∧ labelPosition t.stop code = some stop ∧
    Region.Cut excluded code.length ⟨start, stop⟩

/-- **One entry** is clipped -/
theorem splitRegion_clips (hexs : Region.Apart excluded code.length)
    (hends : ∀ ex ∈ excluded, ex.Ends (Marked code)) (ht : t.Clippable code excluded) :
    ∃ es, splitRegion code excluded t = .ok es ∧ Clips code excluded [t] es := by
  obtain ⟨start, stop, hstart, hstop, hcut⟩ := ht
  obtain ⟨rs, hrs, hparts⟩ := Region.pieces_parts hexs hcut
  have hmarked := (Region.pieces_has (q := 0) (Marked code) hrs).2 ⟨⟨_, hstart⟩, _, hstop⟩ hends
  obtain ⟨es, hes, hpieced⟩ := collectEntries_pieced (t := t) hparts.ordered hmarked
  have hprotects (q : Nat) : t.Protects code q ↔ Region.Has ⟨start, stop⟩ q := TryCatch.protects_iff hstart hstop
  have hcount (q : Nat) (hout : Outside excluded q) :
      List.replicate (Region.count rs q) (t.catchType, t.handler) = coverage code [t] q := by
    by_cases hq : t.Protects code q
    · rw [coverage_single_of_protects hq, hparts.one q ((hprotects q).1 hq) hout]
      rfl
    · rw [coverage_single_of_not hq, hparts.none q fun h => hq ((hprotects q).2 h.1)]
      rfl
  refine ⟨es, ?_, fun q hq hout => ?_, fun q hout => ?_, fun q hout => ?_⟩
  · unfold splitRegion regionPosition
    rw [hstart, hstop]
    dsimp only [bind, Except.bind]
    rw [hrs]
    exact hes
  · rw [hpieced.occupied q hq, hcount q hout]
  · rw [← hcount q hout]
    exact hpieced.fewer q
  · have hnone := hpieced.fewer q
    rw [hparts.none q fun h => hout h.2] at hnone
    exact List.sublist_nil.1 hnone

/-- **A table** is clipped -/
theorem collectEntries_clips (hexs : Region.Apart excluded code.length)
    (hends : ∀ ex ∈ excluded, ex.Ends (Marked code)) (hts : ∀ t ∈ ts, t.Clippable code excluded) :
    ∃ es, collectEntries (splitRegion code excluded) ts = .ok es ∧ Clips code excluded ts es := by
  induction ts with
  | nil => exact ⟨[], rfl, .nil code excluded⟩
  | cons t ts ih =>
    obtain ⟨first, hfirst, h1⟩ := splitRegion_clips hexs hends (hts t List.mem_cons_self)
    obtain ⟨others, hothers, h2⟩ := ih fun t ht => hts t (List.mem_cons_of_mem _ ht)
    refine ⟨first ++ others, ?_, h1.append h2⟩
    rw [collectEntries, hfirst, hothers]
    rfl

end
end Resumable
