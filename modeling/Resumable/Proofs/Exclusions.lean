import Mathlib.Data.List.Sort
import Mathlib.Data.List.Perm.Basic
import Resumable.Proofs.Remains

/-!
# The order of excluded ranges

Clipping a region against several ranges is clipping what the first ones leave against the next one.  What
remains in the end does not depend on the order.  But a range that holds a whole piece makes clipping fail, be
the piece all of the region or what earlier ranges have left of it: so whether clipping fails does depend on the
order, and it may fail for a region that no excluded range holds.

* `Region.piecesFrom_snoc_eq_none`, `Region.piecesFrom_eq_none_iff` : one more range, and the range that fails;
* `Region.Remains.mem`, `Region.pieces_perm` : what remains in the end;
* `Region.Caught`, `Region.exists_none_iff_caught` : clipping fails in some order;
* `Region.Consumed`, `Region.forall_none_iff_consumed` : it fails in every order;
* `splitRegions_orders` : the table of woven code in all orders.
-/

namespace Resumable
namespace Region

variable {r a p s ex : Region} {exs ys zs rs ss ps : List Region} {fuel length q : Nat}

/-! ## one range after the other -/

theorem clip_eq_keep_iff : r.clip ex = .keep ↔ ex.stop ≤ r.start ∨ r.stop ≤ ex.start :=
  ⟨clip_eq_keep, fun h => if_pos h⟩

theorem firstClip_eq_keep_iff :
    r.firstClip exs = .keep ↔ ∀ ex ∈ exs, ex.stop ≤ r.start ∨ r.stop ≤ ex.start := by
  rcases firstClip_eq r exs with ⟨hfirst, hall⟩ | ⟨ex, hex, hfirst, hne⟩
  · exact iff_of_true hfirst fun ex hex => clip_eq_keep (hall ex hex)
  · refine iff_of_false (fun h => hne (hfirst.symm.trans h)) fun h => hne (clip_eq_keep_iff.2 (h ex hex))

theorem firstClip_append (r : Region) (ys zs : List Region) : r.firstClip (ys ++ zs) =
    if r.firstClip ys = .keep then r.firstClip zs else r.firstClip ys := by
  induction ys with
  | nil => rfl
  | cons y ys ih =>
    rw [List.cons_append, firstClip, firstClip]
    cases h : r.clip y with
    | keep => exact ih
    | _ => rfl

theorem firstClip_singleton (r ex : Region) : r.firstClip [ex] = r.clip ex := by
  rw [firstClip]
  cases r.clip ex <;> rfl

/-- a region that is clear of all excluded ranges remains as it is -/
theorem piecesFrom_clear (h : ∀ ex ∈ exs, ex.stop ≤ r.start ∨ r.stop ≤ ex.start) :
    piecesFrom exs fuel r = some [r] := by
  cases fuel with
  | zero => rfl
  | succ fuel => rw [piecesFrom, firstClip_eq_keep_iff.2 h]

/-- what a clip leaves is clear of the range -/
def Clip.Clears (ex : Region) : Clip → Prop
  | .split a b => a.stop ≤ ex.start ∧ ex.stop ≤ b.start
  | .trim a => ex.stop ≤ a.start ∨ a.stop ≤ ex.start
  | _ => True

theorem clip_clears (r ex : Region) : (r.clip ex).Clears ex := by
  unfold clip
  split
  · trivial
  · by_cases h1 : r.start < ex.start <;> by_cases h2 : ex.stop < r.stop <;>
      simp only [h1, h2, decide_true, decide_false]
    · exact ⟨Nat.le_refl _, Nat.le_refl _⟩
    · exact .inr (Nat.le_refl _)
    · exact .inl (Nat.le_refl _)
    · trivial

/-- a part of a region is clear of what the region is clear of -/
theorem PartOf.clear (ha : a.PartOf r) (h : ex.stop ≤ r.start ∨ r.stop ≤ ex.start) :
    ex.stop ≤ a.start ∨ a.stop ≤ ex.start := by
  have := ha.start
  have := ha.stop
  omega

/-- a region that is clear of all ranges, and one more range -/
theorem piecesFrom_snoc_of_clear (h : ∀ y ∈ ys, y.stop ≤ r.start ∨ r.stop ≤ y.start) :
    piecesFrom (ys ++ [ex]) (fuel + 1) r = none ↔ ex.Holds r := by
  have hclear {a : Region} (ha : a.PartOf r) (hex : ex.stop ≤ a.start ∨ a.stop ≤ ex.start) :
      piecesFrom (ys ++ [ex]) fuel a = some [a] := by
    refine piecesFrom_clear (List.forall_mem_append.2 ⟨fun y hy => ha.clear (h y hy), ?_⟩)
    exact List.forall_mem_singleton.2 hex
  have hshort := clip_shortens r ex
  have hclears := clip_clears r ex
  rw [piecesFrom, firstClip_append, if_pos (firstClip_eq_keep_iff.2 h), firstClip_singleton,
    ← clip_eq_inside_iff]
  generalize r.clip ex = c at hshort hclears
  cases hshort with
  | keep => simp
  | trim rest => simp [hclear rest hclears]
  | split left right => simp [hclear left (.inr hclears.1), hclear right (.inl hclears.2)]
  | inside => simp

theorem bind_append_eq_none {x y : Option (List Region)} :
    (do let left ← x; let right ← y; some (left ++ right)) = none ↔ x = none ∨ y = none := by
  cases x <;> cases y <;> simp

/-- **One more range**: clipping fails if it failed before, or if the range holds a whole piece -/
theorem piecesFrom_snoc_eq_none (hfuel : r.stop - r.start < fuel) : piecesFrom (ys ++ [ex]) fuel r = none ↔
    ∀ ps, piecesFrom ys fuel r = some ps → ∃ p ∈ ps, ex.Holds p := by
  induction fuel generalizing r with
  | zero => omega
  | succ fuel ih =>
    by_cases hkeep : r.firstClip ys = .keep
    · have hclear := firstClip_eq_keep_iff.1 hkeep
      rw [piecesFrom_snoc_of_clear hclear, piecesFrom_clear hclear]
      simp
    · have hshort := firstClip_shortens r ys
      rw [piecesFrom, piecesFrom, firstClip_append, if_neg hkeep]
      generalize r.firstClip ys = c at hshort hkeep
      cases hshort with
      | keep => exact absurd rfl hkeep
      | inside => simp
      | trim rest =>
        have := rest.shorter
        exact ih (by omega)
      | @split a b left right =>
        have := left.shorter
        have := right.shorter
        have hleft := ih (r := a) (by omega)
        have hright := ih (r := b) (by omega)
        dsimp only
        rw [bind_append_eq_none]
        cases hls : piecesFrom ys fuel a with
        | none => simp [hleft, hls]
        | some ls =>
          cases hrs : piecesFrom ys fuel b with
          | none => simp [hright, hrs]
          | some rs => simp [hleft, hright, hls, hrs, or_and_right, exists_or]

/-- **The range that fails**: clipping fails exactly if the ranges before some range leave a piece that this
range holds -/
theorem piecesFrom_eq_none_iff (hfuel : r.stop - r.start < fuel) : piecesFrom exs fuel r = none ↔
    ∃ ys ex zs ps, exs = ys ++ ex :: zs ∧ piecesFrom ys fuel r = some ps ∧ ∃ p ∈ ps, ex.Holds p := by
  induction exs using List.reverseRecOn with
  | nil =>
    refine iff_of_false (by rw [piecesFrom_clear (by simp)]; simp) ?_
    rintro ⟨ys, ex, zs, ps, h, -⟩
    exact absurd h (by simp)
  | append_singleton ys ex ih =>
    rw [piecesFrom_snoc_eq_none hfuel]
    constructor
    · intro h
      cases hys : piecesFrom ys fuel r with
      | some ps => exact ⟨ys, ex, [], ps, rfl, hys, h ps hys⟩
      | none =>
        obtain ⟨ys', ex', zs, ps, rfl, hps, hp⟩ := ih.1 hys
        exact ⟨ys', ex', zs ++ [ex], ps, by simp, hps, hp⟩
    · rintro ⟨ys', ex', zs, ps, heq, hps, hp⟩ qs hqs
      rcases List.eq_nil_or_concat zs with rfl | ⟨zs, z, rfl⟩
      · obtain ⟨rfl, hex⟩ := List.append_inj' heq rfl
        obtain rfl := (List.cons.inj hex).1
        obtain rfl := Option.some.inj (hqs.symm.trans hps)
        exact hp
      · rw [List.concat_eq_append, ← List.cons_append, ← List.append_assoc] at heq
        have hfails := ih.2 ⟨ys', ex', zs, ps, (List.append_inj' heq rfl).1, hps, hp⟩
        exact nomatch hqs.symm.trans hfails

/-! ## what remains in the end -/

/-- **The pieces** are all parts that the excluded ranges are clear of, with ends like those of pieces -/
theorem Remains.mem (h : Remains exs r rs) (hexs : ∀ ex ∈ exs, ex.start ≤ ex.stop) (hproper : p.start < p.stop)
    (hpart : r.start ≤ p.start ∧ p.stop ≤ r.stop) (hends : EndsOf exs r p)
    (hclear : ∀ ex ∈ exs, ex.stop ≤ p.start ∨ p.stop ≤ ex.start) : p ∈ rs := by
  have hout : Outside exs p.start := by
    rintro ex hex ⟨h1, h2⟩
    have := hclear ex hex
    omega
  obtain ⟨u, hu, h1, h2⟩ := h.has p.start ⟨hpart.1, by omega⟩ hout
  have hwithin : r.start ≤ u.start ∧ u.stop ≤ r.stop := by
    rcases h.part u hu with rfl | hpart
    · exact ⟨Nat.le_refl _, Nat.le_refl _⟩
    · exact ⟨hpart.start, hpart.stop⟩
  have hstart : u.start = p.start := by
    rcases hends.start with hstart | ⟨ex, hex, hstart⟩
    · omega
    · have := h.clear u hu ex hex
      have := hexs ex hex
      omega
  have hle : u.stop ≤ p.stop := by
    rcases hends.stop with hstop | ⟨ex, hex, hstop⟩
    · omega
    · have := h.clear u hu ex hex
      have := hexs ex hex
      omega
  have hge : p.stop ≤ u.stop := by
    rcases (h.ends u hu).stop with hstop | ⟨ex, hex, hstop⟩
    · omega
    · have := hclear ex hex
      have := hexs ex hex
      omega
  obtain rfl : u = p := by
    cases u
    cases p
    congr
    exact Nat.le_antisymm hle hge
  exact hu

theorem Remains.proper (h : Remains exs r rs) (hr : r.start < r.stop) :
    ∀ s ∈ rs, s.start < s.stop ∧ r.start ≤ s.start ∧ s.stop ≤ r.stop := by
  intro s hs
  rcases h.part s hs with rfl | hpart
  · exact ⟨hr, Nat.le_refl _, Nat.le_refl _⟩
  · exact ⟨hpart.proper, hpart.start, hpart.stop⟩

theorem EndsOf.mono (h : EndsOf ys r s) (hsub : ∀ ex ∈ ys, ex ∈ exs) : EndsOf exs r s :=
  ⟨h.start.imp_right fun ⟨ex, hex, hs⟩ => ⟨ex, hsub ex hex, hs⟩,
    h.stop.imp_right fun ⟨ex, hex, hs⟩ => ⟨ex, hsub ex hex, hs⟩⟩

/-- the same ranges leave the same pieces, whatever their order -/
theorem Remains.unique (h : Remains exs r rs) (h' : Remains ys r ss) (hmem : ∀ ex, ex ∈ ys ↔ ex ∈ exs)
    (hexs : ∀ ex ∈ exs, ex.start ≤ ex.stop) (hr : r.start < r.stop) : rs = ss := by
  have hpairwise {exs ts : List Region} (h : Remains exs r ts) : ts.Pairwise fun a b => a.start < b.start :=
    h.apart.imp_of_mem fun ha _ hab => Nat.lt_of_lt_of_le (h.proper hr _ ha).1 hab
  have : Std.Antisymm fun a b : Region => a.start < b.start :=
    ⟨fun a b hab hba => absurd hab (Nat.lt_asymm hba)⟩
  have : Std.Irrefl fun a b : Region => a.start < b.start := ⟨fun a => Nat.lt_irrefl a.start⟩
  refine (hpairwise h).eq_of_mem_iff (hpairwise h') fun s => ⟨fun hs => ?_, fun hs => ?_⟩
  · obtain ⟨hproper, hpart⟩ := h.proper hr s hs
    exact h'.mem (fun ex hex => hexs ex ((hmem ex).1 hex)) hproper hpart
      ((h.ends s hs).mono fun ex hex => (hmem ex).2 hex) fun ex hex => h.clear s hs ex ((hmem ex).1 hex)
  · obtain ⟨hproper, hpart⟩ := h'.proper hr s hs
    exact h.mem hexs hproper hpart ((h'.ends s hs).mono fun ex hex => (hmem ex).1 hex) fun ex hex =>
      h'.clear s hs ex ((hmem ex).2 hex)

/-- **What remains** does not depend on the order of the excluded ranges -/
theorem pieces_perm (hexs : ∀ ex ∈ exs, ex.start ≤ ex.stop) (hys : ys.Perm exs)
    (h : pieces exs length r = some rs) (h' : pieces ys length r = some ss) : rs = ss := by
  have hys' : ∀ ex ∈ ys, ex.start ≤ ex.stop := fun ex hex => hexs ex (hys.mem_iff.1 hex)
  rcases Nat.lt_or_ge r.start r.stop with hr | hr
  · exact (pieces_remains hexs h).unique (pieces_remains hys' h') (fun ex => hys.mem_iff) hexs hr
  · rw [pieces_eq hexs] at h
    rw [pieces_eq hys'] at h'
    rw [piecesFrom_of_empty hr h, piecesFrom_of_empty hr h']

/-! ## orders that fail -/

/-- an excluded range holds the region, or a part of it that other ranges leave -/
def Caught (exs : List Region) (r : Region) : Prop :=
  ∃ ex ∈ exs, ∃ p, ex.Holds p ∧ (p = r ∨ p.PartOf r) ∧ EndsOf exs r p

/-- an excluded range holds the region, or the region has positions and all of them are excluded -/
def Consumed (exs : List Region) (r : Region) : Prop :=
  (∃ ex ∈ exs, ex.Holds r) ∨ r.start < r.stop ∧ ∀ q, r.Has q → ¬ Outside exs q

theorem caught_of_none (hexs : ∀ ex ∈ exs, ex.start ≤ ex.stop) (hfuel : r.stop - r.start < fuel)
    (h : piecesFrom exs fuel r = none) : Caught exs r := by
  obtain ⟨ys, ex, zs, ps, rfl, hps, p, hp, hholds⟩ := (piecesFrom_eq_none_iff hfuel).1 h
  have hremains := piecesFrom_remains (fun y hy => hexs y (List.mem_append_left _ hy)) hfuel hps
  exact ⟨ex, List.mem_append_right _ List.mem_cons_self, p, hholds, hremains.part p hp,
    (hremains.ends p hp).mono fun y hy => List.mem_append_left _ hy⟩

/-- ranges that clear a part of the region, with ends like those of a piece, leave it, and then the range that
holds it fails -/
theorem none_of_part (hexs : ∀ ex ∈ ys, ex.start ≤ ex.stop) (hfuel : r.stop - r.start < fuel)
    (hpart : p.PartOf r) (hends : EndsOf ys r p) (hclear : ∀ y ∈ ys, y.stop ≤ p.start ∨ p.stop ≤ y.start)
    (hholds : ex.Holds p) : piecesFrom (ys ++ ex :: zs) fuel r = none := by
  cases hps : piecesFrom ys fuel r with
  | some ps =>
    have hp := (piecesFrom_remains hexs hfuel hps).mem hexs hpart.proper ⟨hpart.start, hpart.stop⟩ hends hclear
    exact (piecesFrom_eq_none_iff hfuel).2 ⟨ys, ex, zs, ps, rfl, hps, p, hp, hholds⟩
  | none =>
    obtain ⟨ys', y, zs', ps, rfl, hps, hfails⟩ := (piecesFrom_eq_none_iff hfuel).1 hps
    exact (piecesFrom_eq_none_iff hfuel).2 ⟨ys', y, zs' ++ ex :: zs, ps, by simp, hps, hfails⟩

theorem exists_none_of_caught (hexs : ∀ ex ∈ exs, ex.start ≤ ex.stop) (hfuel : r.stop - r.start < fuel)
    (h : Caught exs r) : ∃ xs, xs.Perm exs ∧ piecesFrom xs fuel r = none := by
  obtain ⟨ex, hex, p, hholds, rfl | hpart, hends⟩ := h
  · refine ⟨ex :: exs.erase ex, (List.perm_cons_erase hex).symm, (piecesFrom_eq_none_iff hfuel).2 ?_⟩
    exact ⟨[], ex, exs.erase ex, [p], rfl, piecesFrom_clear (by simp), p, List.mem_singleton_self p, hholds⟩
  · -- first all ranges that the part is clear of
    let clears (y : Region) : Bool := decide (y.stop ≤ p.start ∨ p.stop ≤ y.start)
    have hclears {y : Region} : clears y = true ↔ y.stop ≤ p.start ∨ p.stop ≤ y.start := decide_eq_true_iff
    have hproper := hpart.proper
    have hmem : ex ∈ exs.filter fun y => !clears y := by
      refine List.mem_filter.2 ⟨hex, ?_⟩
      rw [Bool.not_eq_true', ← Bool.not_eq_true, hclears]
      have := hholds.meets
      omega
    refine ⟨exs.filter clears ++ ex :: (exs.filter fun y => !clears y).erase ex, ?_, none_of_part ?_ hfuel hpart
      ?_ (fun y hy => hclears.1 (List.mem_filter.1 hy).2) hholds⟩
    · exact ((List.perm_cons_erase hmem).symm.append_left _).trans (List.filter_append_perm clears exs)
    · exact fun y hy => hexs y (List.mem_of_mem_filter hy)
    · refine ⟨hends.start.imp_right fun ⟨y, hy, hs⟩ => ⟨y, ?_, hs⟩,
        hends.stop.imp_right fun ⟨y, hy, hs⟩ => ⟨y, ?_, hs⟩⟩
      · exact List.mem_filter.2 ⟨hy, hclears.2 (.inl (by omega))⟩
      · exact List.mem_filter.2 ⟨hy, hclears.2 (.inr (by omega))⟩

/-- **Clipping fails in some order** exactly if the region is caught -/
theorem exists_none_iff_caught (hexs : ∀ ex ∈ exs, ex.start ≤ ex.stop) (length : Nat) :
    (∃ xs, xs.Perm exs ∧ pieces xs length r = none) ↔ Caught exs r := by
  have hfuel : r.stop - r.start < r.stop + (length - r.start) + 1 := by omega
  simp only [pieces, Option.map_eq_none_iff]
  refine ⟨?_, exists_none_of_caught hexs hfuel⟩
  rintro ⟨xs, hxs, h⟩
  obtain ⟨ex, hex, p, hholds, hpart, hends⟩ := caught_of_none (fun ex hex => hexs ex (hxs.mem_iff.1 hex)) hfuel h
  exact ⟨ex, hxs.mem_iff.1 hex, p, hholds, hpart, hends.mono fun y hy => hxs.mem_iff.1 hy⟩

/-! ## orders that do not fail -/

/-- something always remains -/
theorem piecesFrom_ne_nil (exs : List Region) (fuel : Nat) (r : Region) : piecesFrom exs fuel r ≠ some [] := by
  induction fuel generalizing r with
  | zero => simp [piecesFrom]
  | succ fuel ih =>
    rw [piecesFrom]
    split
    · simp
    · rename_i a b _
      have ha := ih a
      cases hls : piecesFrom exs fuel a with
      | none => simp
      | some ls => cases hrs : piecesFrom exs fuel b <;> simp_all
    · exact ih _
    · simp

theorem none_of_consumed (hexs : ∀ ex ∈ exs, ex.start ≤ ex.stop) (hfuel : r.stop - r.start < fuel)
    (h : Consumed exs r) : piecesFrom exs fuel r = none := by
  refine Option.eq_none_iff_forall_ne_some.2 fun ps hps => ?_
  have hremains := piecesFrom_remains hexs hfuel hps
  obtain ⟨p, hp⟩ : ∃ p, p ∈ ps := List.exists_mem_of_ne_nil ps fun hnil => by
    rw [hnil] at hps
    exact piecesFrom_ne_nil exs fuel r hps
  rcases h with ⟨ex, hex, hholds⟩ | ⟨hr, hall⟩
  · have hclear := hremains.clear p hp ex hex
    have hmeets := hholds.meets
    have h1 := hholds.start
    have h2 := hholds.stop
    rcases hremains.part p hp with rfl | hpart
    · omega
    · have := hpart.start
      have := hpart.stop
      have := hpart.proper
      omega
  · obtain ⟨hproper, hstart, hstop⟩ := hremains.proper hr p hp
    refine hall p.start ⟨hstart, by omega⟩ fun ex hex hhas => ?_
    have := hremains.clear p hp ex hex
    obtain ⟨h1, h2⟩ := hhas
    omega

/-- Ranges come inward from both ends towards a position: those in front of it by increasing starts, and those
behind it by decreasing stops. -/
def Inward (q : Nat) (a b : Region) : Prop := (b.stop ≤ q → a.start ≤ b.start) ∧ (q < a.stop → b.stop ≤ a.stop)

/-- the ranges can be put in such an order -/
theorem exists_inward (exs : List Region) (q : Nat) : ∃ xs : List Region, xs.Perm exs ∧ xs.Pairwise (Inward q) := by
  let left (x : Region) : Bool := decide (x.stop ≤ q)
  have hleft {x : Region} : left x = true ↔ x.stop ≤ q := decide_eq_true_iff
  let xs := (exs.filter left).mergeSort fun a b => decide (a.start ≤ b.start)
  let ys := (exs.filter fun x => !left x).mergeSort fun a b => decide (b.stop ≤ a.stop)
  have hxs : ∀ x ∈ xs, x.stop ≤ q := fun x hx => hleft.1 (List.mem_filter.1 (List.mem_mergeSort.1 hx)).2
  have hys : ∀ y ∈ ys, q < y.stop := by
    intro y hy
    have hnot := (List.mem_filter.1 (List.mem_mergeSort.1 hy)).2
    rw [Bool.not_eq_true', ← Bool.not_eq_true, hleft] at hnot
    exact Nat.lt_of_not_le hnot
  refine ⟨xs ++ ys, ?_, List.pairwise_append.2 ⟨?_, ?_, fun x hx y hy => ?_⟩⟩
  · exact ((List.mergeSort_perm _ _).append (List.mergeSort_perm _ _)).trans (List.filter_append_perm left exs)
  · have hsorted : xs.Pairwise fun a b => decide (a.start ≤ b.start) = true :=
      List.pairwise_mergeSort (fun a b c => by simp; omega) (fun a b => by simp; omega) _
    refine hsorted.imp_of_mem fun {a b} ha _ hab => ⟨fun _ => of_decide_eq_true hab, fun hq => ?_⟩
    have := hxs a ha
    omega
  · have hsorted : ys.Pairwise fun a b => decide (b.stop ≤ a.stop) = true :=
      List.pairwise_mergeSort (fun a b c => by simp; omega) (fun a b => by simp; omega) _
    refine hsorted.imp_of_mem fun {a b} _ hb hab => ⟨fun hq => ?_, fun _ => of_decide_eq_true hab⟩
    have := hys b hb
    omega
  · have := hxs x hx
    have := hys y hy
    exact ⟨fun hq => by omega, fun hq => by omega⟩

/-- Clipping in such an order does not fail: a piece that does not hold the position ends where an earlier range
begins or ends, and the next range does not reach beyond it. -/
theorem some_of_inward (hexs : ∀ ex ∈ exs, ex.start ≤ ex.stop) (hfuel : r.stop - r.start < fuel) (hq : r.Has q)
    (hout : Outside exs q) (h : exs.Pairwise (Inward q)) : piecesFrom exs fuel r ≠ none := by
  intro hnone
  obtain ⟨ys, ex, zs, ps, rfl, hps, p, hp, hholds⟩ := (piecesFrom_eq_none_iff hfuel).1 hnone
  have hremains := piecesFrom_remains (fun y hy => hexs y (List.mem_append_left _ hy)) hfuel hps
  have hbefore : ∀ y ∈ ys, Inward q y ex := fun y hy =>
    (List.pairwise_append.1 h).2.2 y hy ex List.mem_cons_self
  have hfree : ¬ ex.Has q := hout ex (List.mem_append_right _ List.mem_cons_self)
  obtain ⟨hq1, hq2⟩ := hq
  have h1 := hholds.start
  have h2 := hholds.stop
  have hmeets := hholds.meets
  unfold Has at hfree
  rcases Nat.lt_or_ge q ex.stop with hright | hleft
  · rcases (hremains.ends p hp).start with hstart | ⟨y, hy, hstart⟩
    · omega
    · have := (hbefore y hy).2
      omega
  · rcases (hremains.ends p hp).stop with hstop | ⟨y, hy, hstop⟩
    · omega
    · have := (hbefore y hy).1
      omega

/-- **Clipping fails in every order** exactly if the region is consumed -/
theorem forall_none_iff_consumed (hexs : ∀ ex ∈ exs, ex.start ≤ ex.stop) (length : Nat) :
    (∀ xs, xs.Perm exs → pieces xs length r = none) ↔ Consumed exs r := by
  have hfuel : r.stop - r.start < r.stop + (length - r.start) + 1 := by omega
  simp only [pieces, Option.map_eq_none_iff]
  constructor
  · intro h
    by_contra hnot
    obtain ⟨hholds, hfree⟩ := not_or.1 hnot
    rcases Nat.lt_or_ge r.start r.stop with hr | hr
    · -- some position is left, and the ranges can come from both sides
      obtain ⟨q, hq, hout⟩ : ∃ q, r.Has q ∧ Outside exs q := by
        by_contra hnone
        exact hfree ⟨hr, fun q hq hout => hnone ⟨q, hq, hout⟩⟩
      obtain ⟨xs, hxs, hinward⟩ := exists_inward exs q
      exact some_of_inward (fun ex hex => hexs ex (hxs.mem_iff.1 hex)) hfuel hq
        (fun ex hex => hout ex (hxs.mem_iff.1 hex)) hinward (h xs hxs)
    · obtain ⟨ys, ex, zs, ps, rfl, hps, p, hp, hp'⟩ := (piecesFrom_eq_none_iff hfuel).1 (h exs (.refl exs))
      rw [piecesFrom_of_empty hr hps, List.mem_singleton] at hp
      exact hholds ⟨ex, List.mem_append_right _ List.mem_cons_self, hp ▸ hp'⟩
  · intro h xs hxs
    refine none_of_consumed (fun ex hex => hexs ex (hxs.mem_iff.1 hex)) hfuel ?_
    rcases h with ⟨ex, hex, hholds⟩ | ⟨hr, hall⟩
    · exact .inl ⟨ex, hxs.mem_iff.2 hex, hholds⟩
    · refine .inr ⟨hr, fun q hq hout => ?_⟩
      exact hall q hq fun ex hex => hout ex (hxs.mem_iff.2 hex)

/-- no two different ranges overlap or touch -/
def Parted (exs : List Region) : Prop := ∀ a ∈ exs, ∀ b ∈ exs, a = b ∨ a.stop < b.start ∨ b.stop < a.start

/-- **Ranges that do not touch** catch a region only if one of them holds all of it -/
theorem caught_iff_of_parted (hexs : ∀ ex ∈ exs, ex.start ≤ ex.stop) (hparted : Parted exs) :
    Caught exs r ↔ ∃ ex ∈ exs, ex.Holds r := by
  constructor
  · rintro ⟨ex, hex, p, hholds, -, hends⟩
    have h1 := hholds.start
    have h2 := hholds.stop
    have hmeets := hholds.meets
    have hstart : p.start = r.start := by
      rcases hends.start with hstart | ⟨s, hs, hstart⟩
      · exact hstart
      · have := hexs s hs
        rcases hparted ex hex s hs with rfl | hlt | hlt <;> omega
    have hstop : p.stop = r.stop := by
      rcases hends.stop with hstop | ⟨s, hs, hstop⟩
      · exact hstop
      · have := hexs s hs
        rcases hparted ex hex s hs with rfl | hlt | hlt <;> omega
    exact ⟨ex, hex, ⟨hstart ▸ h1, hstop ▸ h2, by omega⟩⟩
  · rintro ⟨ex, hex, hholds⟩
    exact ⟨ex, hex, r, hholds, .inl rfl, .refl exs r⟩

/-- so they fail in every order or in none -/
theorem pieces_ne_none_of_parted (hexs : ∀ ex ∈ exs, ex.start ≤ ex.stop) (hparted : Parted exs)
    (hys : ys.Perm exs) (h : pieces exs length r ≠ none) : pieces ys length r ≠ none := by
  intro hnone
  have hcaught := (exists_none_iff_caught hexs length).1 ⟨ys, hys, hnone⟩
  have hconsumed : Consumed exs r := .inl ((caught_iff_of_parted hexs hparted).1 hcaught)
  exact h ((forall_none_iff_consumed hexs length).2 hconsumed exs (.refl exs))

end Region

/-! ## tables -/

section
variable {α β ε : Type} {f : α → Except ε β} {xs us : List α} {ys vs : List β}

theorem mapM_ok_iff : xs.mapM f = .ok ys ↔ List.Forall₂ (fun x y => f x = .ok y) xs ys := by
  induction xs generalizing ys with
  | nil =>
    rw [List.forall₂_nil_left_iff]
    exact ⟨fun h => (Except.ok.inj h).symm, fun h => h ▸ rfl⟩
  | cons x xs ih =>
    rw [List.mapM_cons, List.forall₂_cons_left_iff]
    constructor
    · intro h
      obtain ⟨y, hy, h⟩ := Effect.bind_eq_ok h
      obtain ⟨zs, hzs, h⟩ := Effect.bind_eq_ok h
      exact ⟨y, zs, hy, ih.1 hzs, (Except.ok.inj h).symm⟩
    · rintro ⟨y, zs, hy, hzs, rfl⟩
      rw [hy, ih.2 hzs]
      rfl

/-- results in another order come from an order of what they are computed from -/
theorem mapM_perm_right (h : xs.mapM f = .ok ys) (hvs : vs.Perm ys) :
    ∃ us : List α, us.Perm xs ∧ us.mapM f = .ok vs := by
  obtain ⟨us, hus, hperm⟩ := List.perm_comp_forall₂ hvs (mapM_ok_iff.1 h).flip
  exact ⟨us, hperm, mapM_ok_iff.2 hus.flip⟩

theorem mapM_perm_left (h : xs.mapM f = .ok ys) (hus : us.Perm xs) :
    ∃ vs : List β, vs.Perm ys ∧ us.mapM f = .ok vs := by
  obtain ⟨vs, hvs, hperm⟩ := List.perm_comp_forall₂ hus (mapM_ok_iff.1 h)
  exact ⟨vs, hperm, mapM_ok_iff.2 hvs⟩

end

section
variable {code : List Insn} {t : TryCatch} {table es : List TryCatch} {r : Region} {excluded : List Region}
  {exclusions xs : List Exclusion}

/-- the entry does not end before it starts -/
def TryCatch.Ordered (t : TryCatch) (code : List Insn) : Prop :=
  ∀ start ∈ labelPosition t.start code, ∀ stop ∈ labelPosition t.stop code, start ≤ stop

instance (t : TryCatch) (code : List Insn) : Decidable (t.Ordered code) :=
  inferInstanceAs (Decidable (∀ start ∈ labelPosition t.start code, ∀ stop ∈ labelPosition t.stop code,
    start ≤ stop))

/-- an entry is split exactly if its labels stand in the code and something of its region remains -/
theorem splitRegion_ok_iff (ht : t.Ordered code)
    (hexs : ∀ ex ∈ excluded, ex.start ≤ ex.stop) (hmarked : ∀ ex ∈ excluded, ex.Ends (Marked code)) :
    (∃ es, splitRegion code excluded t = .ok es) ↔
      ∃ r, t.At code r ∧ Region.pieces excluded code.length r ≠ none := by
  constructor
  · rintro ⟨es, h⟩
    obtain ⟨r, rs, hat, hrs, -⟩ := splitRegion_pieces h
    exact ⟨r, hat, by simp [hrs]⟩
  · rintro ⟨r, hat, hsome⟩
    obtain ⟨rs, hrs⟩ := Option.ne_none_iff_exists'.1 hsome
    have hordered := (Region.pieces_remains hexs hrs).ordered (ht _ hat.1 _ hat.2)
    rw [splitRegion_eq hat, hrs]
    exact ⟨_, collectEntries_pieces_eq hordered (hat.pieces_ends hmarked hrs)⟩

/-- an entry fails for what is excluded exactly if nothing of its region remains -/
theorem splitRegion_inside {s s' : Label}
    (h : splitRegion code excluded t = .error (.regionInsideInjectedCode s s')) :
    s = t.start ∧ s' = t.stop ∧ ∃ r, t.At code r ∧ Region.pieces excluded code.length r = none := by
  have hwhole := h
  rcases Effect.bind_eq_error.1 h with h | ⟨start, hstart, h⟩
  · exact absurd (regionPosition_error h) (by simp)
  rcases Effect.bind_eq_error.1 h with h | ⟨stop, hstop, -⟩
  · exact absurd (regionPosition_error h) (by simp)
  have hat : t.At code ⟨start, stop⟩ := ⟨regionPosition_ok hstart, regionPosition_ok hstop⟩
  rw [splitRegion_eq hat] at hwhole
  split at hwhole
  · obtain ⟨rfl, rfl⟩ := WeaveFailure.regionInsideInjectedCode.inj (Except.error.inj hwhole)
    exact ⟨rfl, rfl, _, hat, ‹_›⟩
  · obtain ⟨before, piece, after, -, -, hpiece⟩ := collectEntries_error_iff.1 hwhole
    exact absurd (pieceEntry_error hpiece).2 (by simp)

theorem collectEntries_congr {α : Type} {f g : α → Except WeaveFailure (List TryCatch)} {as : List α}
    (h : ∀ a ∈ as, f a = g a) : collectEntries f as = collectEntries g as := by
  induction as with
  | nil => rfl
  | cons a as ih =>
    rw [collectEntries, collectEntries, h a List.mem_cons_self, ih fun b hb => h b (List.mem_cons_of_mem _ hb)]

theorem collectEntries_ok_iff {α : Type} {f : α → Except WeaveFailure (List TryCatch)} {as : List α} :
    (∃ es, collectEntries f as = .ok es) ↔ ∀ a ∈ as, ∃ ds, f a = .ok ds := by
  refine ⟨fun ⟨es, h⟩ => (collectEntries_ok h).1, fun h => ?_⟩
  cases hes : collectEntries f as with
  | ok es => exact ⟨es, rfl⟩
  | error e =>
    obtain ⟨before, a, after, rfl, -, ha⟩ := collectEntries_error_iff.1 hes
    obtain ⟨ds, hds⟩ := h a (List.mem_append_right _ List.mem_cons_self)
    exact nomatch ha.symm.trans hds

/-- a table is split exactly if all labels stand in the code and something remains of each region -/
theorem splitRegions_ok_iff (hx : ∀ x ∈ exclusions, x.Ordered code) (ht : ∀ t ∈ table, t.Ordered code) :
    (∃ es, splitRegions code table exclusions = .ok es) ↔
      ∃ excluded, exclusions.mapM (exclusionRegion code) = .ok excluded ∧
        ∀ t ∈ table, ∃ r, t.At code r ∧ Region.pieces excluded code.length r ≠ none := by
  constructor
  · rintro ⟨es, h⟩
    obtain ⟨excluded, hexcluded, h⟩ := Effect.bind_eq_ok h
    refine ⟨excluded, hexcluded, fun t hmem => ?_⟩
    exact (splitRegion_ok_iff (ht t hmem) (exclusions_ordered hexcluded hx) (exclusions_marked hexcluded)).1
      ((collectEntries_ok h).1 t hmem)
  · rintro ⟨excluded, hexcluded, hall⟩
    unfold splitRegions
    rw [hexcluded]
    refine collectEntries_ok_iff.2 fun t hmem => ?_
    exact (splitRegion_ok_iff (ht t hmem) (exclusions_ordered hexcluded hx) (exclusions_marked hexcluded)).2
      (hall t hmem)

/-- **Two orders** that both succeed give the same table -/
theorem splitRegions_perm {ds : List TryCatch} (hx : ∀ x ∈ exclusions, x.Ordered code) (hxs : xs.Perm exclusions)
    (h : splitRegions code table exclusions = .ok es) (h' : splitRegions code table xs = .ok ds) : es = ds := by
  obtain ⟨excluded, hexcluded, h⟩ := Effect.bind_eq_ok h
  obtain ⟨others, hothers, h'⟩ := Effect.bind_eq_ok h'
  obtain ⟨others', hperm, hothers'⟩ := mapM_perm_left hexcluded hxs
  obtain rfl := Except.ok.inj (hothers.symm.trans hothers')
  have hsame : ∀ t ∈ table, splitRegion code excluded t = splitRegion code others t := by
    intro t ht
    obtain ⟨fs, hfs⟩ := (collectEntries_ok h).1 t ht
    obtain ⟨gs, hgs⟩ := (collectEntries_ok h').1 t ht
    obtain ⟨r, rs, hat, hrs, -⟩ := splitRegion_pieces hfs
    obtain ⟨r', ss, hat', hss, -⟩ := splitRegion_pieces hgs
    obtain rfl := hat.unique hat'
    have hexs := exclusions_ordered hexcluded hx
    obtain rfl := Region.pieces_perm hexs hperm hrs hss
    rw [splitRegion_eq hat, splitRegion_eq hat, hrs, hss]
  rw [collectEntries_congr hsame] at h
  exact Except.ok.inj (h.symm.trans h')

/-- **All orders succeed** exactly if no region is caught -/
theorem forall_splitRegions_ok_iff (hx : ∀ x ∈ exclusions, x.Ordered code) (ht : ∀ t ∈ table, t.Ordered code) :
    (∀ xs, xs.Perm exclusions → ∃ es, splitRegions code table xs = .ok es) ↔
      ∃ excluded, exclusions.mapM (exclusionRegion code) = .ok excluded ∧
        ∀ t ∈ table, ∃ r, t.At code r ∧ ¬ Region.Caught excluded r := by
  have hx' {xs : List Exclusion} (hxs : xs.Perm exclusions) : ∀ x ∈ xs, x.Ordered code :=
    fun x hmem => hx x (hxs.mem_iff.1 hmem)
  constructor
  · intro h
    obtain ⟨excluded, hexcluded, hall⟩ := (splitRegions_ok_iff hx ht).1 (h exclusions (.refl _))
    refine ⟨excluded, hexcluded, fun t hmem => ?_⟩
    obtain ⟨r, hat, -⟩ := hall t hmem
    refine ⟨r, hat, fun hcaught => ?_⟩
    obtain ⟨ys, hys, hnone⟩ := (Region.exists_none_iff_caught (exclusions_ordered hexcluded hx)
      code.length).2 hcaught
    obtain ⟨xs, hxs, hregions⟩ := mapM_perm_right hexcluded hys
    obtain ⟨ys', hys', hall'⟩ := (splitRegions_ok_iff (hx' hxs) ht).1 (h xs hxs)
    obtain rfl := Except.ok.inj (hregions.symm.trans hys')
    obtain ⟨r', hat', hsome⟩ := hall' t hmem
    obtain rfl := hat.unique hat'
    exact hsome hnone
  · rintro ⟨excluded, hexcluded, hall⟩ xs hxs
    obtain ⟨ys, hys, hregions⟩ := mapM_perm_left hexcluded hxs
    refine (splitRegions_ok_iff (hx' hxs) ht).2 ⟨ys, hregions, fun t hmem => ?_⟩
    obtain ⟨r, hat, hfree⟩ := hall t hmem
    refine ⟨r, hat, fun hnone => hfree ?_⟩
    exact (Region.exists_none_iff_caught (exclusions_ordered hexcluded hx) code.length).1 ⟨ys, hys, hnone⟩

/-- **All orders fail** for an entry exactly if its region is consumed, or a label does not stand in the code -/
theorem forall_splitRegions_error_iff (hx : ∀ x ∈ exclusions, x.Ordered code) (ht : t.Ordered code) :
    (∀ xs, xs.Perm exclusions → ∃ e, splitRegions code [t] xs = .error e) ↔
      ∀ excluded r, exclusions.mapM (exclusionRegion code) = .ok excluded → t.At code r →
        Region.Consumed excluded r := by
  have hx' {xs : List Exclusion} (hxs : xs.Perm exclusions) : ∀ x ∈ xs, x.Ordered code :=
    fun x hmem => hx x (hxs.mem_iff.1 hmem)
  have hok {xs : List Exclusion} (hxs : xs.Perm exclusions) : (∃ es, splitRegions code [t] xs = .ok es) ↔ _ :=
    splitRegions_ok_iff (hx' hxs) (List.forall_mem_singleton.2 ht)
  constructor
  · intro h excluded r hexcluded hat
    refine (Region.forall_none_iff_consumed (exclusions_ordered hexcluded hx) code.length).1 fun ys hys => ?_
    obtain ⟨xs, hxs, hregions⟩ := mapM_perm_right hexcluded hys
    obtain ⟨e, he⟩ := h xs hxs
    by_contra hsome
    obtain ⟨es, hes⟩ := (hok hxs).2 ⟨ys, hregions, List.forall_mem_singleton.2 ⟨r, hat, hsome⟩⟩
    exact nomatch he.symm.trans hes
  · intro h xs hxs
    cases hes : splitRegions code [t] xs with
    | error e => exact ⟨e, rfl⟩
    | ok es =>
      obtain ⟨ys, hregions, hall⟩ := (hok hxs).1 ⟨es, hes⟩
      obtain ⟨r, hat, hsome⟩ := hall t (List.mem_singleton_self t)
      obtain ⟨excluded, hperm, hexcluded⟩ := mapM_perm_left hregions hxs.symm
      have hnone := (Region.forall_none_iff_consumed (exclusions_ordered hexcluded hx)
        code.length).2 (h excluded r hexcluded hat)
      exact absurd (hnone ys hperm.symm) hsome

/-- a table that fails for what is excluded names an entry whose region is caught -/
theorem splitRegions_inside {s s' : Label} (hx : ∀ x ∈ exclusions, x.Ordered code)
    (h : splitRegions code table exclusions = .error (.regionInsideInjectedCode s s')) :
    ∃ excluded, exclusions.mapM (exclusionRegion code) = .ok excluded ∧
      ∃ t ∈ table, s = t.start ∧ s' = t.stop ∧ ∃ r, t.At code r ∧ Region.Caught excluded r := by
  rcases Effect.bind_eq_error.1 h with h | ⟨excluded, hexcluded, h⟩
  · obtain ⟨x, -, hx⟩ := Effect.mapM_eq_error h
    obtain ⟨l, he⟩ := exclusionRegion_error hx
    exact absurd he (by simp)
  · obtain ⟨before, t, after, rfl, -, ht⟩ := collectEntries_error_iff.1 h
    obtain ⟨hs, hs', r, hat, hnone⟩ := splitRegion_inside ht
    refine ⟨excluded, hexcluded, t, List.mem_append_right _ List.mem_cons_self, hs, hs', r, hat, ?_⟩
    exact (Region.exists_none_iff_caught (exclusions_ordered hexcluded hx) code.length).1
      ⟨excluded, .refl _, hnone⟩

/-- ranges that do not touch: what one order gives, every order gives -/
theorem splitRegions_of_parted (hx : ∀ x ∈ exclusions, x.Ordered code) (ht : ∀ t ∈ table, t.Ordered code)
    (hexcluded : exclusions.mapM (exclusionRegion code) = .ok excluded) (hparted : Region.Parted excluded)
    (hxs : xs.Perm exclusions) (h : splitRegions code table exclusions = .ok es) :
    splitRegions code table xs = .ok es := by
  obtain ⟨excluded', hexcluded', hall⟩ := (splitRegions_ok_iff hx ht).1 ⟨es, h⟩
  obtain rfl := Except.ok.inj (hexcluded.symm.trans hexcluded')
  obtain ⟨ys, hys, hregions⟩ := mapM_perm_left hexcluded hxs
  have hexs := exclusions_ordered hexcluded hx
  obtain ⟨ds, hds⟩ := (splitRegions_ok_iff (fun x hmem => hx x (hxs.mem_iff.1 hmem)) ht).2 ⟨ys, hregions,
    fun t hmem => (hall t hmem).imp fun r ⟨hat, hsome⟩ =>
      ⟨hat, Region.pieces_ne_none_of_parted hexs hparted hys hsome⟩⟩
  rw [hds, splitRegions_perm hx hxs h hds]

/-- **The order of excluded ranges.**  Two orders that both succeed give the same table.  All orders succeed
exactly if no range holds a region, or a part of it that other ranges leave; all orders fail for an entry exactly
if a range holds its region or its region has positions and all of them are excluded.  What is named by a failure
is a region of which some range holds such a part.  If no two ranges touch, all orders do the same, and a region
that is named is held by one range. -/
theorem splitRegions_orders (hx : ∀ x ∈ exclusions, x.Ordered code) (ht : ∀ t ∈ table, t.Ordered code) :
    (∀ xs es ds, xs.Perm exclusions → splitRegions code table exclusions = .ok es →
      splitRegions code table xs = .ok ds → es = ds) ∧
    ((∀ xs, xs.Perm exclusions → ∃ es, splitRegions code table xs = .ok es) ↔
      ∃ excluded, exclusions.mapM (exclusionRegion code) = .ok excluded ∧
        ∀ t ∈ table, ∃ r, t.At code r ∧ ¬ Region.Caught excluded r) ∧
    (∀ t ∈ table, (∀ xs, xs.Perm exclusions → ∃ e, splitRegions code [t] xs = .error e) ↔
      ∀ excluded r, exclusions.mapM (exclusionRegion code) = .ok excluded → t.At code r →
        Region.Consumed excluded r) ∧
    (∀ s s', splitRegions code table exclusions = .error (.regionInsideInjectedCode s s') →
      ∃ excluded, exclusions.mapM (exclusionRegion code) = .ok excluded ∧
        ∃ t ∈ table, s = t.start ∧ s' = t.stop ∧ ∃ r, t.At code r ∧ Region.Caught excluded r) ∧
    ∀ excluded, exclusions.mapM (exclusionRegion code) = .ok excluded → Region.Parted excluded →
      (∀ xs es, xs.Perm exclusions →
        (splitRegions code table exclusions = .ok es ↔ splitRegions code table xs = .ok es)) ∧
      ∀ s s', splitRegions code table exclusions = .error (.regionInsideInjectedCode s s') →
        ∃ t ∈ table, s = t.start ∧ s' = t.stop ∧ ∃ r, t.At code r ∧ ∃ ex ∈ excluded, ex.Holds r := by
  refine ⟨fun xs es ds hxs => splitRegions_perm hx hxs, forall_splitRegions_ok_iff hx ht,
    fun t hmem => forall_splitRegions_error_iff hx (ht t hmem), fun s s' => splitRegions_inside hx, ?_⟩
  intro excluded hexcluded hparted
  refine ⟨fun xs es hxs => ⟨splitRegions_of_parted hx ht hexcluded hparted hxs, fun h => ?_⟩, fun s s' h => ?_⟩
  · obtain ⟨ys, hys, hregions⟩ := mapM_perm_left hexcluded hxs
    have hparted' : Region.Parted ys := fun a ha b hb => hparted a (hys.mem_iff.1 ha) b (hys.mem_iff.1 hb)
    exact splitRegions_of_parted (fun x hmem => hx x (hxs.mem_iff.1 hmem)) ht hregions hparted' hxs.symm h
  · obtain ⟨excluded', hexcluded', t, hmem, hs, hs', r, hat, hcaught⟩ := splitRegions_inside hx h
    obtain rfl := Except.ok.inj (hexcluded.symm.trans hexcluded')
    have hexs := exclusions_ordered hexcluded hx
    exact ⟨t, hmem, hs, hs', r, hat, (Region.caught_iff_of_parted hexs hparted).1 hcaught⟩

end

namespace Ranges

/-- three instructions, each between labels of its own -/
def three : List Insn := [.label ⟨0⟩, .nop, .label ⟨1⟩, .nop, .label ⟨2⟩, .nop, .label ⟨3⟩]

/-- all three are protected -/
def whole : List TryCatch := [⟨⟨0⟩, ⟨3⟩, ⟨9⟩, none⟩]

/-- the last two are excluded, from the front and from the back -/
def forward : List Exclusion := [⟨⟨1⟩, ⟨2⟩⟩, ⟨⟨2⟩, ⟨3⟩⟩]
def backward : List Exclusion := [⟨⟨2⟩, ⟨3⟩⟩, ⟨⟨1⟩, ⟨2⟩⟩]

/-- the first range leaves a piece of one instruction, which the second one holds -/
theorem splitRegions_orders_touching : (∀ x ∈ forward, x.Ordered three) ∧ (∀ t ∈ whole, t.Ordered three) ∧
    ∃ excluded, forward.mapM (exclusionRegion three) = .ok excluded ∧
      ∃ t ∈ whole, ∃ r, t.At three r ∧ Region.Caught excluded r := by
  have hx : ∀ x ∈ forward, x.Ordered three := by decide
  have ht : ∀ t ∈ whole, t.Ordered three := by decide
  obtain ⟨excluded, hexcluded, t, hmem, -, -, r, hat, hcaught⟩ :=
    (splitRegions_orders hx ht).2.2.2.1 ⟨0⟩ ⟨3⟩ rfl
  exact ⟨hx, ht, excluded, hexcluded, t, hmem, r, hat, hcaught⟩

/-- The order matters, and a region fails of which an instruction is not excluded. -/
theorem splitRegions_order_matters : backward.Perm forward ∧
    splitRegions three whole backward = .ok [⟨⟨0⟩, ⟨1⟩, ⟨9⟩, none⟩] ∧
    splitRegions three whole forward = .error (.regionInsideInjectedCode ⟨0⟩ ⟨3⟩) ∧
    ¬ ∃ x ∈ forward, ∃ ex, exclusionRegion three x = .ok ex ∧ ex.start ≤ 0 ∧ 6 ≤ ex.stop := by
  refine ⟨.swap _ _ _, rfl, rfl, ?_⟩
  rintro ⟨x, hx, ex, hex, hstart, -⟩
  obtain rfl | rfl : x = ⟨⟨1⟩, ⟨2⟩⟩ ∨ x = ⟨⟨2⟩, ⟨3⟩⟩ := by simpa [forward] using hx
  · obtain rfl := Except.ok.inj hex
    exact absurd hstart (by decide)
  · obtain rfl := Except.ok.inj hex
    exact absurd hstart (by decide)

end Ranges
end Resumable
