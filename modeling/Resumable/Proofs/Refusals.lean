import Resumable.Proofs.Clipping

/-!
# Clipping that goes wrong

Clipping pieces of a region is done until none is left to be looked at.  It comes to an end for every region and
all excluded ranges, whether or not they are in order, since a clip leaves shorter pieces only.  What may go wrong
is an end that no label marks, a region of which nothing may remain, and a region that ends before it starts: none
of it is ever taken away in part, so it is kept as it is unless an excluded range holds all of it, and then a range
of the code would be asked for that there is not.

* `Region.Loop`, `Region.loop_pieces` : clipping as a loop, which ends;
* `Region.pieces_part`, `Region.pieces_reversed` : what remains of a region, and of one that ends before it starts;
* `collectEntries_error_iff` : the first entry that fails;
* `TryCatch.Backward`, `splitRegion_reversed_iff`, `splitRegions_reversed_iff` : regions that end before they start;
* `splitRegions_ne_stale` : clipping never speaks of other code.
-/

namespace Resumable

namespace Effect

variable {ε α β : Type}

/-- a failure of the first or of the second step -/
theorem bind_eq_error {x : Except ε α} {f : α → Except ε β} {e : ε} :
    (x >>= f) = .error e ↔ x = .error e ∨ ∃ a, x = .ok a ∧ f a = .error e := by
  cases x with
  | error e' => simp [bind, Except.bind]
  | ok a => simp [bind, Except.bind]

theorem mapM_eq_error {f : α → Except ε β} {xs : List α} {e : ε} (h : xs.mapM f = .error e) :
    ∃ x ∈ xs, f x = .error e := by
  induction xs with
  | nil => exact absurd h (by simp [pure, Except.pure])
  | cons x xs ih =>
    rw [List.mapM_cons] at h
    rcases bind_eq_error.1 h with hx | ⟨y, -, h⟩
    · exact ⟨x, List.mem_cons_self, hx⟩
    · rcases bind_eq_error.1 h with hxs | ⟨ys, -, h⟩
      · obtain ⟨x', hx', he⟩ := ih hxs
        exact ⟨x', List.mem_cons_of_mem _ hx', he⟩
      · exact absurd h (by simp [pure, Except.pure])

end Effect

/-! ## the loop -/

namespace Region

/-- Clipping as a loop over the pieces that are still to be looked at, the next one first: it ends with the pieces
that were found, or with none if all of a piece is excluded. -/
inductive Loop (exs : List Region) : List Region → List Region → Option (List Region) → Prop
  | done {found : List Region} : Loop exs [] found (some found)
  | keep {r : Region} {pending found : List Region} {end? : Option (List Region)} (h : r.firstClip exs = .keep)
    (next : Loop exs pending (found ++ [r]) end?) : Loop exs (r :: pending) found end?
  | split {r a b : Region} {pending found : List Region} {end? : Option (List Region)}
    (h : r.firstClip exs = .split a b) (next : Loop exs (a :: b :: pending) found end?) :
    Loop exs (r :: pending) found end?
  | trim {r a : Region} {pending found : List Region} {end? : Option (List Region)} (h : r.firstClip exs = .trim a)
    (next : Loop exs (a :: pending) found end?) : Loop exs (r :: pending) found end?
  | inside {r : Region} {pending found : List Region} (h : r.firstClip exs = .inside) :
    Loop exs (r :: pending) found none

section
variable {r ex a b : Region} {exs rs pending found : List Region} {fuel length : Nat}

/-- a shorter part of a region, which does not end before it starts -/
structure PartOf (a r : Region) : Prop where
  start : r.start ≤ a.start
  proper : a.start < a.stop
  stop : a.stop ≤ r.stop
  shorter : a.stop - a.start < r.stop - r.start

theorem PartOf.trans {r' : Region} (h : a.PartOf r) (h' : r.PartOf r') : a.PartOf r' :=
  ⟨Nat.le_trans h'.start h.start, h.proper, Nat.le_trans h.stop h'.stop, Nat.lt_trans h.shorter h'.shorter⟩

/-- a clip leaves shorter parts of the region -/
inductive Clip.Shortens (r : Region) : Clip → Prop
  | keep : Clip.Shortens r .keep
  | split {a b : Region} (left : a.PartOf r) (right : b.PartOf r) : Clip.Shortens r (.split a b)
  | trim {a : Region} (rest : a.PartOf r) : Clip.Shortens r (.trim a)
  | inside : Clip.Shortens r .inside

theorem clip_shortens (r ex : Region) : (r.clip ex).Shortens r := by
  unfold clip
  split
  · exact .keep
  · by_cases h1 : r.start < ex.start <;> by_cases h2 : ex.stop < r.stop <;>
      simp only [h1, h2, decide_true, decide_false]
    · exact .split (by constructor <;> dsimp only <;> omega) (by constructor <;> dsimp only <;> omega)
    · exact .trim (by constructor <;> dsimp only <;> omega)
    · exact .trim (by constructor <;> dsimp only <;> omega)
    · exact .inside

/-- **One clip** leaves shorter pieces, whatever the excluded ranges are -/
theorem firstClip_shortens (r : Region) (exs : List Region) : (r.firstClip exs).Shortens r := by
  induction exs with
  | nil => exact .keep
  | cons ex exs ih =>
    rw [firstClip]
    split
    · exact ih
    · exact clip_shortens r ex

/-- the loop finds what clipping one piece after the other gives -/
theorem loop_of_piecesFrom {end? : Option (List Region)} (hfuel : r.stop - r.start < fuel)
    (hnext : ∀ rs, piecesFrom exs fuel r = some rs → Loop exs pending (found ++ rs) end?)
    (hnone : piecesFrom exs fuel r = none → end? = none) : Loop exs (r :: pending) found end? := by
  induction fuel generalizing r pending found with
  | zero => omega
  | succ fuel ih =>
    have hshort := firstClip_shortens r exs
    rw [piecesFrom] at hnext hnone
    generalize hclip : r.firstClip exs = c at hshort hnext hnone
    cases hshort with
    | keep => exact .keep hclip (hnext [r] rfl)
    | inside =>
      rw [hnone rfl]
      exact .inside hclip
    | @trim a rest =>
      have := rest.shorter
      exact .trim hclip (ih (by omega) hnext hnone)
    | @split a b left right =>
      have := left.shorter
      have := right.shorter
      dsimp only at hnext hnone
      refine .split hclip (ih (by omega) (fun ls hls => ih (by omega) (fun rs hrs => ?_) fun hrs => ?_) fun hls => ?_)
      · rw [List.append_assoc]
        exact hnext (ls ++ rs) (by rw [hls, hrs]; rfl)
      · exact hnone (by rw [hls, hrs]; rfl)
      · exact hnone (by rw [hls]; rfl)

/-- **The loop ends** for every region, and what it finds is what remains of the region -/
theorem loop_pieces (exs : List Region) (length : Nat) (r : Region) :
    ∃ end?, Loop exs [r] [] end? ∧ pieces exs length r = end?.map sortByStart := by
  have hfuel : r.stop - r.start < r.stop + (length - r.start) + 1 := by omega
  refine ⟨_, loop_of_piecesFrom hfuel (fun rs hrs => ?_) id, rfl⟩
  rw [hrs]
  exact .done

/-! ## what remains -/

theorem piecesFrom_part (hrs : piecesFrom exs fuel r = some rs) : ∀ s ∈ rs, s = r ∨ s.PartOf r := by
  induction fuel generalizing r rs with
  | zero =>
    obtain rfl := Option.some.inj hrs
    exact fun s hs => .inl (List.mem_singleton.1 hs)
  | succ fuel ih =>
    have hshort := firstClip_shortens r exs
    rw [piecesFrom] at hrs
    generalize r.firstClip exs = c at hshort hrs
    -- a part of a part is a part
    have hpart {a s : Region} (ha : a.PartOf r) (hs : s = a ∨ s.PartOf a) : s = r ∨ s.PartOf r := by
      rcases hs with rfl | hs
      · exact .inr ha
      · exact .inr (hs.trans ha)
    cases hshort with
    | keep =>
      obtain rfl := Option.some.inj hrs
      exact fun s hs => .inl (List.mem_singleton.1 hs)
    | inside => exact absurd hrs (by simp)
    | trim rest => exact fun s hs => hpart rest (ih hrs s hs)
    | split left right =>
      obtain ⟨ls, hls, hrs⟩ := Option.bind_eq_some_iff.1 hrs
      obtain ⟨ts, hts, hrs⟩ := Option.bind_eq_some_iff.1 hrs
      obtain rfl : ls ++ ts = rs := Option.some.inj hrs
      intro s hs
      rcases List.mem_append.1 hs with hs | hs
      · exact hpart left (ih hls s hs)
      · exact hpart right (ih hts s hs)

/-- **What remains** of a region is the region, or consists of shorter parts of it -/
theorem pieces_part (hrs : pieces exs length r = some rs) : ∀ s ∈ rs, s = r ∨ s.PartOf r := by
  obtain ⟨ts, hts, rfl⟩ := Option.map_eq_some_iff.1 hrs
  exact fun s hs => piecesFrom_part hts s (mem_sortByStart.1 hs)

/-- a region that ends before it starts is kept, or all of it is excluded at once -/
theorem clip_reversed (h : r.stop < r.start) (ex : Region) :
    r.clip ex = if ex.start < r.stop ∧ r.start < ex.stop then .inside else .keep := by
  unfold clip
  by_cases hmeet : ex.start < r.stop ∧ r.start < ex.stop
  · have h1 : ¬ r.start < ex.start := by omega
    have h2 : ¬ ex.stop < r.stop := by omega
    rw [if_pos hmeet, if_neg (by omega)]
    simp only [h1, h2, decide_false]
  · rw [if_neg hmeet, if_pos (by omega)]

theorem firstClip_reversed (h : r.stop < r.start) (exs : List Region) :
    (r.firstClip exs = .keep ∧ ∀ ex ∈ exs, ¬ (ex.start < r.stop ∧ r.start < ex.stop)) ∨
      r.firstClip exs = .inside ∧ ∃ ex ∈ exs, ex.start < r.stop ∧ r.start < ex.stop := by
  induction exs with
  | nil => exact .inl ⟨rfl, fun ex hex => absurd hex (by simp)⟩
  | cons ex exs ih =>
    rw [firstClip, clip_reversed h ex]
    by_cases hmeet : ex.start < r.stop ∧ r.start < ex.stop
    · rw [if_pos hmeet]
      exact .inr ⟨rfl, ex, List.mem_cons_self, hmeet⟩
    · rw [if_neg hmeet]
      rcases ih with ⟨hkeep, hall⟩ | ⟨hinside, ex', hex', hmeet'⟩
      · exact .inl ⟨hkeep, List.forall_mem_cons.2 ⟨hmeet, hall⟩⟩
      · exact .inr ⟨hinside, ex', List.mem_cons_of_mem _ hex', hmeet'⟩

/-- **A region that ends before it starts** remains as it is, unless an excluded range holds all of it -/
theorem pieces_reversed (h : r.stop < r.start) (exs : List Region) (length : Nat) :
    (pieces exs length r = some [r] ∧ ∀ ex ∈ exs, ¬ (ex.start < r.stop ∧ r.start < ex.stop)) ∨
      pieces exs length r = none ∧ ∃ ex ∈ exs, ex.start < r.stop ∧ r.start < ex.stop := by
  unfold pieces
  rw [piecesFrom]
  rcases firstClip_reversed h exs with ⟨hclip, hall⟩ | ⟨hclip, hsome⟩
  · rw [hclip]
    exact .inl ⟨rfl, hall⟩
  · rw [hclip]
    exact .inr ⟨rfl, hsome⟩

end

end Region

/-! ## entries -/

section
variable {α : Type} {f : α → Except WeaveFailure (List TryCatch)} {xs : List α} {es : List TryCatch}

/-- lists of entries that were collected one by one -/
theorem collectEntries_ok (h : collectEntries f xs = .ok es) :
    (∀ x ∈ xs, ∃ ds, f x = .ok ds) ∧ ∀ e ∈ es, ∃ x ∈ xs, ∃ ds, f x = .ok ds ∧ e ∈ ds := by
  induction xs generalizing es with
  | nil =>
    obtain rfl : [] = es := by simpa [collectEntries] using h
    exact ⟨fun x hx => absurd hx (by simp), fun e he => absurd he (by simp)⟩
  | cons x xs ih =>
    rw [collectEntries] at h
    obtain ⟨ds, hds, h⟩ := Effect.bind_eq_ok h
    obtain ⟨others, hothers, h⟩ := Effect.bind_eq_ok h
    obtain rfl : ds ++ others = es := Except.ok.inj h
    obtain ⟨hall, hmem⟩ := ih hothers
    refine ⟨fun y hy => ?_, fun e he => ?_⟩
    · rcases List.mem_cons.1 hy with rfl | hy
      · exact ⟨ds, hds⟩
      · exact hall y hy
    · rcases List.mem_append.1 he with he | he
      · exact ⟨x, List.mem_cons_self, ds, hds, he⟩
      · obtain ⟨y, hy, hy'⟩ := hmem e he
        exact ⟨y, List.mem_cons_of_mem _ hy, hy'⟩

/-- **The first one that fails** ends the collection -/
theorem collectEntries_error_iff {e : WeaveFailure} : collectEntries f xs = .error e ↔
    ∃ before x after, xs = before ++ x :: after ∧ (∀ y ∈ before, ∃ ds, f y = .ok ds) ∧ f x = .error e := by
  induction xs with
  | nil =>
    constructor
    · intro h
      exact absurd h (by simp [collectEntries])
    · rintro ⟨before, x, after, h, -⟩
      exact absurd h (by simp)
  | cons y ys ih =>
    rw [collectEntries, Effect.bind_eq_error]
    constructor
    · rintro (hy | ⟨ds, hds, h⟩)
      · exact ⟨[], y, ys, rfl, fun z hz => absurd hz (by simp), hy⟩
      · rcases Effect.bind_eq_error.1 h with h | ⟨rest, -, h⟩
        · obtain ⟨before, x, after, rfl, hbefore, hx⟩ := ih.1 h
          exact ⟨y :: before, x, after, rfl, List.forall_mem_cons.2 ⟨⟨ds, hds⟩, hbefore⟩, hx⟩
        · exact absurd h (by simp)
    · rintro ⟨before, x, after, h, hbefore, hx⟩
      cases before with
      | nil =>
        obtain ⟨rfl, rfl⟩ := List.cons.inj h
        exact .inl hx
      | cons z before =>
        obtain ⟨rfl, rfl⟩ := List.cons.inj h
        obtain ⟨⟨ds, hds⟩, hbefore⟩ := List.forall_mem_cons.1 hbefore
        refine .inr ⟨ds, hds, Effect.bind_eq_error.2 (.inl (ih.2 ⟨before, x, after, rfl, hbefore, hx⟩))⟩

end

section
variable {code : List Insn} {excluded : List Region} {t : TryCatch} {es : List TryCatch} {e : WeaveFailure}

/-- a region that is clipped does not end before it starts -/
theorem splitRegion_ordered (h : splitRegion code excluded t = .ok es) {start stop : Nat}
    (hstart : labelPosition t.start code = some start)
    (hstop : labelPosition t.stop code = some stop) : start ≤ stop := by
  unfold splitRegion regionPosition at h
  rw [hstart, hstop] at h
  dsimp only [bind, Except.bind] at h
  refine Nat.le_of_not_lt fun hlt => ?_
  rcases Region.pieces_reversed (r := ⟨start, stop⟩) hlt excluded code.length with ⟨hrs, -⟩ | ⟨hrs, -⟩
  · rw [hrs] at h
    obtain ⟨ds, hds⟩ := (collectEntries_ok h).1 _ (List.mem_singleton_self _)
    unfold pieceEntry at hds
    rw [if_pos hlt] at hds
    exact absurd hds (by simp)
  · rw [hrs] at h
    exact absurd h (by simp)

theorem regionPosition_error {l : Label} (h : regionPosition code l = .error e) : e = .unknownLabel l := by
  unfold regionPosition at h
  split at h
  · exact absurd h (by simp)
  · exact (Except.error.inj h).symm

theorem exclusionRegion_error {x : Exclusion} (h : exclusionRegion code x = .error e) :
    ∃ l, e = .unknownLabel l := by
  rcases Effect.bind_eq_error.1 h with h | ⟨start, -, h⟩
  · exact ⟨x.start, regionPosition_error h⟩
  · rcases Effect.bind_eq_error.1 h with h | ⟨stop, -, h⟩
    · exact ⟨x.stop, regionPosition_error h⟩
    · exact absurd h (by simp)

theorem pieceEntry_error {r : Region} (h : pieceEntry code t r = .error e) :
    r.stop < r.start ∧ e = .reversedRegion t.start t.stop := by
  unfold pieceEntry at h
  split at h
  · rename_i hlt
    exact ⟨hlt, (Except.error.inj h).symm⟩
  · split at h
    · split at h <;> exact absurd h (by simp)
    · exact absurd h (by simp)

/-- a region ends before it starts, and no excluded range holds all of it -/
def TryCatch.Backward (t : TryCatch) (code : List Insn) (excluded : List Region) : Prop :=
  ∃ start stop, labelPosition t.start code = some start ∧ labelPosition t.stop code = some stop ∧ stop < start ∧
    ∀ ex ∈ excluded, ¬ (ex.start < stop ∧ start < ex.stop)

/-- a region is not clipped if an end is not marked, if all of it is excluded, or if it ends before it starts -/
theorem splitRegion_error (h : splitRegion code excluded t = .error e) :
    (∃ l, e = .unknownLabel l) ∨ e = .regionInsideInjectedCode t.start t.stop ∨
      e = .reversedRegion t.start t.stop ∧ t.Backward code excluded := by
  rcases Effect.bind_eq_error.1 h with h | ⟨start, hstart, h⟩
  · exact .inl ⟨_, regionPosition_error h⟩
  rcases Effect.bind_eq_error.1 h with h | ⟨stop, hstop, h⟩
  · exact .inl ⟨_, regionPosition_error h⟩
  split at h
  · exact .inr (.inl (Except.error.inj h).symm)
  · rename_i rs hrs
    obtain ⟨before, r, after, rfl, -, hr⟩ := collectEntries_error_iff.1 h
    obtain ⟨hlt, rfl⟩ := pieceEntry_error hr
    refine .inr (.inr ⟨rfl, start, stop, regionPosition_ok hstart, regionPosition_ok hstop, ?_⟩)
    have hreversed : stop < start := by
      rcases Region.pieces_part hrs r (List.mem_append_right _ List.mem_cons_self) with rfl | hpart
      · exact hlt
      · exact absurd hlt (Nat.lt_asymm hpart.proper)
    rcases Region.pieces_reversed (r := ⟨start, stop⟩) hreversed excluded code.length with ⟨-, hall⟩ | ⟨hnone, -⟩
    · exact ⟨hreversed, hall⟩
    · rw [hrs] at hnone
      exact absurd hnone (by simp)

/-- **One region** asks for a range of the code that there is not exactly if it ends before it starts and no
excluded range holds all of it -/
theorem splitRegion_reversed_iff {s s' : Label} : splitRegion code excluded t = .error (.reversedRegion s s') ↔
    t.Backward code excluded ∧ s = t.start ∧ s' = t.stop := by
  constructor
  · intro h
    rcases splitRegion_error h with ⟨l, he⟩ | he | ⟨he, hback⟩
    · exact absurd he (by simp)
    · exact absurd he (by simp)
    · obtain ⟨rfl, rfl⟩ := WeaveFailure.reversedRegion.inj he
      exact ⟨hback, rfl, rfl⟩
  · rintro ⟨⟨start, stop, hstart, hstop, hlt, hall⟩, rfl, rfl⟩
    unfold splitRegion regionPosition
    rw [hstart, hstop]
    dsimp only [bind, Except.bind]
    rcases Region.pieces_reversed (r := ⟨start, stop⟩) hlt excluded code.length with ⟨hrs, -⟩ | ⟨-, ex, hex, hmeet⟩
    · rw [hrs]
      show collectEntries (pieceEntry code t) [⟨start, stop⟩] = _
      rw [collectEntries, pieceEntry, if_pos hlt]
      rfl
    · exact absurd hmeet (hall ex hex)

variable {table : List TryCatch} {exclusions : List Exclusion}

/-- **A table** asks for a range that there is not exactly if that is so of its first region that is not clipped -/
theorem splitRegions_reversed_iff {s s' : Label} :
    splitRegions code table exclusions = .error (.reversedRegion s s') ↔
      ∃ excluded before t after, exclusions.mapM (exclusionRegion code) = .ok excluded ∧ table = before ++ t :: after ∧
        (∀ u ∈ before, ∃ es, splitRegion code excluded u = .ok es) ∧ t.Backward code excluded ∧
        s = t.start ∧ s' = t.stop := by
  unfold splitRegions
  rw [Effect.bind_eq_error]
  constructor
  · rintro (h | ⟨excluded, hex, h⟩)
    · obtain ⟨x, -, hx⟩ := Effect.mapM_eq_error h
      obtain ⟨l, he⟩ := exclusionRegion_error hx
      exact absurd he (by simp)
    · obtain ⟨before, t, after, htable, hbefore, ht⟩ := collectEntries_error_iff.1 h
      exact ⟨excluded, before, t, after, hex, htable, hbefore, splitRegion_reversed_iff.1 ht⟩
  · rintro ⟨excluded, before, t, after, hex, htable, hbefore, hback, hends⟩
    refine .inr ⟨excluded, hex, collectEntries_error_iff.2 ⟨before, t, after, htable, hbefore, ?_⟩⟩
    exact splitRegion_reversed_iff.2 ⟨hback, hends⟩

/-- clipping never finds that code is other code -/
theorem splitRegions_ne_stale (code : List Insn) (table : List TryCatch) (exclusions : List Exclusion) :
    splitRegions code table exclusions ≠ .error .staleAnalysis := by
  intro h
  rcases Effect.bind_eq_error.1 h with h | ⟨excluded, -, h⟩
  · obtain ⟨x, -, hx⟩ := Effect.mapM_eq_error h
    obtain ⟨l, he⟩ := exclusionRegion_error hx
    exact absurd he (by simp)
  · obtain ⟨before, t, after, -, -, ht⟩ := collectEntries_error_iff.1 h
    rcases splitRegion_error ht with ⟨l, he⟩ | he | ⟨he, -⟩ <;> exact absurd he (by simp)

end

end Resumable
