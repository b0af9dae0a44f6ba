import Mathlib.Data.List.Sort
import Resumable.Proofs.Reentry
import Resumable.Proofs.Settled

/-!
# The calls that are woven

The analysis decides for each call by the patterns that match its callee; weaving looks the callee up among
those that the analysis has listed.  A decision depends on the callee alone, so both find the same calls, and
the operands of a call are staged exactly if the pattern that decides says so.

* `RestorePoint.DecidesAt` : which of a list of patterns decides;
* `RestorePoint.selectAt?_eq_some_iff`, `RestorePoint.select?_append` : the pattern that is selected decides;
* `matchedPlaces`, `map_position_matched` : the calls that match some pattern, in the order of the code;
* `CallsOnly` : which methods of coroutines some code calls;
* `sites_matched` : they are the sites, and the deciding patterns say which operands are staged.
-/

namespace Resumable

/-! ## the pattern that decides -/

namespace RestorePoint

/-- The pattern at a place of a list decides: of the patterns that match the callee, none is more specific,
and those in front of it are less so. -/
structure DecidesAt (specs : List RestorePoint) (callee : MethodId) (n : Nat) (r : RestorePoint) :
    Prop where
  place : specs[n]? = some r
  fits : r.matches callee = true
  most : ∀ q ∈ specs, q.matches callee = true → q.specificity ≤ r.specificity
  first : ∀ k q, k < n → specs[k]? = some q → q.matches callee = true → q.specificity < r.specificity

/-- the decision of two lists of which one follows the other -/
def eitherOf (best next : Option (Nat × RestorePoint)) : Option (Nat × RestorePoint) :=
  match next with
  | none => best
  | some q => better best q

/-- the decision of a list whose first place has a number -/
def selectFrom (k : Nat) (specs : List RestorePoint) (callee : MethodId) : Option (Nat × RestorePoint) :=
  (((specs.zipIdx k).map fun e => (e.2, e.1)).filter fun e => e.2.matches callee).foldl better none

section
variable {specs as bs : List RestorePoint} {callee : MethodId} {r q : RestorePoint} {k n : Nat}

theorem better_none (q : Nat × RestorePoint) : better none q = some q := rfl

theorem better_some (b q : Nat × RestorePoint) :
    better (some b) q = if q.2.specificity ≤ b.2.specificity then some b else some q := rfl

/-- it does not matter which of three patterns are compared first -/
theorem better_eitherOf (best next : Option (Nat × RestorePoint)) (q : Nat × RestorePoint) :
    better (eitherOf best next) q = eitherOf best (better next q) := by
  cases next with
  | none => rfl
  | some x =>
    cases best with
    | none =>
      show better (better none x) q = eitherOf none (better (some x) q)
      rw [better_none, better_some]
      split <;> rfl
    | some b =>
      show better (better (some b) x) q = eitherOf (some b) (better (some x) q)
      by_cases hx : x.2.specificity ≤ b.2.specificity <;>
        by_cases hq : q.2.specificity ≤ x.2.specificity
      · have hqb : q.2.specificity ≤ b.2.specificity := Nat.le_trans hq hx
        simp only [better_some, eitherOf, if_pos hx, if_pos hq, if_pos hqb]
      · simp only [better_some, eitherOf, if_pos hx, if_neg hq]
      · simp only [better_some, eitherOf, if_neg hx, if_pos hq]
      · have hqb : ¬ q.2.specificity ≤ b.2.specificity := by omega
        simp only [better_some, eitherOf, if_neg hx, if_neg hq, if_neg hqb]

theorem foldl_better (l : List (Nat × RestorePoint)) (best next : Option (Nat × RestorePoint)) :
    l.foldl better (eitherOf best next) = eitherOf best (l.foldl better next) := by
  induction l generalizing next with
  | nil => rfl
  | cons q l ih => rw [List.foldl_cons, List.foldl_cons, better_eitherOf, ih]

/-- **Two lists of patterns** decide as the decisions of both do -/
theorem selectFrom_append (k : Nat) (as bs : List RestorePoint) (callee : MethodId) :
    selectFrom k (as ++ bs) callee =
      eitherOf (selectFrom k as callee) (selectFrom (k + as.length) bs callee) := by
  unfold selectFrom
  rw [List.zipIdx_append, List.map_append, List.filter_append, List.foldl_append]
  exact foldl_better _ _ none

theorem selectFrom_singleton (k : Nat) (r : RestorePoint) (callee : MethodId) :
    selectFrom k [r] callee = if r.matches callee = true then some (k, r) else none := by
  by_cases hr : r.matches callee = true
  · rw [if_pos hr]
    simp [selectFrom, List.filter, hr, better_none]
  · rw [if_neg hr]
    simp [selectFrom, List.filter, hr]

theorem selectFrom_cons (k : Nat) (r : RestorePoint) (specs : List RestorePoint) (callee : MethodId) :
    selectFrom k (r :: specs) callee =
      eitherOf (if r.matches callee = true then some (k, r) else none) (selectFrom (k + 1) specs callee) := by
  rw [← selectFrom_singleton, ← List.singleton_append, selectFrom_append]
  rfl

theorem eitherOf_eq_none_iff {best next : Option (Nat × RestorePoint)} :
    eitherOf best next = none ↔ best = none ∧ next = none := by
  cases next with
  | none => exact ⟨fun h => ⟨h, rfl⟩, fun h => h.1⟩
  | some x =>
    refine ⟨fun h => ?_, fun h => nomatch h.2⟩
    cases best with
    | none => exact nomatch h
    | some b =>
      rw [eitherOf, better_some] at h
      split at h <;> exact nomatch h

/-- no pattern is selected exactly if none matches -/
theorem selectFrom_eq_none_iff (k : Nat) (specs : List RestorePoint) (callee : MethodId) :
    selectFrom k specs callee = none ↔ ∀ q ∈ specs, q.matches callee = false := by
  induction specs generalizing k with
  | nil => simp [selectFrom]
  | cons q specs ih => rw [selectFrom_cons, eitherOf_eq_none_iff, ih, List.forall_mem_cons, ite_eq_right_iff]; simp

theorem DecidesAt.here (hq : q.matches callee = true)
    (h : ∀ x ∈ specs, x.matches callee = true → x.specificity ≤ q.specificity) :
    DecidesAt (q :: specs) callee 0 q := by
  refine ⟨rfl, hq, fun x hx hm => ?_, fun i x hi => absurd hi (Nat.not_lt_zero i)⟩
  rcases List.mem_cons.1 hx with rfl | hx
  · exact Nat.le_refl _
  · exact h x hx hm

theorem DecidesAt.behind (h : DecidesAt specs callee n r)
    (hq : q.matches callee = true → q.specificity < r.specificity) :
    DecidesAt (q :: specs) callee (n + 1) r := by
  refine ⟨h.place, h.fits, fun x hx hm => ?_, fun i x hi hx hm => ?_⟩
  · rcases List.mem_cons.1 hx with rfl | hx
    · exact Nat.le_of_lt (hq hm)
    · exact h.most x hx hm
  · cases i with
    | zero =>
      obtain rfl : q = x := Option.some.inj hx
      exact hq hm
    | succ i => exact h.first i x (Nat.lt_of_succ_lt_succ hi) hx hm

/-- only one pattern of a list decides -/
theorem DecidesAt.unique {j : Nat} (h : DecidesAt specs callee n r) (h' : DecidesAt specs callee j q) :
    n = j ∧ r = q := by
  have hle := h.most q (List.mem_of_getElem? h'.place) h'.fits
  have hle' := h'.most r (List.mem_of_getElem? h.place) h.fits
  rcases Nat.lt_trichotomy n j with hlt | rfl | hlt
  · have := h'.first n r hlt h.place h.fits
    omega
  · exact ⟨rfl, Option.some.inj (h.place.symm.trans h'.place)⟩
  · have := h.first j q hlt h'.place h'.fits
    omega

/-- the pattern that is selected decides -/
theorem selectFrom_decides {e : Nat × RestorePoint} (h : selectFrom k specs callee = some e) :
    ∃ j, e.1 = k + j ∧ DecidesAt specs callee j e.2 := by
  induction specs generalizing k e with
  | nil => exact absurd h (by simp [selectFrom])
  | cons q specs ih =>
    rw [selectFrom_cons] at h
    cases hrest : selectFrom (k + 1) specs callee with
    | none =>
      have hmiss := (selectFrom_eq_none_iff _ _ _).1 hrest
      rw [hrest, eitherOf] at h
      split at h
      · rename_i hq
        obtain rfl := Option.some.inj h
        exact ⟨0, rfl, .here hq fun x hx hm => absurd hm (by rw [hmiss x hx]; simp)⟩
      · exact nomatch h
    | some x =>
      obtain ⟨j, hj, hx⟩ := ih hrest
      rw [hrest, eitherOf] at h
      have hback (hq : q.matches callee = true → q.specificity < x.2.specificity) :
          ∃ i, x.1 = k + i ∧ DecidesAt (q :: specs) callee i x.2 :=
        ⟨j + 1, by omega, hx.behind hq⟩
      split at h
      · rename_i hq
        rw [better_some] at h
        split at h
        · rename_i hle
          obtain rfl := Option.some.inj h
          exact ⟨0, rfl, .here hq fun y hy hm => Nat.le_trans (hx.most y hy hm) hle⟩
        · rename_i hlt
          obtain rfl := Option.some.inj h
          exact hback fun _ => Nat.lt_of_not_le hlt
      · rename_i hq
        obtain rfl := Option.some.inj h
        exact hback fun hm => absurd hm hq

theorem selectAt?_eq (specs : List RestorePoint) (callee : MethodId) :
    selectAt? specs callee = selectFrom 0 specs callee := rfl

/-- **The selection** is the pattern that decides -/
theorem selectAt?_eq_some_iff :
    selectAt? specs callee = some (n, r) ↔ DecidesAt specs callee n r := by
  rw [selectAt?_eq]
  constructor
  · intro h
    obtain ⟨j, hj, hr⟩ := selectFrom_decides h
    obtain rfl : n = j := hj.trans (Nat.zero_add j)
    exact hr
  · intro h
    cases hs : selectFrom 0 specs callee with
    | none =>
      have hmiss := (selectFrom_eq_none_iff _ _ _).1 hs r (List.mem_of_getElem? h.place)
      exact absurd h.fits (by rw [hmiss]; simp)
    | some e =>
      obtain ⟨j, hj, he⟩ := selectFrom_decides hs
      obtain ⟨rfl, rfl⟩ := he.unique h
      rw [← hj.trans (Nat.zero_add j)]

/-- what is selected decides, at some place -/
theorem select?_eq_some_iff : select? specs callee = some r ↔ ∃ n, DecidesAt specs callee n r := by
  unfold select?
  constructor
  · intro h
    obtain ⟨⟨n, q⟩, hq, rfl⟩ := Option.map_eq_some_iff.1 h
    exact ⟨n, selectAt?_eq_some_iff.1 hq⟩
  · rintro ⟨n, h⟩
    rw [selectAt?_eq_some_iff.2 h]
    rfl

theorem isSome_select?_iff : (select? specs callee).isSome = true ↔ ∃ q ∈ specs, q.matches callee = true := by
  have hnone := selectFrom_eq_none_iff 0 specs callee
  unfold select?
  rw [Option.isSome_map, selectAt?_eq, ← Bool.not_eq_false, Bool.not_eq_false, Option.isSome_iff_ne_none, ne_eq,
    hnone]
  simp

/-- **The decision of two lists**, one after the other, is that of the first one if this is at least as
specific as that of the second one -/
theorem select?_append (as bs : List RestorePoint) (callee : MethodId) :
    select? (as ++ bs) callee =
      match select? as callee, select? bs callee with
      | some r, some q => if q.specificity ≤ r.specificity then some r else some q
      | some r, none => some r
      | none, d => d := by
  have hshift : (selectFrom as.length bs callee).map Prod.snd = select? bs callee := by
    cases hd : selectFrom as.length bs callee with
    | none =>
      have hmiss := (selectFrom_eq_none_iff 0 bs callee).2 ((selectFrom_eq_none_iff _ _ _).1 hd)
      rw [select?, selectAt?_eq, hmiss]
    | some e =>
      obtain ⟨j, -, he⟩ := selectFrom_decides hd
      exact (select?_eq_some_iff.2 ⟨j, he⟩).symm
  have hfirst : select? as callee = (selectFrom 0 as callee).map Prod.snd := rfl
  rw [← hshift, hfirst, select?, selectAt?_eq, selectFrom_append, Nat.zero_add]
  cases selectFrom as.length bs callee with
  | none => cases selectFrom 0 as callee <;> rfl
  | some q =>
    cases selectFrom 0 as callee with
    | none => rfl
    | some r =>
      dsimp only [eitherOf, Option.map_some]
      rw [better_some]
      split <;> rfl

end
end RestorePoint

/-! ## the calls of a method -/

/-- the instruction is a call whose callee some pattern matches -/
def Insn.isMatched (declared : List RestorePoint) : Insn → Bool
  | .invoke _ callee => declared.any fun r => r.matches callee
  | _ => false

/-- the places of the calls that some pattern matches, in the order of the code -/
def matchedPlaces (declared : List RestorePoint) (code : List Insn) : List Nat :=
  (List.range code.length).filter fun n => code[n]?.any (Insn.isMatched declared)

namespace Analysis

open RestorePoint

variable {p : Program} {owner : String} {m : Method} {declared : List RestorePoint} {rootEntry : Bool}
  {a : Analysis} {callee : MethodId}

theorem mem_insertSorted {x y : MethodId} {ms : List MethodId} :
    x ∈ insertSorted y ms ↔ x = y ∨ x ∈ ms := by
  induction ms with
  | nil => simp [insertSorted]
  | cons n ns ih =>
    rw [insertSorted]
    split
    · rename_i hn
      rw [hn, List.mem_cons]
      tauto
    · split
      · exact List.mem_cons
      · rw [List.mem_cons, List.mem_cons, ih]
        tauto

theorem mem_sortedSet {x : MethodId} {ms : List MethodId} : x ∈ sortedSet ms ↔ x ∈ ms := by
  unfold sortedSet
  induction ms with
  | nil => simp
  | cons y ms ih => rw [List.foldr_cons, mem_insertSorted, ih, List.mem_cons]

theorem restorePointOf?_eq_some_iff {i : Insn} {e : MethodId × RestorePoint} :
    restorePointOf? declared i = some e ↔
      (∃ kind, i = .invoke kind e.1) ∧ select? declared e.1 = some e.2 := by
  obtain ⟨callee, r⟩ := e
  cases i with
  | invoke kind called =>
    rw [restorePointOf?, Option.map_eq_some_iff]
    constructor
    · rintro ⟨q, hq, heq⟩
      obtain ⟨rfl, rfl⟩ := Prod.mk.inj heq
      exact ⟨⟨kind, rfl⟩, hq⟩
    · rintro ⟨⟨kind', heq⟩, hr⟩
      obtain ⟨rfl, rfl⟩ := Insn.invoke.inj heq
      exact ⟨r, hr, rfl⟩
  | _ => exact ⟨fun h => (nomatch h), fun ⟨⟨_, h⟩, _⟩ => (nomatch h)⟩

/-- a call that is found is one that some pattern matches -/
theorem isSome_restorePointOf? (i : Insn) : (restorePointOf? declared i).isSome = i.isMatched declared := by
  cases i with
  | invoke kind called =>
    rw [restorePointOf?, Option.isSome_map, Insn.isMatched, Bool.eq_iff_iff, isSome_select?_iff, List.any_eq_true]
  | _ => rfl

/-! ### what the analysis lists -/

section
variable (ha : analyze p owner m declared rootEntry = .ok a)

include ha

/-- every matched call is counted -/
theorem calls_eq : a.calls = m.code.countP (Insn.isMatched declared) := by
  have hfound : a.calls = (m.code.filterMap (restorePointOf? declared)).length := by
    unfold analyze at ha
    split at ha
    · exact absurd ha (by simp)
    · rw [← Except.ok.inj ha]
  rw [hfound, List.length_filterMap_eq_countP]
  exact List.countP_congr fun i _ => by rw [isSome_restorePointOf?]

theorem mem_restorePoints_iff :
    callee ∈ a.restorePoints ↔
      ∃ kind r, .invoke kind callee ∈ m.code ∧ select? declared callee = some r := by
  have hlist : a.restorePoints = sortedSet ((m.code.filterMap (restorePointOf? declared)).map Prod.fst) := by
    unfold analyze at ha
    split at ha
    · exact absurd ha (by simp)
    · rw [← Except.ok.inj ha]
  rw [hlist, mem_sortedSet, List.mem_map]
  constructor
  · rintro ⟨⟨c, r⟩, hmem, rfl⟩
    obtain ⟨i, hi, hfound⟩ := List.mem_filterMap.1 hmem
    obtain ⟨⟨kind, rfl⟩, hr⟩ := restorePointOf?_eq_some_iff.1 hfound
    exact ⟨kind, r, hi, hr⟩
  · rintro ⟨kind, r, hi, hr⟩
    exact ⟨(callee, r), List.mem_filterMap.2 ⟨_, hi, restorePointOf?_eq_some_iff.2 ⟨⟨kind, rfl⟩, hr⟩⟩, rfl⟩

theorem mem_unpatchable_iff :
    callee ∈ a.unpatchable ↔
      ∃ kind r, .invoke kind callee ∈ m.code ∧ select? declared callee = some r ∧ r.patchable = false := by
  have hlist : a.unpatchable = sortedSet
      (((m.code.filterMap (restorePointOf? declared)).filter fun e => !e.2.patchable).map Prod.fst) := by
    unfold analyze at ha
    split at ha
    · exact absurd ha (by simp)
    · rw [← Except.ok.inj ha]
  rw [hlist, mem_sortedSet, List.mem_map]
  constructor
  · rintro ⟨⟨c, r⟩, hmem, rfl⟩
    obtain ⟨hmem, hnot⟩ := List.mem_filter.1 hmem
    obtain ⟨i, hi, hfound⟩ := List.mem_filterMap.1 hmem
    obtain ⟨⟨kind, rfl⟩, hr⟩ := restorePointOf?_eq_some_iff.1 hfound
    exact ⟨kind, r, hi, hr, by simpa using hnot⟩
  · rintro ⟨kind, r, hi, hr, hnot⟩
    refine ⟨(callee, r), List.mem_filter.2 ⟨List.mem_filterMap.2 ⟨_, hi, ?_⟩, ?_⟩, rfl⟩
    · exact restorePointOf?_eq_some_iff.2 ⟨⟨kind, rfl⟩, hr⟩
    · simpa using hnot

/-- the calls that weaving looks up are those that match -/
theorem isSite_eq {i : Insn} (hi : i ∈ m.code) : a.isSite i = i.isMatched declared := by
  cases i with
  | invoke kind called =>
    rw [isSite, Insn.isMatched, Bool.eq_iff_iff, decide_eq_true_iff, List.any_eq_true, mem_restorePoints_iff ha,
      ← isSome_select?_iff, Option.isSome_iff_exists]
    constructor
    · rintro ⟨-, r, -, hr⟩
      exact ⟨r, hr⟩
    · rintro ⟨r, hr⟩
      exact ⟨kind, r, hi, hr⟩
  | _ => rfl

end
end Analysis

/-! ## the sites of a method -/

section
variable {a : Analysis} {base : UInt32} {index position : Nat} {is : List Insn} {m : Method}
  {p : Program} {owner : String} {declared : List RestorePoint} {rootEntry : Bool}

theorem length_sitesFrom (a : Analysis) (base : UInt32) (index position : Nat) (is : List Insn) :
    (sitesFrom a base index position is).length = is.countP a.isSite := by
  induction is generalizing index position with
  | nil => rfl
  | cons i is ih =>
    rw [sitesFrom_cons, List.countP_cons]
    cases i with
    | invoke kind callee =>
      by_cases hc : callee ∈ a.restorePoints
      · simp only [hc, if_true, Analysis.isSite, decide_true, List.length_cons, ih]
      · simp only [hc, if_false, Analysis.isSite, decide_false, ih, Bool.false_eq_true, Nat.add_zero]
    | _ => exact ih _ _

/-- sites are numbered from zero on -/
theorem map_index_sitesOf (a : Analysis) (base : UInt32) :
    (sitesOf a base).map Site.index = List.range (sitesOf a base).length := by
  refine List.ext_getElem? fun j => ?_
  rw [List.getElem?_map]
  cases hs : (sitesOf a base)[j]? with
  | none => rw [List.getElem?_eq_none (by rw [List.length_range]; exact List.getElem?_eq_none_iff.1 hs)]; rfl
  | some s =>
    have hlt := (List.getElem?_eq_some_iff.1 hs).1
    rw [List.getElem?_range hlt, Option.map_some, index_of_sitesFrom hs, Nat.zero_add]

/-- the sites stand where the calls of restore points are -/
theorem map_position_sitesOf (a : Analysis) (base : UInt32) :
    (sitesOf a base).map Site.position =
      (List.range a.insns.length).filter fun n => a.insns[n]?.any a.isSite := by
  have hsorted : ((sitesOf a base).map Site.position).Pairwise (· < ·) :=
    List.pairwise_map.2 (sitesFrom_pairwise.imp fun h => h.1)
  refine hsorted.eq_of_mem_iff (List.pairwise_lt_range.filter _) fun n => ?_
  rw [List.mem_map, List.mem_filter, List.mem_range]
  constructor
  · rintro ⟨s, hs, rfl⟩
    obtain ⟨j, i, hj, hp, -, hd⟩ := sitesFrom_sound hs
    obtain rfl : s.position = j := hp.trans (Nat.zero_add j)
    refine ⟨(List.getElem?_eq_some_iff.1 hj).1, ?_⟩
    rw [hj, Option.any_some, hd.call]
    exact decide_eq_true hd.listed
  · rintro ⟨-, hany⟩
    obtain ⟨i, hi, hsite⟩ := (Option.any_eq_true _ _).1 hany
    have hcomplete : ∃ s ∈ sitesOf a base, s.position = 0 + n := sitesFrom_complete hi hsite
    obtain ⟨s, hs, hp⟩ := hcomplete
    exact ⟨s, hs, hp.trans (Nat.zero_add n)⟩

/-- **The sites** stand where the matched calls are -/
theorem map_position_matched (ha : Analysis.analyze p owner m declared rootEntry = .ok a) :
    (sitesOf a base).map Site.position = matchedPlaces declared m.code := by
  rw [map_position_sitesOf, (Analysis.analyze_sound ha).insns]
  refine List.filter_congr fun n _ => ?_
  cases hi : m.code[n]? with
  | none => rfl
  | some i => exact Analysis.isSite_eq ha (List.mem_of_getElem? hi)

/-- the operands of a site are staged as the pattern says that decides its callee -/
theorem decides_of_site (ha : Analysis.analyze p owner m declared rootEntry = .ok a) {s : Site}
    (hs : s ∈ sitesOf a base) :
    ∃ n r, RestorePoint.DecidesAt declared s.callee n r ∧ s.unpatchable = !r.patchable := by
  obtain ⟨j, i, -, -, -, hd⟩ := sitesFrom_sound hs
  obtain ⟨-, r, -, hr⟩ := (Analysis.mem_restorePoints_iff ha).1 hd.listed
  obtain ⟨n, hn⟩ := RestorePoint.select?_eq_some_iff.1 hr
  refine ⟨n, r, hn, ?_⟩
  rw [hd.unpatchable, Bool.eq_iff_iff, decide_eq_true_iff, Analysis.mem_unpatchable_iff ha, Bool.not_eq_true']
  obtain ⟨kind, -, hmem, -⟩ := (Analysis.mem_restorePoints_iff ha).1 hd.listed
  constructor
  · rintro ⟨-, q, -, hq, hnot⟩
    rwa [← Option.some.inj (hq.symm.trans hr)]
  · intro hnot
    exact ⟨kind, r, hmem, hr, hnot⟩

end

/-! ## what injected code calls -/

/-- the method of coroutines that an instruction calls -/
def Insn.intrinsic? : Insn → Option Intrinsic
  | .invoke .static callee => Intrinsic.ofId? callee
  | _ => none

theorem Insn.intrinsic?_call (i : Intrinsic) : i.call.intrinsic? = some i := Intrinsic.ofId?_id i

/-- of the methods of coroutines, the code calls only such -/
def CallsOnly (P : Intrinsic → Prop) (is : List Insn) : Prop :=
  ∀ i ∈ is, ∀ j, i.intrinsic? = some j → P j

namespace CallsOnly

variable {P Q : Intrinsic → Prop} {is js : List Insn} {i : Insn} {j : Intrinsic}

theorem nil (P : Intrinsic → Prop) : CallsOnly P [] := fun _ hi => absurd hi List.not_mem_nil

theorem append (h : CallsOnly P is) (h' : CallsOnly P js) : CallsOnly P (is ++ js) := fun i hi =>
  (List.mem_append.1 hi).elim (h i) (h' i)

theorem cons (hi : ∀ j, i.intrinsic? = some j → P j) (h : CallsOnly P is) : CallsOnly P (i :: is) :=
  List.forall_mem_cons.2 ⟨hi, h⟩

/-- an instruction that calls no method of coroutines -/
theorem other (hi : i.intrinsic? = none) (h : CallsOnly P is) : CallsOnly P (i :: is) :=
  .cons (fun j hj => absurd (hi.symm.trans hj) (by simp)) h

theorem call (hj : P j) (h : CallsOnly P is) : CallsOnly P (j.call :: is) :=
  .cons (fun _ hi => Option.some.inj ((Insn.intrinsic?_call j).symm.trans hi) ▸ hj) h

theorem flatMap {α : Type} {xs : List α} {f : α → List Insn} (h : ∀ x ∈ xs, CallsOnly P (f x)) :
    CallsOnly P (xs.flatMap f) := fun i hi =>
  let ⟨x, hx, hi⟩ := List.mem_flatMap.1 hi
  h x hx i hi

theorem mono (h : CallsOnly P is) (hPQ : ∀ j, P j → Q j) : CallsOnly Q is := fun i hi j hj => hPQ j (h i hi j hj)

theorem not_mem (h : CallsOnly P is) (hj : ¬ P j) : j ∉ is.filterMap Insn.intrinsic? := fun hmem =>
  let ⟨i, hi, hcall⟩ := List.mem_filterMap.1 hmem
  hj (h i hi j hcall)

/-! ### restoring -/

/-- the intrinsic takes a value out of storage -/
def IsPop (j : Intrinsic) : Prop := ∃ k, j = .pop k

theorem popCode (k : Kind) (c : Category) : CallsOnly IsPop (k.popCode c) := by
  refine .call ⟨k, rfl⟩ ?_
  cases k with
  | ref =>
    cases c with
    | ref t =>
      show CallsOnly IsPop (if t = objectType then [] else [.checkCast t])
      split
      · exact .nil _
      · exact .other rfl (.nil _)
    | _ => exact .nil _
  | _ => exact .nil _

theorem restoreValue (c : Category) : CallsOnly IsPop (Resumable.restoreValue c) := by
  unfold Resumable.restoreValue
  split
  · exact .other rfl (.nil _)
  · split
    · exact popCode _ _
    · exact .nil _

theorem restoreLocal (slot : UInt16) (c : Category) : CallsOnly IsPop (Resumable.restoreLocal slot c) := by
  unfold Resumable.restoreLocal
  split
  · exact (popCode _ _).append (.other rfl (.nil _))
  · exact .nil _

theorem zeroInsn (k : Kind) : CallsOnly P [k.zeroInsn] := by
  cases k <;> exact .other rfl (.nil _)

theorem restoreArg (u : Bool) (c : Category) : CallsOnly IsPop (Resumable.restoreArg u c) := by
  unfold Resumable.restoreArg
  split
  · exact restoreValue c
  · split
    · exact zeroInsn _
    · exact .nil _

/-- a frame is restored by taking values out of storage -/
theorem restoreCode (u : Bool) (f : Frame) (shape : CallShape) :
    CallsOnly IsPop (Resumable.restoreCode u f shape) :=
  (((flatMap fun e _ => restoreLocal e.1 e.2).append (flatMap fun c _ => restoreValue c)).append
    (flatMap fun c _ => restoreValue c)).append (flatMap fun c _ => restoreArg u c)

end CallsOnly

/-- **The code in front of a call** opens a staging frame exactly if the callee is not woven -/
theorem beginStaging_mem_beforeCall (site : Site) (f : Frame) (shape : CallShape) (l : SiteLabels) :
    .beginStaging ∈ (beforeCall site f shape l).filterMap Insn.intrinsic? ↔ site.unpatchable = true := by
  cases hu : site.unpatchable with
  | false =>
    have hcalls : CallsOnly CallsOnly.IsPop (beforeCall site f shape l) := by
      unfold beforeCall
      rw [hu, if_neg (by simp), List.append_nil]
      exact (((CallsOnly.other rfl (.other rfl (.other rfl (.nil _)))).append
        (.restoreCode false f shape)).append (.other rfl (.nil _))).append (.other rfl (.nil _))
    exact iff_of_false (hcalls.not_mem fun ⟨_, h⟩ => nomatch h) (by simp)
  | true =>
    refine iff_of_true (List.mem_filterMap.2 ⟨Intrinsic.beginStaging.call, ?_, Insn.intrinsic?_call _⟩) rfl
    unfold beforeCall stageCode
    rw [hu, if_pos rfl]
    simp

/-- the code in front of a call, where the pattern that decides its callee is known -/
def beforeCallOf (r : RestorePoint) (y : Around) : List Insn :=
  [.label y.labels.pre, .jump y.labels.call, .label y.site.resume] ++
    restoreCode (!r.patchable) y.frame y.shape ++ [.label y.labels.call] ++
    (if r.patchable then [] else stageCode y.shape.window y.labels.staged) ++ [.label y.labels.invoke]

/-! ## the calls that are woven -/

/-- **The calls that are woven.**  The sites are the calls whose callee some pattern matches, reachable or not,
numbered in the order of the code, as many as the analysis has counted.  One pattern decides about each site,
and in front of a reachable site the operands are staged exactly if this pattern is of callees that are not
woven.  The deciding pattern is the most specific match, the first of equals; of two lists in a row the first
one decides unless the second one has a more specific match. -/
theorem sites_matched {a : Analysis} {p : Program} {owner : String} {m : Method}
    {declared : List RestorePoint} {rootEntry : Bool}
    (ha : Analysis.analyze p owner m declared rootEntry = .ok a) :
    ((sitesOf a m.nextLabel).map Site.position = matchedPlaces declared m.code ∧
      (sitesOf a m.nextLabel).map Site.index = List.range a.calls ∧
      ∀ s ∈ sitesOf a m.nextLabel, m.code[s.position]? = some (.invoke s.kind s.callee)) ∧
    (∀ m', weaveMethod a m = .ok m' → ∃ l : Layout a m, l.Lays m' ∧
      ∀ s ∈ sitesOf a m.nextLabel, ∀ f, s.frame = some f → ∃ n r b y,
        RestorePoint.DecidesAt declared s.callee n r ∧ l.blocks[s.position]? = some b ∧ b.around = some y ∧
        y.site = s ∧ y.frame = f ∧ Holds m'.code (l.start s.position) (b.code a l.ret) ∧
        b.before = beforeCallOf r y ∧
        (.beginStaging ∈ b.before.filterMap Insn.intrinsic? ↔ r.patchable = false)) ∧
    (∀ callee n r, RestorePoint.selectAt? declared callee = some (n, r) ↔
      RestorePoint.DecidesAt declared callee n r) ∧
    ∀ (as bs : List RestorePoint) (callee : MethodId),
      RestorePoint.select? (as ++ bs) callee =
        match RestorePoint.select? as callee, RestorePoint.select? bs callee with
        | some r, some q => if q.specificity ≤ r.specificity then some r else some q
        | some r, none => some r
        | none, d => d := by
  have hsound := Analysis.analyze_sound ha
  have hcalls : (sitesOf a m.nextLabel).length = a.calls := by
    rw [sitesOf, length_sitesFrom, Analysis.calls_eq ha, hsound.insns]
    exact List.countP_congr fun i hi => by rw [Analysis.isSite_eq ha hi]
  refine ⟨⟨map_position_matched ha, ?_, fun s hs => ?_⟩, fun m' hm => ?_,
    fun callee n r => RestorePoint.selectAt?_eq_some_iff, RestorePoint.select?_append⟩
  · rw [map_index_sitesOf, hcalls]
  · obtain ⟨j, i, hj, hp, -, hd⟩ := sitesFrom_sound hs
    rw [hp, Nat.zero_add, ← hsound.insns, hj, hd.call]
  · obtain ⟨l, hl, -, -⟩ := weaveMethod_ok hsound.insns hm
    refine ⟨l, hl, fun s hs f hf => ?_⟩
    obtain ⟨n, r, hr, hunpatchable⟩ := decides_of_site ha hs
    obtain ⟨⟨around, own⟩, y, hb, rfl, rfl, rfl, -⟩ := hl.around hs hf
    refine ⟨n, r, _, y, hr, hb, rfl, rfl, rfl, hl.holds hb, ?_, ?_⟩
    · show beforeCall y.site y.frame y.shape y.labels = _
      rw [beforeCall, beforeCallOf, hunpatchable]
      cases r.patchable <;> rfl
    · have hstages := beginStaging_mem_beforeCall y.site y.frame y.shape y.labels
      rwa [hunpatchable, Bool.not_eq_true'] at hstages

namespace Choosing

def owner : String := "demo/R"

def step : MethodId := ⟨owner, "step", "()V"⟩

/-- two calls of a restore point, the second of them unreachable, and a call of another method -/
def run : Method where
  name := "run"
  desc := "()V"
  isStatic := true
  maxLocals := 0
  code := [.invoke .static ⟨owner, "other", "()V"⟩, .invoke .static step, .ret none, .invoke .static step,
    .ret none]
  tryCatches := []
  localVars := []

/-- a pattern for every owner, and one for a single owner, whose methods are not woven -/
def patterns : List RestorePoint :=
  [.ofName "step", { RestorePoint.ofName "step" with owner, patchable := false }]

def analysis : Analysis where
  method := run.id owner
  isStatic := true
  rootEntry := false
  calls := 2
  restorePoints := [step]
  unpatchable := [step]
  frames := [some ⟨[], []⟩, some ⟨[], []⟩, some ⟨[], []⟩, none, none]
  insns := run.code

/-- the pattern of the owner decides: both calls are sites, and the operands of the reachable one are staged -/
theorem sites_matched_choosing :
    ∃ m', Analysis.analyze .empty owner run patterns false = .ok analysis ∧
      weaveMethod analysis run = .ok m' ∧
      (sitesOf analysis run.nextLabel).map Site.position = [1, 3] ∧
      ∃ (l : Layout analysis run) (b : Block), l.Lays m' ∧ l.blocks[1]? = some b ∧
        .beginStaging ∈ b.before.filterMap Insn.intrinsic? := by
  have ha : Analysis.analyze .empty owner run patterns false = .ok analysis := rfl
  obtain ⟨m', hm⟩ : ∃ m', weaveMethod analysis run = .ok m' := ⟨_, rfl⟩
  obtain ⟨⟨hplaces, -, -⟩, hwoven, hselect, -⟩ := sites_matched ha
  obtain ⟨l, hl, hsites⟩ := hwoven m' hm
  obtain ⟨n, r, b, y, hr, hb, -, -, -, -, -, hstaged⟩ :=
    hsites _ (List.mem_cons_self (l := (sitesOf analysis run.nextLabel).tail)) ⟨[], []⟩ rfl
  have hdecides := (hselect step n r).2 hr
  obtain rfl : patterns[1] = r := (Prod.mk.inj (Option.some.inj hdecides)).2
  exact ⟨m', ha, hm, hplaces, l, b, hl, hb, hstaged.2 rfl⟩

end Choosing
end Resumable
