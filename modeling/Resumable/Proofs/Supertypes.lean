import Mathlib.Data.Finset.Card
import Mathlib.Data.Finset.Dedup
import Mathlib.Logic.Relation
import Resumable.Hierarchy

/-!
# What may stand for a supertype

Where two paths meet, the analysis gives a reference the common supertype of what it was on both sides, and
a value of either side has to be one of that type as well.  It is where the hierarchy is conventional: the
root has no superclass, no class extends an array type, and what a class names as an interface has no
superclass but the root.

* `Program.mem_chain_of_superOf?`, `Program.chain_subset` : superclasses of superclasses;
* `Program.reachesFrom_of_mem`, `Program.mem_of_reachesFrom` : what is found through interfaces;
* `Program.Conventional`, `Program.Upward` : a hierarchy in which assignability goes on upward;
* `Program.Widens`, `Program.Upward.widens` : a type and the types that joins give it.
-/

namespace Resumable
namespace Program

variable {p : Program} {s t u : String}

/-! ## superclasses -/

theorem mem_superNames (h : p.superOf? s = some t) : t ∈ p.superNames := by
  unfold superNames
  unfold superOf? at h
  split at h
  · rw [← Option.some.inj h]
    simp
  · split at h
    · rename_i d hd
      obtain ⟨e, he, rfl⟩ := Option.map_eq_some_iff.1 hd
      have hmem : t ∈ p.classes.filterMap fun e => e.2.superName :=
        List.mem_filterMap.2 ⟨e, List.mem_of_find?_eq_some he, h⟩
      exact List.mem_append_left _ (List.mem_cons_of_mem _ hmem)
    · obtain ⟨e, he, ht⟩ := Option.bind_eq_some_iff.1 h
      exact List.mem_append_right _ (List.mem_filterMap.2 ⟨e, List.mem_of_find?_eq_some he, ht⟩)

/-- names of superclasses that were not seen yet -/
def unseen (p : Program) (seen : List String) : Finset String :=
  p.superNames.toFinset \ seen.toFinset

theorem card_unseen_lt {seen : List String} (h : p.superOf? s = some t) (ht : t ∉ seen) :
    (p.unseen (t :: seen)).card < (p.unseen seen).card := by
  refine Finset.card_lt_card ((Finset.ssubset_iff_of_subset fun u hu => ?_).2 ⟨t, ?_, ?_⟩)
  · simp only [unseen, Finset.mem_sdiff, List.mem_toFinset, List.mem_cons, not_or] at hu ⊢
    exact ⟨hu.1, hu.2.2⟩
  · simp only [unseen, Finset.mem_sdiff, List.mem_toFinset]
    exact ⟨mem_superNames h, ht⟩
  · simp [unseen]

/-- with a bound large enough nothing is left out between a type and what was seen -/
theorem superclassesFrom_closed {fuel : Nat} {seen : List String} {name : String}
    (hfuel : (p.unseen seen).card ≤ fuel) (hs : s ∈ name :: p.superclassesFrom fuel seen name)
    (h : p.superOf? s = some t) : t ∈ seen ∨ t ∈ p.superclassesFrom fuel seen name := by
  induction fuel generalizing seen name with
  | zero =>
    refine .inl ?_
    by_contra ht
    have hmem : t ∈ p.unseen seen := by
      simp only [unseen, Finset.mem_sdiff, List.mem_toFinset]
      exact ⟨mem_superNames h, ht⟩
    exact absurd (Finset.card_pos.2 ⟨t, hmem⟩) (by omega)
  | succ fuel ih =>
    rw [superclassesFrom] at hs ⊢
    split at hs
    · rename_i hnone
      rw [List.mem_singleton.1 hs, hnone] at h
      exact absurd h (by simp)
    · rename_i v hv
      split at hs
      · rename_i hseen
        rw [List.mem_singleton.1 hs, hv] at h
        exact .inl (Option.some.inj h ▸ hseen)
      · rename_i hseen
        rw [if_neg hseen]
        rcases List.mem_cons.1 hs with rfl | hs
        · rw [hv] at h
          exact .inr (Option.some.inj h ▸ List.mem_cons_self)
        · have hless := card_unseen_lt hv hseen
          rcases ih (by omega) hs with hmem | hmem
          · rcases List.mem_cons.1 hmem with rfl | hmem
            · exact .inr List.mem_cons_self
            · exact .inl hmem
          · exact .inr (List.mem_cons_of_mem _ hmem)

/-- **The chain of a type** has the superclass of each of its types -/
theorem mem_chain_of_superOf? (hs : s ∈ p.superclassChain u) (h : p.superOf? s = some t) :
    t ∈ p.superclassChain u := by
  have hfuel : (p.unseen [u]).card ≤ p.superNames.length :=
    (Finset.card_le_card Finset.sdiff_subset).trans (List.toFinset_card_le _)
  rcases superclassesFrom_closed hfuel hs h with hmem | hmem
  · rw [List.mem_singleton.1 hmem]
    exact List.mem_cons_self
  · exact List.mem_cons_of_mem _ hmem

/-- superclasses stay among types that have the superclass of each of them -/
theorem mem_of_superclassesFrom {T : String → Prop}
    (hclosed : ∀ s t, T s → p.superOf? s = some t → T t) {fuel : Nat} {seen : List String}
    (hs : T s) : ∀ t ∈ p.superclassesFrom fuel seen s, T t := by
  induction fuel generalizing seen s with
  | zero => exact fun t ht => absurd ht (by simp [superclassesFrom])
  | succ fuel ih =>
    intro t ht
    rw [superclassesFrom] at ht
    split at ht
    · exact absurd ht (by simp)
    · rename_i v hv
      split at ht
      · exact absurd ht (by simp)
      · have htypes := hclosed s v hs hv
        rcases List.mem_cons.1 ht with rfl | ht
        · exact htypes
        · exact ih htypes t ht

theorem mem_of_chain {T : String → Prop}
    (hclosed : ∀ s t, T s → p.superOf? s = some t → T t) (hs : T s) :
    ∀ t ∈ p.superclassChain s, T t := by
  intro t ht
  rcases List.mem_cons.1 ht with rfl | ht
  · exact hs
  · exact mem_of_superclassesFrom hclosed hs t ht

/-- superclasses of a superclass are superclasses -/
theorem chain_subset (h : t ∈ p.superclassChain s) : p.superclassChain t ⊆ p.superclassChain s :=
  fun u hu => mem_of_chain (T := (· ∈ p.superclassChain s))
    (fun _ _ hv hw => mem_chain_of_superOf? hv hw) h u hu

/-! ## interfaces -/

/-- what is found is pending, or is named as an interface -/
theorem mem_of_reachesFrom {fuel : Nat} {seen pending : List String}
    (h : p.reachesFrom t fuel seen pending = true) : t ∈ pending ∨ ∃ c, t ∈ p.interfacesOf c := by
  induction fuel generalizing seen pending with
  | zero => cases pending <;> exact absurd h (by simp [reachesFrom])
  | succ fuel ih =>
    cases pending with
    | nil => exact absurd h (by simp [reachesFrom])
    | cons v rest =>
      rw [reachesFrom] at h
      rcases Bool.or_eq_true_iff.1 h with hv | h
      · exact .inl (beq_iff_eq.1 hv ▸ List.mem_cons_self)
      · split at h
        · exact (ih h).imp_left (List.mem_cons_of_mem _)
        · rcases ih h with hmem | hc
          · rcases List.mem_append.1 hmem with hmem | hmem
            · exact .inr ⟨v, hmem⟩
            · exact .inl (List.mem_cons_of_mem _ hmem)
          · exact .inr hc

/-- interfaces listed by the classes that were not seen yet -/
def interfacesLeft (seen : List String) : List (String × ClassDef) → Nat
  | [] => 0
  | e :: es => (if e.1 ∈ seen then 0 else e.2.interfaces.length) + interfacesLeft seen es

theorem interfacesLeft_nil (es : List (String × ClassDef)) :
    interfacesLeft [] es = es.foldr (fun e n => e.2.interfaces.length + n) 0 := by
  induction es with
  | nil => rfl
  | cons e es ih =>
    rw [interfacesLeft, List.foldr_cons, ih, if_neg (by simp)]

theorem interfacesLeft_cons_le (name : String) (seen : List String) (es : List (String × ClassDef)) :
    interfacesLeft (name :: seen) es ≤ interfacesLeft seen es := by
  induction es with
  | nil => exact Nat.le_refl _
  | cons e es ih =>
    rw [interfacesLeft, interfacesLeft]
    by_cases he : e.1 ∈ seen
    · rw [if_pos he, if_pos (List.mem_cons_of_mem _ he)]
      omega
    · rw [if_neg he]
      split <;> omega

/-- the interfaces of a type that is seen now are no longer left -/
theorem interfacesLeft_cons {name : String} {seen : List String} (hname : name ∉ seen)
    (es : List (String × ClassDef)) :
    (((es.find? fun e => e.1 == name).map Prod.snd).map ClassDef.interfaces |>.getD []).length +
      interfacesLeft (name :: seen) es ≤ interfacesLeft seen es := by
  induction es with
  | nil => exact Nat.le_refl _
  | cons e es ih =>
    rw [interfacesLeft, interfacesLeft]
    by_cases he : e.1 = name
    · have hle := interfacesLeft_cons_le name seen es
      rw [List.find?_cons_of_pos (by simpa using he), if_pos (he ▸ List.mem_cons_self),
        if_neg (he ▸ hname)]
      simp only [Option.map_some, Option.getD_some]
      omega
    · rw [List.find?_cons_of_neg (by simpa using he)]
      by_cases hseen : e.1 ∈ seen
      · rw [if_pos hseen, if_pos (List.mem_cons_of_mem _ hseen)]
        omega
      · rw [if_neg hseen, if_neg (by simp [he, hseen])]
        omega

/-- with a bound large enough everything pending is found -/
theorem reachesFrom_of_mem {fuel : Nat} {seen pending : List String} (ht : t ∈ pending)
    (hfuel : pending.length + interfacesLeft seen p.classes ≤ fuel) :
    p.reachesFrom t fuel seen pending = true := by
  induction fuel generalizing seen pending with
  | zero =>
    have hpos := List.length_pos_of_mem ht
    omega
  | succ fuel ih =>
    cases pending with
    | nil => exact absurd ht (by simp)
    | cons v rest =>
      rw [List.length_cons] at hfuel
      rw [reachesFrom]
      by_cases hv : v = t
      · simp [hv]
      · have hmem : t ∈ rest := (List.mem_cons.1 ht).resolve_left (Ne.symm hv)
        refine Bool.or_eq_true_iff.2 (.inr ?_)
        split
        · exact ih hmem (by omega)
        · rename_i hseen
          refine ih (List.mem_append_right _ hmem) ?_
          have hless := interfacesLeft_cons hseen p.classes
          change (p.interfacesOf v).length + _ ≤ _ at hless
          rw [List.length_append]
          omega

/-! ## assignability -/

theorem isAssignable_iff : p.isAssignable s t = true ↔ s = t ∨ t = objectType ∨
    isArrayType s = false ∧ isArrayType t = false ∧
      p.reachesFrom t ((p.superclassChain s).length + p.interfaceCount) [] (p.superclassChain s) =
        true := by
  simp [isAssignable, or_assoc, and_assoc]

/-- The hierarchy is one of a language with single inheritance: the root is at the top, arrays are not
extended, and interfaces have no superclass but the root. -/
structure Conventional (p : Program) : Prop where
  root : p.superOf? objectType = none
  elementary : ∀ s t, isArrayType s = false → p.superOf? s = some t → isArrayType t = false
  interfaces : ∀ c s t, s ∈ p.interfacesOf c → p.superOf? s = some t → t = objectType

/-- what may be used as a type may be used as a superclass of it -/
def Upward (p : Program) : Prop :=
  ∀ s t u, p.isAssignable s t = true → u ∈ p.superclassChain t → p.isAssignable s u = true

section
variable (root : p.superOf? objectType = none)
include root

/-- the root has no superclass but itself -/
theorem eq_object_of_chain (h : t ∈ p.superclassChain objectType) : t = objectType :=
  mem_of_chain (T := (· = objectType))
    (fun s t hs ht => absurd (hs ▸ ht) (by rw [root]; simp)) rfl t h

/-- a superclass may be used for a type, where arrays are not extended -/
theorem assignable_of_chain
    (elementary : ∀ s t, isArrayType s = false → p.superOf? s = some t → isArrayType t = false)
    (h : t ∈ p.superclassChain s) : p.isAssignable s t = true := by
  cases harray : isArrayType s with
  | true =>
    -- an array has the root above it and nothing else
    have habove := mem_of_chain (p := p) (T := fun t => t = s ∨ t = objectType) (fun v w hv hw => by
      rcases hv with rfl | rfl
      · rw [superOf?, if_pos harray] at hw
        exact .inr (Option.some.inj hw).symm
      · exact absurd hw (by rw [root]; simp)) (.inl rfl) t h
    rcases habove with rfl | rfl
    · exact p.isAssignable_self t
    · exact p.isAssignable_object s
  | false =>
    have ht := mem_of_chain (p := p) (T := fun t => isArrayType t = false)
      (fun v w hv hw => elementary v w hv hw) harray t h
    refine isAssignable_iff.2 (.inr (.inr ⟨harray, ht, reachesFrom_of_mem h ?_⟩))
    rw [interfacesLeft_nil]
    exact Nat.le_refl _

end

namespace Conventional

/-- a superclass may be used for a type -/
theorem assignable_chain (hp : p.Conventional) (h : t ∈ p.superclassChain s) :
    p.isAssignable s t = true :=
  assignable_of_chain hp.root hp.elementary h

/-- **In a conventional hierarchy** assignability goes on upward -/
theorem upward (hp : p.Conventional) : p.Upward := by
  intro s t u hst hu
  rcases isAssignable_iff.1 hst with rfl | rfl | ⟨hs, ht, hreaches⟩
  · exact hp.assignable_chain hu
  · rw [eq_object_of_chain hp.root hu]
    exact p.isAssignable_object s
  · rcases mem_of_reachesFrom hreaches with hmem | ⟨d, hd⟩
    · exact hp.assignable_chain (chain_subset hmem hu)
    · have habove := mem_of_chain (p := p) (T := fun u => u = t ∨ u = objectType)
        (fun v w hv hw => by
          rcases hv with rfl | rfl
          · exact .inr (hp.interfaces d v w hd hw)
          · exact absurd hw (by rw [hp.root]; simp)) (.inl rfl) u hu
      rcases habove with rfl | rfl
      · exact hst
      · exact p.isAssignable_object s

end Conventional

/-! ## joins -/

/-- from a type to the types that joins give it -/
def Widens (p : Program) : String → String → Prop :=
  Relation.ReflTransGen fun s t => t = objectType ∨ t ∈ p.superclassChain s

theorem Widens.refl (p : Program) (t : String) : p.Widens t t := Relation.ReflTransGen.refl

theorem Widens.trans (h : p.Widens s t) (h' : p.Widens t u) : p.Widens s u :=
  Relation.ReflTransGen.trans h h'

/-- the common supertype of two types is wider than both -/
theorem widens_commonSupertype (p : Program) (s t : String) :
    p.Widens s (p.commonSupertype s t) ∧ p.Widens t (p.commonSupertype s t) := by
  have hobject (v : String) : p.Widens v objectType := .single (.inl rfl)
  unfold commonSupertype
  split
  · rename_i heq
    obtain rfl := beq_iff_eq.1 heq
    exact ⟨.refl p s, .refl p s⟩
  · split
    · exact ⟨hobject s, hobject t⟩
    · dsimp only
      cases hfind : (p.superclassChain t).find? fun v => v ∈ p.superclassChain s with
      | none => exact ⟨hobject s, hobject t⟩
      | some v =>
        have hs : v ∈ p.superclassChain s := by simpa using List.find?_some hfind
        exact ⟨.single (.inr hs), .single (.inr (List.mem_of_find?_eq_some hfind))⟩

/-- **What may be used as a type** may be used as a wider one -/
theorem Upward.widens (hp : p.Upward) (h : p.Widens t u) (hs : p.isAssignable s t = true) :
    p.isAssignable s u = true := by
  induction h with
  | refl => exact hs
  | tail _ hstep ih =>
    rcases hstep with rfl | hmem
    · exact p.isAssignable_object s
    · exact hp _ _ _ ih hmem

end Program
end Resumable
