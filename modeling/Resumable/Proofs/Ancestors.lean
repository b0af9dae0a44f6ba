import Mathlib.Logic.Relation
import Resumable.Proofs.Supertypes

/-!
# The order of types

Where no class is above itself and nothing is above the root, being a superclass is an order, and the common
supertype of two types, as joins use it, is their least upper bound in it: the chain of a type lists its
superclasses upward, so the first of them that is found on the other side as well is the lowest one.

* `Program.Extends`, `Program.mem_chain_iff` : superclasses, step by step;
* `Program.Rooted`, `Program.Layered` : hierarchies without cycles below the root;
* `Program.height` : how far a type is from the top;
* `Program.Under` : the order of types;
* `Program.Layered.common_eq_iff`, `Program.Layered.under_common`, `Program.Layered.common_under` : the common
  supertype is the least upper bound.
-/

namespace Resumable
namespace Program

variable {p : Program} {s t u : String}

/-! ## superclasses -/

/-- one type is the superclass of another -/
def Extends (p : Program) (s t : String) : Prop := p.superOf? s = some t

/-- the chain of a type holds what can be reached from superclass to superclass -/
theorem mem_chain_iff : t ∈ p.superclassChain s ↔ Relation.ReflTransGen p.Extends s t := by
  constructor
  · intro h
    exact mem_of_chain (T := Relation.ReflTransGen p.Extends s)
      (fun v w hv hw => hv.tail hw) Relation.ReflTransGen.refl t h
  · intro h
    induction h with
    | refl => exact List.mem_cons_self
    | tail _ hstep ih => exact mem_chain_of_superOf? ih hstep

theorem mem_chain_self (p : Program) (s : String) : s ∈ p.superclassChain s := List.mem_cons_self

theorem mem_chain_trans (h : t ∈ p.superclassChain s) (h' : u ∈ p.superclassChain t) :
    u ∈ p.superclassChain s := chain_subset h h'

/-- superclasses are listed upward -/
theorem superclassesFrom_upward (fuel : Nat) (seen : List String) (s : String) :
    (s :: p.superclassesFrom fuel seen s).Pairwise fun t u => u ∈ p.superclassChain t := by
  induction fuel generalizing seen s with
  | zero => exact List.pairwise_singleton _ _
  | succ fuel ih =>
    rw [superclassesFrom]
    split
    · exact List.pairwise_singleton _ _
    · rename_i t ht
      split
      · exact List.pairwise_singleton _ _
      · refine List.pairwise_cons.2 ⟨fun u hu => ?_, ih _ t⟩
        have hfirst : t ∈ p.superclassChain s := mem_chain_of_superOf? (mem_chain_self p s) ht
        rcases List.mem_cons.1 hu with rfl | hu
        · exact hfirst
        · have hclosed : ∀ v w, v ∈ p.superclassChain s → p.superOf? v = some w → w ∈ p.superclassChain s :=
            fun v w hv hw => mem_chain_of_superOf? hv hw
          exact mem_of_superclassesFrom (T := (· ∈ p.superclassChain s)) hclosed hfirst u hu

theorem chain_upward (p : Program) (s : String) :
    (p.superclassChain s).Pairwise fun t u => u ∈ p.superclassChain t :=
  superclassesFrom_upward _ _ s

/-- no class is above itself, and nothing is above the root -/
structure Rooted (p : Program) : Prop where
  root : p.superOf? objectType = none
  acyclic : ∀ s, ¬ Relation.TransGen p.Extends s s

/-- a hierarchy in which, moreover, the type that everything may implement is no superclass -/
structure Layered (p : Program) : Prop extends Rooted p where
  interface : ∀ s, ¬ p.Extends s runnableType

namespace Rooted

/-- two types that are above each other are the same -/
theorem antisymm (hp : p.Rooted) (h : t ∈ p.superclassChain s) (h' : s ∈ p.superclassChain t) : s = t := by
  rcases Relation.reflTransGen_iff_eq_or_transGen.1 (mem_chain_iff.1 h) with heq | hst
  · exact heq.symm
  · exact absurd (hst.trans_left (mem_chain_iff.1 h')) (hp.acyclic s)

/-- nothing is above the root -/
theorem eq_of_chain_root (hp : p.Rooted) (h : t ∈ p.superclassChain objectType) : t = objectType :=
  mem_of_chain (T := (· = objectType))
    (fun v w hv hw => absurd (hv ▸ hw) (by rw [hp.root]; simp)) rfl t h

/-- a hierarchy is rooted if no superclass of a type has the type among its own superclasses -/
theorem of_superclasses (root : p.superOf? objectType = none)
    (h : ∀ s t, p.superOf? s = some t → s ∉ p.superclassChain t) : p.Rooted := by
  refine ⟨root, fun s hs => ?_⟩
  obtain ⟨t, hst, hts⟩ := Relation.TransGen.head'_iff.1 hs
  exact h s t hst (mem_chain_iff.2 hts)

end Rooted

/-- the types that have a superclass of their own, arrays apart -/
def declaredTypes (p : Program) : List String :=
  p.classes.map Prod.fst ++ builtinSupers.map Prod.fst

theorem mem_declaredTypes (harray : isArrayType s = false) (h : p.superOf? s = some t) :
    s ∈ p.declaredTypes := by
  unfold superOf? at h
  rw [if_neg (by simp [harray])] at h
  split at h
  · rename_i c hc
    obtain ⟨e, he, -⟩ := Option.map_eq_some_iff.1 hc
    have hname : e.1 = s := by simpa using List.find?_some he
    exact List.mem_append_left _ (List.mem_map.2 ⟨e, List.mem_of_find?_eq_some he, hname⟩)
  · obtain ⟨e, he, -⟩ := Option.bind_eq_some_iff.1 h
    have hname : e.1 = s := by simpa using List.find?_some he
    exact List.mem_append_right _ (List.mem_map.2 ⟨e, List.mem_of_find?_eq_some he, hname⟩)

theorem superOf?_array (harray : isArrayType s = true) : p.superOf? s = some objectType := by
  unfold superOf?
  rw [if_pos harray]

/-- what is to be looked at to see that a hierarchy is layered -/
theorem Layered.of_declared (root : p.superOf? objectType = none)
    (h : ∀ s ∈ p.declaredTypes, ∀ t ∈ p.superOf? s, s ∉ p.superclassChain t ∧ t ≠ runnableType) :
    p.Layered := by
  have hall : ∀ s t, p.superOf? s = some t → s ∉ p.superclassChain t ∧ t ≠ runnableType := by
    intro s t hst
    cases harray : isArrayType s with
    | false => exact h s (mem_declaredTypes harray hst) t hst
    | true =>
      rw [superOf?_array harray] at hst
      obtain rfl := Option.some.inj hst
      refine ⟨fun hmem => ?_, by decide⟩
      have hs : s = objectType := mem_of_chain (T := (· = objectType))
        (fun v w hv hw => absurd (hv ▸ hw) (by rw [root]; simp)) rfl s hmem
      rw [hs] at harray
      exact absurd harray (by decide)
  refine ⟨.of_superclasses root fun s t hst => (hall s t hst).1, fun s hs => ?_⟩
  exact (hall s runnableType hs).2 rfl

/-! ## the height of a type -/

/-- how many superclasses a type has, and that it is not the root -/
def height (p : Program) (s : String) : Nat :=
  if s = objectType then 0 else 1 + (p.superclassChain s).toFinset.card

theorem height_root (p : Program) : p.height objectType = 0 := if_pos rfl

theorem height_pos (h : s ≠ objectType) : 0 < p.height s := by
  rw [height, if_neg h]
  omega

/-- the height falls on the way up -/
theorem Rooted.height_lt (hp : p.Rooted) (h : t ∈ p.superclassChain s) (hne : s ≠ t) :
    p.height t < p.height s := by
  by_cases hs : s = objectType
  · subst hs
    exact absurd (hp.eq_of_chain_root h).symm hne
  by_cases ht : t = objectType
  · rw [ht, height_root]
    exact height_pos hs
  have hsub : (p.superclassChain t).toFinset ⊂ (p.superclassChain s).toFinset := by
    have hle : (p.superclassChain t).toFinset ⊆ (p.superclassChain s).toFinset := by
      intro u hu
      rw [List.mem_toFinset] at hu ⊢
      exact mem_chain_trans h hu
    refine (Finset.ssubset_iff_of_subset hle).2 ⟨s, List.mem_toFinset.2 (mem_chain_self p s), fun hmem => ?_⟩
    exact hne (hp.antisymm h (List.mem_toFinset.1 hmem))
  have hcard := Finset.card_lt_card hsub
  rw [height, if_neg ht, height, if_neg hs]
  omega

/-- a join keeps a type or takes one that is less high -/
theorem Rooted.height_common_lt (hp : p.Rooted) (h : p.commonSupertype s t ≠ s) :
    p.height (p.commonSupertype s t) < p.height s := by
  have hroot : s ≠ objectType → p.height objectType < p.height s := by
    intro hs
    rw [height_root]
    exact height_pos hs
  unfold commonSupertype at h ⊢
  split at h
  · exact absurd rfl h
  · rename_i hst
    rw [if_neg hst]
    split at h
    · rename_i hi
      rw [if_pos hi]
      exact hroot (Ne.symm h)
    · rename_i hi
      rw [if_neg hi]
      dsimp only at h ⊢
      cases hfind : (p.superclassChain t).find? fun v => v ∈ p.superclassChain s with
      | none =>
        rw [hfind] at h
        exact hroot (Ne.symm h)
      | some v =>
        rw [hfind] at h
        have hv : v ∈ p.superclassChain s := by simpa using List.find?_some hfind
        exact hp.height_lt hv (Ne.symm h)

/-! ## the order of types -/

/-- one type is below another: both are the same, or the other one is the root or a superclass; what the
interface that everything may implement extends does not count -/
def Under (p : Program) (s t : String) : Prop :=
  s = t ∨ t = objectType ∨ s ≠ runnableType ∧ t ∈ p.superclassChain s

theorem Under.refl (p : Program) (s : String) : p.Under s s := .inl rfl

theorem Under.root (p : Program) (s : String) : p.Under s objectType := .inr (.inl rfl)

theorem runnable_ne_object : runnableType ≠ objectType := by decide

namespace Layered

/-- what is above another type is not the interface that everything may implement -/
theorem ne_runnable (hp : p.Layered) (hs : s ≠ runnableType) (h : t ∈ p.superclassChain s) :
    t ≠ runnableType := by
  intro ht
  subst ht
  rcases Relation.ReflTransGen.cases_tail (mem_chain_iff.1 h) with heq | ⟨u, -, hu⟩
  · exact hs heq.symm
  · exact hp.interface u hu

theorem under_root (hp : p.Layered) (h : p.Under objectType t) : t = objectType := by
  rcases h with rfl | rfl | ⟨-, h⟩
  · rfl
  · rfl
  · exact hp.eq_of_chain_root h

theorem under_runnable (hp : p.Layered) (h : p.Under s runnableType) : s = runnableType := by
  rcases h with rfl | h | ⟨hs, h⟩
  · rfl
  · exact absurd h runnable_ne_object
  · exact absurd rfl (hp.ne_runnable hs h)

theorem under_trans (hp : p.Layered) (h : p.Under s t) (h' : p.Under t u) : p.Under s u := by
  rcases h with rfl | rfl | ⟨hs, hst⟩
  · exact h'
  · rw [hp.under_root h']
    exact Under.root p s
  · rcases h' with rfl | rfl | ⟨-, htu⟩
    · exact .inr (.inr ⟨hs, hst⟩)
    · exact Under.root p s
    · exact .inr (.inr ⟨hs, mem_chain_trans hst htu⟩)

theorem under_antisymm (hp : p.Layered) (h : p.Under s t) (h' : p.Under t s) : s = t := by
  rcases h with rfl | rfl | ⟨-, hst⟩
  · rfl
  · exact hp.under_root h'
  · rcases h' with rfl | rfl | ⟨-, hts⟩
    · rfl
    · exact (hp.eq_of_chain_root hst).symm
    · exact hp.antisymm hst hts

/-! ## the common supertype -/

/-- **An upper bound** -/
theorem under_common (p : Program) (s t : String) :
    p.Under s (p.commonSupertype s t) ∧ p.Under t (p.commonSupertype s t) := by
  unfold commonSupertype
  split
  · rename_i hst
    obtain rfl := beq_iff_eq.1 hst
    exact ⟨.refl p s, .refl p s⟩
  · split
    · exact ⟨.root p s, .root p t⟩
    · rename_i hi
      have hne : s ≠ runnableType ∧ t ≠ runnableType := by
        simpa [isBuiltinInterface] using hi
      dsimp only
      cases hfind : (p.superclassChain t).find? fun v => v ∈ p.superclassChain s with
      | none => exact ⟨.root p s, .root p t⟩
      | some v =>
        have hs : v ∈ p.superclassChain s := by simpa using List.find?_some hfind
        exact ⟨.inr (.inr ⟨hne.1, hs⟩), .inr (.inr ⟨hne.2, List.mem_of_find?_eq_some hfind⟩)⟩

/-- **The least one** -/
theorem common_under (hp : p.Layered) (hs : p.Under s u) (ht : p.Under t u) :
    p.Under (p.commonSupertype s t) u := by
  unfold commonSupertype
  split
  · exact hs
  · rename_i hne
    have hne : s ≠ t := by simpa using hne
    split
    · rename_i hi
      -- one of both is the interface, which has nothing but the root above it
      have hu : u = objectType := by
        have hi : s = runnableType ∨ t = runnableType := by simpa [isBuiltinInterface] using hi
        have hcase : ∀ a b, a ≠ b → a = runnableType → p.Under a u → p.Under b u → u = objectType := by
          intro a b hab ha hau hbu
          subst ha
          rcases hau with rfl | hu | ⟨hself, -⟩
          · exact absurd (hp.under_runnable hbu).symm hab
          · exact hu
          · exact absurd rfl hself
        rcases hi with hi | hi
        · exact hcase s t hne hi hs ht
        · exact hcase t s (Ne.symm hne) hi ht hs
      rw [hu]
      exact .root p _
    · rename_i hi
      have hrun : s ≠ runnableType ∧ t ≠ runnableType := by
        simpa [isBuiltinInterface] using hi
      by_cases hu : u = objectType
      · rw [hu]
        exact .root p _
      have hup : ∀ a, p.Under a u → u ∈ p.superclassChain a := by
        intro a ha
        rcases ha with rfl | h | ⟨-, h⟩
        · exact mem_chain_self p a
        · exact absurd h hu
        · exact h
      have hsu := hup s hs
      have htu := hup t ht
      dsimp only
      cases hfind : (p.superclassChain t).find? fun v => v ∈ p.superclassChain s with
      | none =>
        have hnone := List.find?_eq_none.1 hfind u htu
        exact absurd hsu (by simpa using hnone)
      | some v =>
        -- the chain of `t` runs upward, and nothing in front of `v` is above `s`
        obtain ⟨-, front, behind, hchain, hfront⟩ := List.find?_eq_some_iff_append.1 hfind
        have hmem : u ∈ v :: behind := by
          rw [hchain] at htu
          rcases List.mem_append.1 htu with h | h
          · have := hfront u h
            exact absurd hsu (by simpa using this)
          · exact h
        have hv : v ≠ runnableType := hp.ne_runnable hrun.2 (List.mem_of_find?_eq_some hfind)
        rcases List.mem_cons.1 hmem with rfl | hmem
        · exact .refl p u
        · have hpair := chain_upward p t
          rw [hchain] at hpair
          have hvu := (List.pairwise_cons.1 (List.pairwise_append.1 hpair).2.1).1 u hmem
          exact .inr (.inr ⟨hv, hvu⟩)

/-- a type that joining another one in does not change is above it -/
theorem common_eq_iff (hp : p.Layered) : p.commonSupertype t s = t ↔ p.Under s t := by
  constructor
  · intro h
    have hup := (under_common p t s).2
    rwa [h] at hup
  · intro h
    exact hp.under_antisymm (hp.common_under (.refl p t) h) (under_common p t s).1

end Layered

end Program
end Resumable
