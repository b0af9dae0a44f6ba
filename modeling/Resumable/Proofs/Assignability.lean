import Mathlib.Logic.Relation
import Resumable.Assembly.Build
import Resumable.Proofs.Supertypes

/-!
# What may be used for what

A value may be used as each type that the clauses of the classes lead to, if a class may extend another one and name
interfaces.  The search that decides it goes along the superclasses first and along interfaces from then on, so that it
does not see what an interface extends.  Where that makes a difference, assignability is not transitive.

* `Program.Implements`, `Program.Found` : interfaces, and what the search is for;
* `Program.reachesFrom_iff`, `Program.isAssignable_iff_found` : the search finds exactly this;
* `Program.Names`, `Program.Ascends` : all clauses;
* `Program.assignability_preorder_iff` : assignability is a preorder exactly if it follows all clauses.
-/

namespace Resumable
namespace Program

variable {p : Program} {s t u v : String}

/-! ## the search -/

/-- a class names an interface -/
def Implements (p : Program) (s t : String) : Prop := t ∈ p.interfacesOf s

/-- a superclass, or an interface that one of them has, directly or through other interfaces -/
def Found (p : Program) (s t : String) : Prop :=
  ∃ c ∈ p.superclassChain s, Relation.ReflTransGen p.Implements c t

/-- only what interfaces lead to is found -/
theorem exists_of_reachesFrom {fuel : Nat} {seen pending : List String}
    (h : p.reachesFrom t fuel seen pending = true) : ∃ v ∈ pending, Relation.ReflTransGen p.Implements v t := by
  induction fuel generalizing seen pending with
  | zero => cases pending <;> exact absurd h (by simp [reachesFrom])
  | succ fuel ih =>
    cases pending with
    | nil => exact absurd h (by simp [reachesFrom])
    | cons v rest =>
      rw [reachesFrom] at h
      rcases Bool.or_eq_true_iff.1 h with hv | h
      · exact ⟨v, List.mem_cons_self, beq_iff_eq.1 hv ▸ .refl⟩
      · split at h
        · obtain ⟨w, hw, hreach⟩ := ih h
          exact ⟨w, List.mem_cons_of_mem _ hw, hreach⟩
        · obtain ⟨w, hw, hreach⟩ := ih h
          rcases List.mem_append.1 hw with hw | hw
          · exact ⟨v, List.mem_cons_self, .head hw hreach⟩
          · exact ⟨w, List.mem_cons_of_mem _ hw, hreach⟩

/-- What leads to nothing else holds all that it leads to.  So while something that was not seen is led to, something
is pending. -/
theorem pending_ne_nil {seen pending : List String} (ht : t ∉ seen)
    (hseen : ∀ v ∈ seen, ∀ w, p.Implements v w → w ∈ seen ∨ w ∈ pending) (hv : v ∈ seen ∨ v ∈ pending)
    (hreach : Relation.ReflTransGen p.Implements v t) : pending ≠ [] := by
  rintro rfl
  have hclosed : ∀ {w}, Relation.ReflTransGen p.Implements v w → w ∈ seen := by
    intro w hw
    induction hw with
    | refl => simpa using hv
    | tail _ hstep ih => simpa using hseen _ ih _ hstep
  exact ht (hclosed hreach)

/-- Everything that interfaces lead to is found, if the bound is large enough and what was seen before leads to
nothing but what was seen or is pending. -/
theorem reachesFrom_of_reach {fuel : Nat} {seen pending : List String}
    (hfuel : pending.length + interfacesLeft seen p.classes ≤ fuel) (ht : t ∉ seen)
    (hseen : ∀ v ∈ seen, ∀ w, p.Implements v w → w ∈ seen ∨ w ∈ pending) (hv : v ∈ seen ∨ v ∈ pending)
    (hreach : Relation.ReflTransGen p.Implements v t) : p.reachesFrom t fuel seen pending = true := by
  induction fuel generalizing seen pending with
  | zero => exact absurd (List.length_eq_zero_iff.1 (by omega)) (pending_ne_nil ht hseen hv hreach)
  | succ fuel ih =>
    obtain ⟨x, rest, rfl⟩ := List.exists_cons_of_ne_nil (pending_ne_nil ht hseen hv hreach)
    rw [List.length_cons] at hfuel
    rw [reachesFrom]
    by_cases hx : x = t
    · simp [hx]
    refine Bool.or_eq_true_iff.2 (.inr ?_)
    split
    · rename_i hmem
      -- what was seen twice adds nothing
      have hrest (w : String) (hw : w ∈ seen ∨ w ∈ x :: rest) : w ∈ seen ∨ w ∈ rest := by
        rcases hw with hw | hw
        · exact .inl hw
        · rcases List.mem_cons.1 hw with rfl | hw
          · exact .inl hmem
          · exact .inr hw
      exact ih (by omega) ht (fun v hv w hw => hrest w (hseen v hv w hw)) (hrest v hv)
    · rename_i hmem
      have hless := interfacesLeft_cons hmem p.classes
      change (p.interfacesOf x).length + _ ≤ _ at hless
      have hmore (w : String) (hw : w ∈ seen ∨ w ∈ x :: rest) : w ∈ x :: seen ∨ w ∈ p.interfacesOf x ++ rest := by
        rcases hw with hw | hw
        · exact .inl (List.mem_cons_of_mem _ hw)
        · rcases List.mem_cons.1 hw with rfl | hw
          · exact .inl List.mem_cons_self
          · exact .inr (List.mem_append_right _ hw)
      refine ih (by rw [List.length_append]; omega) (by simp [ht, Ne.symm hx]) (fun v hv w hw => ?_) (hmore v hv)
      rcases List.mem_cons.1 hv with rfl | hv
      · exact .inr (List.mem_append_left _ hw)
      · exact hmore w (hseen v hv w hw)

/-- **The search** finds what the pending types lead to -/
theorem reachesFrom_iff {fuel : Nat} {pending : List String} (hfuel : pending.length + p.interfaceCount ≤ fuel) :
    p.reachesFrom t fuel [] pending = true ↔ ∃ v ∈ pending, Relation.ReflTransGen p.Implements v t := by
  refine ⟨exists_of_reachesFrom, fun ⟨v, hv, hreach⟩ => ?_⟩
  refine reachesFrom_of_reach ?_ List.not_mem_nil (fun v hv => absurd hv List.not_mem_nil) (.inr hv) hreach
  rw [interfacesLeft_nil]
  exact hfuel

/-- **What assignability decides** -/
theorem isAssignable_iff_found : p.isAssignable s t = true ↔ s = t ∨ t = objectType ∨
    isArrayType s = false ∧ isArrayType t = false ∧ p.Found s t := by
  rw [isAssignable_iff, reachesFrom_iff (Nat.le_refl _)]
  rfl

theorem Found.refl (p : Program) (s : String) : p.Found s s := ⟨s, List.mem_cons_self, .refl⟩

theorem Found.implements (h : p.Found s t) (hu : p.Implements t u) : p.Found s u := by
  obtain ⟨c, hc, hreach⟩ := h
  exact ⟨c, hc, hreach.tail hu⟩

theorem found_of_extends (h : p.superOf? s = some t) : p.Found s t :=
  ⟨t, mem_chain_of_superOf? List.mem_cons_self h, .refl⟩

/-! ## all clauses -/

/-- a type names another one as its superclass or as an interface -/
def Names (p : Program) (s t : String) : Prop := p.superOf? s = some t ∨ p.Implements s t

/-- from a type to all that the clauses lead to -/
def Ascends (p : Program) : String → String → Prop := Relation.ReflTransGen p.Names

theorem ascends_of_chain (h : t ∈ p.superclassChain s) : p.Ascends s t :=
  mem_of_chain (T := p.Ascends s) (fun _ _ hv hw => hv.tail (.inl hw)) .refl t h

/-- what is found is named -/
theorem Found.ascends (h : p.Found s t) : p.Ascends s t := by
  obtain ⟨c, hc, hreach⟩ := h
  exact (ascends_of_chain hc).trans (hreach.lift id fun _ _ => .inr)

/-- **Transitive assignability** follows all clauses: on the way up, what comes next is found from a type for which
the first one may be used. -/
theorem assignable_of_ascends
    (htrans : ∀ s t u, p.isAssignable s t = true → p.isAssignable t u = true → p.isAssignable s u = true)
    (hs : isArrayType s = false) (hu : isArrayType u = false) (h : p.Ascends s u) : p.isAssignable s u = true := by
  have hstep {t v : String} (ht : isArrayType t = false) (hst : p.isAssignable s t = true) (hv : isArrayType v = false)
      (hfound : p.Found t v) : p.isAssignable s v = true :=
    htrans s t v hst (isAssignable_iff_found.2 (.inr (.inr ⟨ht, hv, hfound⟩)))
  have hnear : ∃ t, isArrayType t = false ∧ p.isAssignable s t = true ∧ p.Found t u := by
    clear hu
    induction h with
    | refl => exact ⟨s, hs, p.isAssignable_self s, .refl p s⟩
    | @tail v w _ hvw ih =>
      obtain ⟨t, ht, hst, hfound⟩ := ih
      rcases hvw with hvw | hvw
      · cases hv : isArrayType v with
        | false => exact ⟨v, hv, hstep ht hst hv hfound, found_of_extends hvw⟩
        | true =>
          -- above an array type there is the root only
          rw [superOf?, if_pos hv] at hvw
          rw [← Option.some.inj hvw]
          exact ⟨objectType, by decide, p.isAssignable_object s, .refl p _⟩
      · exact ⟨t, ht, hst, hfound.implements hvw⟩
  obtain ⟨t, ht, hst, hfound⟩ := hnear
  exact hstep ht hst hu hfound

section
variable (root : p.class? objectType = none)
include root

/-- where the root is not declared it has nothing above it -/
theorem superOf?_root : p.superOf? objectType = none := by
  unfold superOf?
  rw [root]
  rfl

theorem not_names_root : ¬ p.Names objectType t := by
  rintro (h | h)
  · exact nomatch (superOf?_root root).symm.trans h
  · rw [Implements, interfacesOf, root] at h
    exact absurd h (by simp)

theorem eq_root_of_found (h : p.Found objectType t) : t = objectType := by
  rcases Relation.ReflTransGen.cases_head h.ascends with h | ⟨u, hu, -⟩
  · exact h.symm
  · exact absurd hu (not_names_root root)

/-- assignability that follows all clauses is transitive -/
theorem assignable_trans
    (hall : ∀ s t, isArrayType s = false → isArrayType t = false → p.Ascends s t → p.isAssignable s t = true)
    (hst : p.isAssignable s t = true) (htu : p.isAssignable t u = true) : p.isAssignable s u = true := by
  rcases isAssignable_iff_found.1 hst with rfl | rfl | ⟨hs, -, hst'⟩
  · exact htu
  · rcases isAssignable_iff_found.1 htu with rfl | rfl | ⟨-, -, htu⟩
    · exact hst
    · exact hst
    · rw [eq_root_of_found root htu]
      exact p.isAssignable_object s
  · rcases isAssignable_iff_found.1 htu with rfl | rfl | ⟨-, hu, htu'⟩
    · exact hst
    · exact p.isAssignable_object s
    · exact hall s u hs hu (hst'.ascends.trans htu'.ascends)

/-- where interfaces extend nothing but the root, all clauses are followed -/
theorem found_of_ascends (hflat : ∀ c i t, p.Implements c i → p.superOf? i = some t → t = objectType)
    (h : p.Ascends s t) : t = objectType ∨ p.Found s t := by
  induction h with
  | refl => exact .inr (.refl p s)
  | tail _ hstep ih =>
    rcases ih with rfl | hfound
    · exact absurd hstep (not_names_root root)
    · rcases hstep with hstep | hstep
      · obtain ⟨c, hc, hreach⟩ := hfound
        rcases Relation.ReflTransGen.cases_tail hreach with rfl | ⟨d, -, hd⟩
        · exact .inr ⟨_, mem_chain_of_superOf? hc hstep, .refl⟩
        · exact .inl (hflat d _ _ hd hstep)
      · exact .inr (hfound.implements hstep)

end

/-- **Assignability** is being the same type, being used as the root, or, between types that are no arrays, being found.
It is reflexive, and it is transitive exactly if it follows all clauses from types that are no arrays to types that are
none, as it does where interfaces extend nothing but the root. -/
theorem assignability_preorder_iff (root : p.class? objectType = none) :
    (∀ s t, p.isAssignable s t = true ↔
      s = t ∨ t = objectType ∨ isArrayType s = false ∧ isArrayType t = false ∧ p.Found s t) ∧
    (∀ s, p.isAssignable s s = true) ∧
    ((∀ s t u, p.isAssignable s t = true → p.isAssignable t u = true → p.isAssignable s u = true) ↔
      ∀ s t, isArrayType s = false → isArrayType t = false → p.Ascends s t → p.isAssignable s t = true) ∧
    ((∀ c i t, p.Implements c i → p.superOf? i = some t → t = objectType) →
      ∀ s t, isArrayType s = false → isArrayType t = false → p.Ascends s t → p.isAssignable s t = true) := by
  refine ⟨fun s t => isAssignable_iff_found, p.isAssignable_self, ⟨fun htrans s t => assignable_of_ascends htrans,
    fun hall s t u => assignable_trans root hall⟩, fun hflat s t hs ht hst => ?_⟩
  rcases found_of_ascends root hflat hst with rfl | hfound
  · exact p.isAssignable_object s
  · exact isAssignable_iff_found.2 (.inr (.inr ⟨hs, ht, hfound⟩))

namespace Widened

/-- a class, the interface that it names, and what the interface extends -/
def source : String :=
  "class demo/J \x7b\n\x7d\nclass demo/I extends demo/J \x7b\n\x7d\nclass demo/C implements demo/I \x7b\n\x7d\n"

def program : Program where
  classes := [("demo/C", ⟨"demo/C", some objectType, ["demo/I"], [], []⟩),
    ("demo/I", ⟨"demo/I", some "demo/J", [], [], []⟩), ("demo/J", ⟨"demo/J", some objectType, [], [], []⟩)]

theorem ascends : program.Ascends "demo/C" "demo/J" := by
  have himplements : program.Implements "demo/C" "demo/I" := List.mem_singleton_self _
  exact .tail (.single (.inr himplements)) (.inl (by decide))

end Widened

/-- In this program assignability does not follow all clauses, so it is not transitive. -/
theorem assignability_preorder_iff_widened : Widened.program.class? objectType = none ∧
    Widened.program.isAssignable "demo/C" "demo/J" = false ∧
    ¬ ∀ s t u, Widened.program.isAssignable s t = true → Widened.program.isAssignable t u = true →
      Widened.program.isAssignable s u = true := by
  have hnot : Widened.program.isAssignable "demo/C" "demo/J" = false := by decide
  refine ⟨by decide, hnot, fun htrans => ?_⟩
  have hall := (assignability_preorder_iff (p := Widened.program) (by decide)).2.2.1.1 htrans
  exact nomatch hnot.symm.trans (hall "demo/C" "demo/J" (by decide) (by decide) Widened.ascends)

/-- the assembler accepts it -/
theorem not_transitive_widened : ∃ a, Assembly.assemble Widened.source = .ok a ∧
    a.program.class? objectType = none ∧ a.program.isAssignable "demo/C" "demo/I" = true ∧
    a.program.isAssignable "demo/I" "demo/J" = true ∧ a.program.isAssignable "demo/C" "demo/J" = false := by
  have hruns : (match Assembly.assemble Widened.source with
      | .error _ => false
      | .ok a => (a.program.class? objectType).isNone && a.program.isAssignable "demo/C" "demo/I" &&
        a.program.isAssignable "demo/I" "demo/J" && !a.program.isAssignable "demo/C" "demo/J") = true := by
    decide +kernel
  split at hruns
  · exact absurd hruns (by simp)
  · rename_i a ha
    simp only [Bool.and_eq_true, Bool.not_eq_true', Option.isNone_iff_eq_none] at hruns
    exact ⟨a, ha, hruns.1.1.1, hruns.1.1.2, hruns.1.2, hruns.2⟩

end Program
end Resumable
