import Resumable.Heap.Literal

/-!
# Heaps only grow

Nothing is ever removed from a heap.  What a reference names stays there and stays of its class, whatever
is put beside it and whatever is written into it.

* `Heap.Has`, `Heap.Grows` : what is there, and that it stays;
* `Heap.grows_alloc`, `Heap.grows_putField?`, `Heap.grows_putElem?` : new objects and writes;
* `Literal.grows_build` : values as they are written.
-/

namespace Resumable
namespace Heap

/-- a reference names something; coroutines are not on the heap -/
def Has (h : Heap) : Ref → Prop
  | .object a => a < h.objects.size
  | .coroutine _ => True

/-- what is there stays there and keeps its class -/
def Grows (h u : Heap) : Prop := ∀ r, h.Has r → u.Has r ∧ u.className r = h.className r

variable {h u v : Heap}

theorem Grows.refl (h : Heap) : h.Grows h := fun _ hr => ⟨hr, rfl⟩

theorem Grows.trans (h1 : h.Grows u) (h2 : u.Grows v) : h.Grows v := fun r hr =>
  ⟨(h2 r (h1 r hr).1).1, (h2 r (h1 r hr).1).2.trans (h1 r hr).2⟩

theorem grows_alloc (h : Heap) (o : Object) : h.Grows (h.alloc o).2 := by
  intro r hr
  cases r with
  | coroutine => exact ⟨trivial, rfl⟩
  | object a =>
    have hlt : a < h.objects.size := hr
    refine ⟨?_, ?_⟩
    · show a < (h.objects.push o).size
      rw [Array.size_push]
      omega
    · simp only [className, object?, alloc, Array.getElem?_push, if_neg (Nat.ne_of_lt hlt)]

/-- an object replaced by one of its class -/
theorem grows_put {a : Nat} {o o' : Object} (ho : h.object? a = some o)
    (hclass : o'.className = o.className) : h.Grows (h.put a o') := by
  intro r hr
  cases r with
  | coroutine => exact ⟨trivial, rfl⟩
  | object b =>
    refine ⟨?_, ?_⟩
    · show b < (h.objects.setIfInBounds a o').size
      rw [Array.size_setIfInBounds]
      exact hr
    · by_cases hb : b = a
      · subst hb
        have hlt : b < h.objects.size := hr
        have hput : (h.put b o').object? b = some o' := Array.getElem?_setIfInBounds_self_of_lt hlt
        simp only [className, hput, ho, Option.map_some, Option.getD_some, hclass]
      · have hput : (h.put a o').object? b = h.object? b :=
          Array.getElem?_setIfInBounds_ne (Ne.symm hb)
        simp only [className, hput]

theorem grows_make (h : Heap) (o : Object) : h.Grows (h.make o).2 := grows_alloc h o

theorem grows_makeThrowable (h : Heap) (type message : String) :
    h.Grows (h.makeThrowable type message).2 :=
  (grows_make h (.string message)).trans (grows_alloc _ _)

theorem grows_putField? {r : Ref} {name : String} {v : Value} (hu : h.putField? r name v = some u) :
    h.Grows u := by
  unfold putField? at hu
  split at hu
  · rename_i hget
    rw [← Option.some.inj hu]
    exact grows_put hget rfl
  · exact absurd hu (by simp)

theorem grows_putElem? {r : Ref} {i : Nat} {v : Value} (hu : h.putElem? r i v = some u) :
    h.Grows u := by
  unfold putElem? at hu
  split at hu
  · rename_i hget
    split at hu
    · rw [← Option.some.inj hu]
      exact grows_put hget rfl
    · exact absurd hu (by simp)
  · exact absurd hu (by simp)

/-- a change that may not be possible -/
theorem grows_getD (h : Heap) {change : Option Heap} (hchange : ∀ u, change = some u → h.Grows u) :
    h.Grows (change.getD h) := by
  cases change with
  | none => exact .refl h
  | some u => exact hchange u rfl

/-! ## new objects -/

/-- a new object is there, and is of its class -/
theorem has_alloc (h : Heap) (o : Object) : (h.alloc o).2.Has (.object (h.alloc o).1) ∧
    (h.alloc o).2.className (.object (h.alloc o).1) = o.className := by
  refine ⟨?_, ?_⟩
  · show h.objects.size < (h.objects.push o).size
    rw [Array.size_push]
    omega
  · simp only [className, object?_alloc, Option.map_some, Option.getD_some]

end Heap

namespace Literal

mutual

theorem grows_build {given : String → Option Value} {l : Literal} {h u : Heap} {v : Value}
    (hb : build given l h = .ok (v, u)) : h.Grows u := by
  cases l with
  | null | top | int | long | float | double =>
    simp only [build, Except.ok.injEq, Prod.mk.injEq] at hb
    rw [← hb.2]
    exact .refl h
  | string s =>
    simp only [build, Except.ok.injEq] at hb
    rw [show u = (h.makeString s).2 by rw [hb]]
    exact Heap.grows_make h _
  | «instance» t =>
    simp only [build, Except.ok.injEq] at hb
    rw [show u = (h.makeInstance t).2 by rw [hb]]
    exact Heap.grows_make h _
  | array elem ls =>
    rw [build] at hb
    split at hb
    · rename_i vs u' hall
      have hlast := Except.ok.inj hb
      rw [show u = (makeArrayOf elem vs u').2 by rw [hlast]]
      exact (grows_buildAll hall).trans (Heap.grows_make u' _)
    · exact absurd hb (by simp)
  | named n =>
    rw [build] at hb
    split at hb
    · rw [← (Prod.mk.inj (Except.ok.inj hb)).2]
      exact .refl h
    · exact absurd hb (by simp)

theorem grows_buildAll {given : String → Option Value} {ls : List Literal} {h u : Heap}
    {vs : List Value} (hb : buildAll given ls h = .ok (vs, u)) : h.Grows u := by
  cases ls with
  | nil =>
    rw [buildAll] at hb
    rw [← (Prod.mk.inj (Except.ok.inj hb)).2]
    exact .refl h
  | cons l ls =>
    rw [buildAll] at hb
    split at hb
    · exact absurd hb (by simp)
    · rename_i v u' hl
      split at hb
      · rename_i vs' u'' hls
        rw [← (Prod.mk.inj (Except.ok.inj hb)).2]
        exact (grows_build hl).trans (grows_buildAll hls)
      · exact absurd hb (by simp)

end

end Literal
end Resumable
