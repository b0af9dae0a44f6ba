import Resumable.Coroutine.Basic

/-!
# Stored values

What is put into storage comes out of it in the opposite order, whatever the kinds of the values:
each kind has a stack of its own, so a list of values that was put in last is found on top of every
stack.

* `Storage.put`, `Storage.putAll` : values put into storage, the last one uppermost;
* `Storage.pop?_put` : the value put in last comes out first;
* `Storage.above_append`, `Storage.below_append` : a storage cut where another one was put on it;
* `Storage.stack_putAll` : the values of one kind.
-/

namespace Resumable
namespace Storage

/-- a value on the stack of its kind; an empty slot changes nothing -/
def put (s : Storage) (v : Value) : Storage := (s.push? v).getD s

/-- values on the stacks of their kinds, one after another -/
def putAll (s : Storage) (vs : List Value) : Storage := vs.foldl put s

section
variable {s t : Storage} {v : Value} {vs ws : List Value} {k : Kind}

theorem push?_eq_put (h : v.kind? = some k) : s.push? v = some (s.put v) := by
  cases v with
  | top => exact absurd h (by simp [Value.kind?])
  | _ => rfl

theorem put_ref (s : Storage) (r : Option Ref) : s.put (.ref r) = s.pushRef r := rfl

/-- the value put in last comes out first -/
theorem pop?_put (h : v.kind? = some k) : (s.put v).pop? k = some (v, s) := by
  cases v with
  | top => exact absurd h (by simp [Value.kind?])
  | int x => cases h; rfl
  | long x => cases h; rfl
  | float x => cases h; rfl
  | double x => cases h; rfl
  | ref r => cases h; rfl

theorem pop?_pushRef (s : Storage) (r : Option Ref) :
    (s.pushRef r).pop? .ref = some (.ref r, s) := rfl

theorem putAll_nil (s : Storage) : s.putAll [] = s := rfl

theorem putAll_cons (s : Storage) (v : Value) (vs : List Value) :
    s.putAll (v :: vs) = (s.put v).putAll vs := rfl

theorem putAll_append (s : Storage) (vs ws : List Value) :
    s.putAll (vs ++ ws) = (s.putAll vs).putAll ws := List.foldl_append

theorem putAll_concat (s : Storage) (vs : List Value) (v : Value) :
    s.putAll (vs ++ [v]) = (s.putAll vs).put v := putAll_append s vs [v]

/-! ## one storage on top of another -/

theorem empty_append (s : Storage) : empty.append s = s := rfl

theorem append_put (s t : Storage) (v : Value) : (s.put v).append t = (s.append t).put v := by
  cases v <;> rfl

theorem append_putAll (s t : Storage) (vs : List Value) :
    (s.putAll vs).append t = (s.append t).putAll vs := by
  induction vs generalizing s with
  | nil => rfl
  | cons v vs ih => rw [putAll_cons, putAll_cons, ih, append_put]

theorem putAll_eq_append (s : Storage) (vs : List Value) :
    s.putAll vs = (empty.putAll vs).append s := by
  rw [append_putAll, empty_append]

theorem aboveHeight_append {α : Type} (xs ys : List α) :
    aboveHeight ys.length (xs ++ ys) = xs := by
  rw [aboveHeight, List.length_append, Nat.add_sub_cancel, List.take_left]

theorem belowHeight_append {α : Type} (xs ys : List α) :
    belowHeight ys.length (xs ++ ys) = ys := by
  rw [belowHeight, List.length_append, Nat.add_sub_cancel, List.drop_left]

theorem above_append (s t : Storage) : (s.append t).above t.depths = s := by
  simp only [above, append, depths, aboveHeight_append]

theorem below_append (s t : Storage) : (s.append t).below t.depths = t := by
  simp only [below, append, depths, belowHeight_append]

/-- what was put on a storage is what lies above it -/
theorem above_putAll (s : Storage) (vs : List Value) :
    (s.putAll vs).above s.depths = empty.putAll vs := by
  rw [putAll_eq_append, above_append]

theorem below_putAll (s : Storage) (vs : List Value) : (s.putAll vs).below s.depths = s := by
  rw [putAll_eq_append, below_append]

/-! ## values of one kind -/

theorem stack_put (s : Storage) (v : Value) (k : Kind) :
    (s.put v).stack k = if v.kind? = some k then v :: s.stack k else s.stack k := by
  cases v <;> cases k <;> rfl

/-- the values of a kind lie on its stack, the last one uppermost -/
theorem stack_putAll (s : Storage) (vs : List Value) (k : Kind) :
    (s.putAll vs).stack k = (vs.filter fun v => v.kind? = some k).reverse ++ s.stack k := by
  induction vs generalizing s with
  | nil => rfl
  | cons v vs ih =>
    rw [putAll_cons, ih, stack_put]
    by_cases hv : v.kind? = some k
    · rw [if_pos hv, List.filter_cons_of_pos (by simpa using hv), List.reverse_cons,
        List.append_assoc]
      rfl
    · rw [if_neg hv, List.filter_cons_of_neg (by simpa using hv)]

end

end Storage
end Resumable
