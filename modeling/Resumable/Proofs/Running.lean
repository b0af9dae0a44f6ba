import Resumable.Machine.Native

/-!
# The running coroutine

Injected code works on the innermost running coroutine and on no other one.  The coroutine is looked
up by its number and put back under the number it carries, so what happens to it is a function of the
coroutine alone as long as the two numbers are the same.

* `Engine.Runs` : the innermost running coroutine, by its number and by what is found there;
* `Engine.put_self`, `Engine.put_put` : putting it back;
* `Engine.onCurrent_eq` : an operation of the running coroutine;
* `Machine.put` : the machine with the running coroutine replaced.
-/

namespace Resumable
namespace Engine

variable {β κ α : Type}

/-- the innermost running coroutine, found under the number that it carries -/
structure Runs (e : Engine β κ) (c : Coroutine β κ) : Prop where
  current : e.currentId? = some c.id
  found : e.get? c.id = some c

section
variable {e : Engine β κ} {c d : Coroutine β κ}

/-- coroutines are numbered from one -/
theorem pos_of_get? {n : Nat} (h : e.get? n = some c) : 0 < n := by
  cases n with
  | zero => exact absurd h (by simp [get?])
  | succ n => omega

theorem get?_of_pos {n : Nat} (h : 0 < n) : e.get? n = e.coroutines[n - 1]? := by
  cases n with
  | zero => omega
  | succ n => rfl

theorem active_put (e : Engine β κ) (c : Coroutine β κ) : (e.put c).active = e.active := rfl

theorem get?_put_self (h : e.get? c.id = some d) : (e.put c).get? c.id = some c := by
  have hpos := pos_of_get? h
  rw [get?_of_pos hpos] at h ⊢
  have hlt : c.id - 1 < e.coroutines.size := (Array.getElem?_eq_some_iff.1 h).1
  show (e.coroutines.setIfInBounds (c.id - 1) c)[c.id - 1]? = some c
  rw [Array.getElem?_setIfInBounds_self_of_lt hlt]

theorem get?_put_of_ne {n : Nat} (hc : 0 < c.id) (h : n ≠ c.id) : (e.put c).get? n = e.get? n := by
  cases n with
  | zero => rfl
  | succ n =>
    show (e.coroutines.setIfInBounds (c.id - 1) c)[n]? = e.coroutines[n]?
    rw [Array.getElem?_setIfInBounds_ne (by omega)]

/-- only the last coroutine put under a number counts -/
theorem put_put (e : Engine β κ) (h : c.id = d.id) : (e.put c).put d = e.put d := by
  simp only [put, h]
  congr 1
  apply Array.ext_getElem?
  intro i
  simp only [Array.getElem?_setIfInBounds]
  split <;> simp

/-- putting back what was found changes nothing -/
theorem put_self (h : e.get? c.id = some c) : e.put c = e := by
  have hpos := pos_of_get? h
  rw [get?_of_pos hpos] at h
  have hlt : c.id - 1 < e.coroutines.size := (Array.getElem?_eq_some_iff.1 h).1
  obtain ⟨coroutines, active⟩ := e
  simp only [put]
  congr 1
  apply Array.ext_getElem?
  intro i
  by_cases hi : c.id - 1 = i
  · subst hi
    rw [Array.getElem?_setIfInBounds_self_of_lt hlt]
    exact h.symm
  · rw [Array.getElem?_setIfInBounds_ne hi]

end

/-- an operation does not change which coroutines run -/
theorem active_on (e : Engine β κ) (id : Nat) (op : Coroutine β κ → Coroutine.Outcome β κ α) :
    (e.on id op).2.active = e.active := by
  unfold on
  split <;> rfl

/-! ## the running coroutine -/

namespace Runs

variable {e : Engine β κ} {c d : Coroutine β κ}

theorem exists_eq (h : e.Runs c) : e.exists = true := by
  have hc := h.current
  cases ha : e.active with
  | nil => simp [currentId?, ha] at hc
  | cons n ns => simp [«exists», ha]

theorem current?_eq (h : e.Runs c) : e.current? = some c := by
  rw [current?, h.current]
  exact h.found

theorem isYielding_eq (h : e.Runs c) : e.isYielding = c.yielding := by
  rw [isYielding, h.current?_eq]
  rfl

/-- another state of the same coroutine runs once it is put there -/
theorem put (h : e.Runs c) (hd : d.id = c.id) : (e.put d).Runs d := by
  refine ⟨?_, ?_⟩
  · rw [hd]
    exact h.current
  · exact get?_put_self (d := c) (by rw [hd]; exact h.found)

theorem put_eq (h : e.Runs c) : e.put c = e := put_self h.found

/-- an operation of the running coroutine -/
theorem onCurrent_eq (h : e.Runs c) (op : Coroutine β κ → Coroutine.Outcome β κ α) :
    e.onCurrent op = ((op c).1, e.put (op c).2) := by
  simp only [onCurrent, h.current, on, h.found]

end Runs

/-- where nothing runs, nothing is being suspended -/
theorem isYielding_of_active_nil {e : Engine β κ} (h : e.active = []) : e.isYielding = false := by
  simp [isYielding, current?, currentId?, h]

theorem exists_of_active_nil {e : Engine β κ} (h : e.active = []) : e.exists = false := by
  simp [«exists», h]

end Engine

namespace Machine

/-- the machine with a coroutine put in the place of its number -/
def put (m : Machine) (c : Coroutine Call Call) : Machine := { m with engine := m.engine.put c }

theorem put_put (m : Machine) {c d : Coroutine Call Call} (h : c.id = d.id) :
    (m.put c).put d = m.put d := by
  simp only [put, Engine.put_put _ h]

theorem put_self {m : Machine} {c : Coroutine Call Call} (h : m.engine.Runs c) : m.put c = m := by
  simp only [put, h.put_eq]

end Machine
end Resumable
