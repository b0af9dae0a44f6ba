import Resumable.Descriptor

/-!
# Values

What a local slot or an entry of an operand stack holds while a program runs.  References are names:
an object is named by its address in the heap, a coroutine by its number, so two references are the
same exactly when they are equal.

* `Value.kind?`, `Value.width` : the kind of a value and the slots it takes;
* `Value.zero`, `Value.default` : what a field or an element holds before anything is written to it.
-/

namespace Resumable

/-- a reference that is not null -/
inductive Ref where
  | object (address : Nat)
  | coroutine (id : Nat)
deriving DecidableEq, Repr, Inhabited

/-- A value.  Values are compared as programs compare them: no number differs from itself, and the
two zeros of a floating kind are equal. -/
inductive Value where
  /-- no value, or the second half of a wide local -/
  | top
  | int (v : Int32)
  | long (v : Int64)
  | float (v : Float32)
  | double (v : Float)
  /-- a reference, or null -/
  | ref (r : Option Ref)
deriving BEq, Repr, Inhabited

namespace Value

def null : Value := .ref none

def object (address : Nat) : Value := .ref (some (.object address))

def coroutine (id : Nat) : Value := .ref (some (.coroutine id))

/-- the integer that stands for a truth value -/
def ofBool (b : Bool) : Value := .int (if b then 1 else 0)

def kind? : Value → Option Kind
  | .top => none
  | .int _ => some .int
  | .long _ => some .long
  | .float _ => some .float
  | .double _ => some .double
  | .ref _ => some .ref

/-- slots of the value; an empty slot is one -/
def width (v : Value) : Nat := (v.kind?.map Kind.width).getD 1

def zero : Kind → Value
  | .int => .int 0
  | .long => .long 0
  | .float => .float 0.0
  | .double => .double 0.0
  | .ref => .null

/-- the value of a field or an element that was never written; an unreadable descriptor means a
reference -/
def default (desc : String) : Value :=
  match FieldType.parse? desc with
  | some t => zero t.kind
  | none => .null

theorem kind?_zero (k : Kind) : (zero k).kind? = some k := by cases k <;> rfl

theorem width_eq_of_kind? {v : Value} {k : Kind} (h : v.kind? = some k) : v.width = k.width := by
  simp [width, h]

theorem width_pos (v : Value) : 0 < v.width := by
  cases v <;> simp [width, kind?, Kind.width]

end Value

end Resumable
