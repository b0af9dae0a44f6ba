import Resumable.Json.Held
import Resumable.Decimal.Reading

/-!
# Reading values out of JSON

Decoders give a value or nothing.  A record is an object, whose unknown members are ignored and
whose known ones stand at most once, or an array of its fields in order, which may end early.  A
field is required, or has a value where it is missing, or is optional, where null counts as missing.

* `Json.record?`, `Json.looseRecord?` : the fields of a record;
* `required?`, `defaulted?`, `optional?` : the three sorts of fields.
-/

namespace Resumable.Json

/-! ## numbers -/

/-- a number written without point and exponent; minus zero is no integer -/
def int? (lo hi : Int) : Json → Option Int
  | .num t => if t == "-0" then none else Decimal.readInt? lo hi t
  | _ => none

def uint16? (j : Json) : Option UInt16 := (j.int? 0 65535).map fun n => UInt16.ofNat n.toNat
def uint32? (j : Json) : Option UInt32 := (j.int? 0 4294967295).map fun n => UInt32.ofNat n.toNat
def int32? (j : Json) : Option Int32 := (j.int? (-2147483648) 2147483647).map Int32.ofInt

def int64? (j : Json) : Option Int64 :=
  (j.int? (-9223372036854775808) 9223372036854775807).map Int64.ofInt

/-- a number as a double, for which it must not be too large -/
def double? : Json → Option Float
  | .num t => Number.double? t
  | _ => none

/-- the text is an integer of 64 bits, with or without a sign -/
def isWord (text : String) : Bool :=
  (Decimal.readInt? (-9223372036854775808) 18446744073709551615 text).isSome

/-- a number as a single: an integer of 64 bits is rounded once, any other number from its double -/
def single? : Json → Option Float32
  | .num t =>
    if isWord t then Decimal.readSingle? t else (double? (.num t)).map Decimal.singleOfDouble
  | _ => none

/-! ## containers -/

/-- all elements of an array -/
def list? {α : Type} (elem : Json → Option α) : Json → Option (List α)
  | .arr xs => xs.mapM elem
  | _ => none

/-- exactly two elements -/
def pair? {α β : Type} (a : Json → Option α) (b : Json → Option β) : Json → Option (α × β)
  | .arr [x, y] => do some (← a x, ← b y)
  | _ => none

/-- null, or a value -/
def nullable? {α : Type} (value : Json → Option α) : Json → Option (Option α)
  | .null => some none
  | j => (value j).map some

/-! ## records -/

/-- the member of a name, if it stands at most once -/
def field? (ms : List (String × Json)) (name : String) : Option (Option Json) :=
  match ms.filter fun m => m.1 == name with
  | [] => some none
  | [m] => some (some m.2)
  | _ => none

/-- how the fields of a record are found by their names -/
abbrev ReadRecord := List String → Json → Option (List (Option Json))

/-- the fields of a record in the order of their names -/
def record? (names : List String) : Json → Option (List (Option Json))
  | .obj ms => names.mapM (field? ms)
  | .arr xs =>
    if xs.length ≤ names.length then
      some (xs.map some ++ List.replicate (names.length - xs.length) none)
    else none
  | _ => none

/-- the fields of a record, where what follows the last one in an array is ignored -/
def looseRecord? (names : List String) : Json → Option (List (Option Json))
  | .arr xs => record? names (.arr (xs.take names.length))
  | j => record? names j

/-- the value of a field that must be there -/
def required? {α : Type} (value : Json → Option α) : Option Json → Option α
  | some j => value j
  | none => none

/-- the value of a field that may be missing -/
def defaulted? {α : Type} (default : α) (value : Json → Option α) : Option Json → Option α
  | some j => value j
  | none => some default

/-- the value of a field that may be missing or null -/
def optional? {α : Type} (value : Json → Option α) : Option Json → Option (Option α)
  | some j => nullable? value j
  | none => some none

/-- A constant is its name, or an object with this name as its only key, and null.  For one among
values that were held back, the object may hold an empty one instead of null. -/
def constant? {α : Type} (held : Bool) (ofName? : String → Option α) : Json → Option α
  | .str s => ofName? s
  | .obj [(s, .null)] => ofName? s
  | .obj [(s, .obj [])] => if held then ofName? s else none
  | _ => none

end Resumable.Json
