import Resumable.Decimal.Layout
import Resumable.Json.Decode
import Resumable.Toml.Reader

/-!
# Values of settings

Settings come from several places, so their values are loose: a truth value may be written as a
word or a number, and a text as anything that is not a list or a table.

* `Setting.ofToml`, `Setting.ofJson?` : settings as a file holds them;
* `Setting.text?`, `Setting.bool?`, `Setting.texts?`, `Setting.fields?` : what is read of them.
-/

namespace Resumable

/-- a value of a setting -/
inductive Setting where
  | null
  | bool (b : Bool)
  | int (n : Int)
  | float (x : Float)
  | text (s : String)
  | list (elems : List Setting)
  | table (entries : List (String × Setting))

namespace Setting

/-! ## entries -/

/-- an entry put among others, in the place of one of its name -/
def insert (es : List (String × Setting)) (name : String) (v : Setting) :
    List (String × Setting) :=
  if (es.lookup name).isSome then es.map fun e => if e.1 == name then (name, v) else e
  else es ++ [(name, v)]

/-- the table of some entries; of one name the last counts -/
def tableOf (es : List (String × Setting)) : Setting :=
  .table (es.foldl (fun es e => insert es e.1 e.2) [])

theorem insert_nil (name : String) (v : Setting) : insert [] name v = [(name, v)] := rfl
theorem tableOf_nil : tableOf [] = .table [] := rfl

/-! ## files -/

mutual

/-- A value in TOML.  Dates and times are texts. -/
def ofToml : Toml → Setting
  | .str s => .text s
  | .int n => .int n
  | .float x => .float x
  | .bool b => .bool b
  | .time t => .text t
  | .arr xs => .list (listOfToml xs)
  | .table _ es => .table (tableOfToml es)
  | .tables ts => .list (listOfToml ts).reverse

def listOfToml : List Toml → List Setting
  | [] => []
  | x :: xs => ofToml x :: listOfToml xs

def tableOfToml : List (String × Toml) → List (String × Setting)
  | [] => []
  | (k, v) :: es => (k, ofToml v) :: tableOfToml es

end

/-- A number in JSON: an integer of 64 bits with its sign, or else a double. -/
def ofNumber? (t : String) : Option Setting :=
  match Json.int? (-9223372036854775808) 9223372036854775807 (.num t) with
  | some n => some (.int n)
  | none => (Json.Number.double? t).map .float

mutual

/-- a value in JSON, whose numbers must not be too large -/
def ofJson? : Json → Option Setting
  | .null => some .null
  | .bool b => some (.bool b)
  | .num t => ofNumber? t
  | .str s => some (.text s)
  | .arr xs => (listOfJson? xs).map .list
  | .obj ms => (tableOfJson? ms).map tableOf
  | .skipped => none

def listOfJson? : List Json → Option (List Setting)
  | [] => some []
  | x :: xs => do some ((← ofJson? x) :: (← listOfJson? xs))

def tableOfJson? : List (String × Json) → Option (List (String × Setting))
  | [] => some []
  | (k, v) :: ms => do some ((k, ← ofJson? v) :: (← tableOfJson? ms))

end

/-! ## readings -/

def text? : Setting → Option String
  | .text s => some s
  | .bool b => some (if b then "true" else "false")
  | .int n => some (toString n)
  | .float x => some (Decimal.plainDouble x)
  | .null | .list _ | .table _ => none

def bool? : Setting → Option Bool
  | .bool b => some b
  | .int n => some (n != 0)
  | .float x => some (x != 0)
  | .text s =>
    let word := s.toLower
    if ["1", "true", "on", "yes"].contains word then some true
    else if ["0", "false", "off", "no"].contains word then some false
    else none
  | .null | .list _ | .table _ => none

/-- a list of texts, which a single value is not -/
def texts? : Setting → Option (List String)
  | .list xs => xs.mapM text?
  | _ => none

/-- the fields of a record: the entries of a table by their names, or the elements of a list -/
def fields? (names : List String) : Setting → Option (List (Option Setting))
  | .table es => some (names.map fun n => es.lookup n)
  | .list xs => some ((List.range names.length).map fun i => xs[i]?)
  | _ => none

end Setting

end Resumable
