import Resumable.EnvFile
import Resumable.Settings.Value

/-!
# Layers of settings

Settings are gathered by putting one layer over another.  A table is put over a table entry by
entry, anything else replaces what was there, and names are in small letters.

* `SettingPath.parse?` : names between dots, with numbers in brackets for places in lists;
* `Setting.put` : a value put at a path;
* `Setting.putLayer` : the entries of a layer put one after another;
* `environmentLayer` : the layer that an environment is.
-/

namespace Resumable

/-! ## paths -/

/-- a step to a value -/
inductive SettingStep where
  | name (n : String)
  /-- a place in a list; negative ones count from its end -/
  | place (i : Int)
deriving DecidableEq, Repr

namespace SettingPath

def isNameChar (c : Char) : Bool := c.isAlphanum || c == '_' || c == '-' || c == ' '

def isBlank (c : Char) : Bool := c == ' ' || c == '\t'

/-- an integer of 64 bits, with at most a minus before it -/
def number? (cs : List Char) : Option Int :=
  if cs.head? = some '+' then none
  else (Decimal.readInt64? (String.ofList cs)).map Int64.toInt

/-- the place that a bracket opens, and the rest after the one that closes it -/
def place? (cs : List Char) : Option (Int × List Char) := do
  let cs := cs.dropWhile isBlank
  let isPart (c : Char) : Bool := c == '-' || Decimal.isDigit c
  let i ← number? (cs.takeWhile isPart)
  match (cs.dropWhile isPart).dropWhile isBlank with
  | ']' :: r => some (i, r)
  | _ => none

/-- the rest of a path after its first name; `fuel` bounds its steps -/
def stepsFrom? : Nat → List Char → Option (List SettingStep)
  | _, [] => some []
  | 0, _ => none
  | fuel + 1, '.' :: r =>
    let name := r.takeWhile isNameChar
    if name.isEmpty then none
    else (stepsFrom? fuel (r.dropWhile isNameChar)).map (.name (String.ofList name) :: ·)
  | fuel + 1, '[' :: r =>
    match place? r with
    | some (i, r) => (stepsFrom? fuel r).map (.place i :: ·)
    | none => none
  | _, _ => none

/-- the steps that a key stands for -/
def parse? (key : String) : Option (List SettingStep) :=
  stepsFrom? (key.length + 1) ('.' :: key.toList)

/-- the steps of a key; one that is no path is a name -/
def ofKey (key : String) : List SettingStep := (parse? key).getD [.name key]

end SettingPath

/-! ## putting values -/

namespace Setting

/-- a table without entries -/
def empty : Setting := .table []

/-- the entries of a table; another value has none -/
def entries : Setting → List (String × Setting)
  | .table es => es
  | _ => []

/-- the elements of a list; another value has none -/
def elems : Setting → List Setting
  | .list xs => xs
  | _ => []

/-- the value of a name in a table -/
def get? (s : Setting) (name : String) : Option Setting := s.entries.lookup name

/-- a name of a table set; what is no table becomes one -/
def set (s : Setting) (name : String) (v : Setting) : Setting := .table (insert s.entries name v)

/-- the place of a list from its start; one before it is negative -/
def index (s : Setting) (i : Int) : Int := if i < 0 then i + s.elems.length else i

/-- the value at a place of a list -/
def elem? (s : Setting) (i : Int) : Option Setting :=
  if s.index i < 0 then none else s.elems[(s.index i).toNat]?

/-- A place of a list set.  What is no list becomes one, and a list grows at either end to the
length that the place needs. -/
def setPlace (s : Setting) (i : Int) (v : Setting) : Setting :=
  let nulls (n : Nat) : List Setting := List.replicate n .null
  let n := (s.index i).toNat
  if s.index i < 0 then .list (v :: nulls (-s.index i - 1).toNat ++ s.elems)
  else .list ((s.elems ++ nulls (n + 1 - s.elems.length)).set n v)

mutual

/-- A value put over another one: a table entry by entry, anything else in its place. -/
def overlay (old : Setting) : Setting → Setting
  | .table es => overlayEntries old es
  | v => v

/-- entries put over a value, which becomes a table where there are any -/
def overlayEntries (old : Setting) : List (String × Setting) → Setting
  | [] => old
  | (k, v) :: es =>
    let name := k.toLower
    overlayEntries (old.set name (overlay ((old.get? name).getD empty) v)) es

end

/-- a value put at the end of some steps -/
def put (s : Setting) (v : Setting) : List SettingStep → Setting
  | [] => overlay s v
  | .name n :: steps =>
    let name := n.toLower
    s.set name (put ((s.get? name).getD empty) v steps)
  | [.place i] => s.setPlace i v
  | .place i :: steps => s.setPlace i (put ((s.elem? i).getD empty) v steps)

/-- the entries of a layer, whose keys are paths, put one after another -/
def putLayer (s : Setting) (layer : List (String × Setting)) : Setting :=
  layer.foldl (fun s e => s.put e.2 (SettingPath.ofKey e.1)) s

end Setting

/-! ## environments -/

/-- what names of settings begin with in an environment; two underscores stand for a dot there -/
def environmentMark : String := "corofy__"

/-- settings that are lists, whose elements a comma separates -/
def listKeys : List String := ["instrument.entry_names", "instrument.spec_files"]

/-- A value in an environment: a truth value, a number, or a text, which may be that of a list. -/
def environmentValue (key value : String) : Setting :=
  let word := value.toLower
  if word = "true" then .bool true
  else if word = "false" then .bool false
  else
    match Decimal.readInt64? value, Decimal.readDouble? value with
    | some n, _ => .int n.toInt
    | none, some x => .float x
    | none, none =>
      if listKeys.contains key then .list ((value.splitOn ",").map .text) else .text value

/-- the settings that an environment holds -/
def environmentLayer (env : Environment) : List (String × Setting) :=
  env.filterMap fun e =>
    let name := e.1.toLower
    if name.startsWith environmentMark then
      let key := ".".intercalate
        ((String.ofList (name.toList.drop environmentMark.length)).splitOn "__")
      some (key, environmentValue key e.2)
    else none

end Resumable
