import Resumable.Decimal.Layout
import Resumable.Json.Reader
import Resumable.Model.Code
import Resumable.RestorePoint
import Resumable.Toml.Reader

/-!
# Tables of restore points as JSON and as TOML

Empty descriptors and owners, patterns that are patchable and absent entries are left out.  A table
in TOML has the same members.

* `RestoreTable.toJson`, `RestoreTable.ofJson?` : the stored form of a table and back;
* `RestoreTable.parse?` : the table of a text in either format.
-/

namespace Resumable

open Json

/-! ## writing -/

/-- a text that is left out when it is empty -/
def textIf (key value : String) : List (String × Json) :=
  memberIf key (if value.isEmpty then none else some (.str value))

def RestorePoint.toJson (r : RestorePoint) : Json :=
  .obj ([("name", .str r.name)] ++ textIf "desc" r.desc ++ textIf "owner" r.owner ++
    memberIf "patchable" (if r.patchable then none else some (.bool false)))

def Declaration.toJson (d : Declaration) : Json :=
  .obj ([("owner", .str d.owner), ("name", .str d.name)] ++ textIf "desc" d.desc ++
    memberIf "entry" (d.entry.map .bool) ++
    [("restore_points", .arr (d.restorePoints.map RestorePoint.toJson))])

def RestoreTable.toJson (t : RestoreTable) : Json :=
  .obj (memberIf "entry_names" (t.entryNames.map .strings) ++
    [("methods", .arr (t.declarations.map Declaration.toJson))])

/-! ## reading -/

def RestorePoint.ofRecord? (record : ReadRecord) (j : Json) : Option RestorePoint :=
  match record ["name", "desc", "owner", "patchable"] j with
  | some [name, desc, owner, patchable] => do
    some ⟨← required? str? name, ← defaulted? "" str? desc, ← defaulted? "" str? owner,
      ← defaulted? true bool? patchable⟩
  | _ => none

def Declaration.ofRecord? (record : ReadRecord) (j : Json) : Option Declaration :=
  match record ["owner", "name", "desc", "entry", "restore_points"] j with
  | some [owner, name, desc, entry, points] => do
    some ⟨← required? str? owner, ← required? str? name, ← defaulted? "" str? desc,
      ← optional? bool? entry, ← defaulted? [] (list? (RestorePoint.ofRecord? record)) points⟩
  | _ => none

def RestoreTable.ofRecord? (record : ReadRecord) (j : Json) : Option RestoreTable :=
  match record ["entry_names", "methods"] j with
  | some [names, methods] => do
    some ⟨← optional? (list? str?) names,
      ← defaulted? [] (list? (Declaration.ofRecord? record)) methods⟩
  | _ => none

def RestorePoint.ofJson? (j : Json) : Option RestorePoint := RestorePoint.ofRecord? record? j

def RestoreTable.ofJson? (j : Json) : Option RestoreTable := RestoreTable.ofRecord? record? j

/-! ## TOML -/

mutual

/-- A value of TOML as JSON.  A date or a time is no string, so it becomes an object of its own. -/
def Toml.toJson : Toml → Json
  | .str s => .str s
  | .int n => .ofInt n
  | .float x => .num (Decimal.printDouble x)
  | .bool b => .bool b
  | .time t => .obj [("time", .str t)]
  | .arr xs => .arr (listToJson xs)
  | .table _ es => .obj (entriesToJson es)
  | .tables ts => .arr (listToJson ts).reverse

def Toml.listToJson : List Toml → List Json
  | [] => []
  | x :: xs => toJson x :: listToJson xs

def Toml.entriesToJson : List (String × Toml) → List (String × Json)
  | [] => []
  | (k, v) :: es => (k, toJson v) :: entriesToJson es

end

/-! ## texts -/

/-- a format of tables -/
inductive TableFormat where
  | json
  | toml
deriving DecidableEq, Repr

def TableFormat.name : TableFormat → String
  | .json => "JSON"
  | .toml => "TOML"

/-- what is said of a text that holds no table -/
def TableFormat.invalidMessage (f : TableFormat) : String :=
  "invalid restore point table (" ++ f.name ++ ")"

/-- the table of a text -/
def RestoreTable.parse? (f : TableFormat) (text : String) : Option RestoreTable :=
  match f with
  | .json => (Json.read? text).bind (ofRecord? record?)
  | .toml => (Toml.parse? text).bind fun es => ofRecord? looseRecord? (.obj (Toml.entriesToJson es))

end Resumable
