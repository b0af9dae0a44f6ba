/-!
# JSON documents

A document is a tree.  A number keeps the text it is written with, so that nothing is rounded
before its reader says what it is for, and an object keeps its members in the order of the text.  A
value that is well formed but cannot be held, such as a string with half a character, is skipped.
-/

namespace Resumable

/-- a JSON document -/
inductive Json where
  | null
  | bool (b : Bool)
  /-- a number by its text -/
  | num (text : String)
  | str (s : String)
  | arr (elems : List Json)
  | obj (members : List (String × Json))
  /-- a value that cannot be held -/
  | skipped
deriving Inhabited

namespace Json

/-- the number of an integer -/
def ofInt (n : Int) : Json := .num (toString n)

/-- the number of a natural number -/
def ofNat (n : Nat) : Json := .num (toString n)

/-- an array of texts -/
def strings (xs : List String) : Json := .arr (xs.map .str)

/-- the text, or null -/
def ofString? : Option String → Json
  | some s => .str s
  | none => .null

/-- the value of the last member with the key -/
def get? (j : Json) (key : String) : Option Json :=
  match j with
  | .obj ms => ms.foldl (fun found m => if m.1 == key then some m.2 else found) none
  | _ => none

/-- the member, or null where there is none -/
def get (j : Json) (key : String) : Json := (j.get? key).getD .null

/-- the elements of an array -/
def elems : Json → List Json
  | .arr xs => xs
  | _ => []

/-- the members of an object -/
def members : Json → List (String × Json)
  | .obj ms => ms
  | _ => []

def str? : Json → Option String
  | .str s => some s
  | _ => none

def bool? : Json → Option Bool
  | .bool b => some b
  | _ => none

def isNull : Json → Bool
  | .null => true
  | _ => false

end Json

end Resumable
