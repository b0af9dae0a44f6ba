/-!
# TOML documents

A document is a tree of tables.  A table remembers how it came to be, because that decides what may
still be added to it: a table is defined once, dotted keys extend only what dotted keys or headers
on their way made, and a table in braces is complete.

* `Toml.insert?` : a key with its value, put into a table;
* `Toml.openTable?`, `Toml.openElement?` : a header of a table, and of one more table in a list.
-/

namespace Resumable

/-- how a table came to be -/
inductive TableOrigin where
  /-- written in braces -/
  | inline
  /-- named by a header, or the document itself -/
  | header
  /-- on the way to the table of a header -/
  | implied
  /-- on the way of a dotted key -/
  | dotted
deriving DecidableEq, Repr

/-- a TOML value -/
inductive Toml where
  | str (s : String)
  | int (n : Int)
  | float (x : Float)
  | bool (b : Bool)
  /-- a date, a time or both, by its text -/
  | time (text : String)
  | arr (elems : List Toml)
  | table (origin : TableOrigin) (entries : List (String × Toml))
  /-- the tables of repeated headers, the latest first -/
  | tables (elems : List Toml)

namespace Toml

/-- entries in the order in which their keys came up -/
abbrev Entries := List (String × Toml)

/-- the value of a key that is there changed -/
def Entries.put (es : Entries) (key : String) (v : Toml) : Entries :=
  es.map fun e => if e.1 == key then (key, v) else e

/-- the origin of a table that is made on the way to another one -/
def stepOrigin (isDotted : Bool) : TableOrigin := if isDotted then .dotted else .implied

/-- The way into a table is barred: always into one in braces, and for a dotted key into one that a
header defined. -/
def isBarred (isDotted : Bool) : TableOrigin → Bool
  | .inline => true
  | .header => isDotted
  | .implied | .dotted => false

/-- The table at the end of a path changed.  Tables on the way are made where they are missing, and
a list of tables is entered at its latest one. -/
def update? (isDotted : Bool) (change : TableOrigin → Entries → Option Entries) :
    List String → TableOrigin → Entries → Option Entries
  | [], origin, es => change origin es
  | k :: ks, _, es =>
    match es.lookup k with
    | none =>
      let origin := stepOrigin isDotted
      (update? isDotted change ks origin []).map fun sub => es ++ [(k, .table origin sub)]
    | some (.table origin sub) =>
      if isBarred isDotted origin then none
      else (update? isDotted change ks origin sub).map fun sub => es.put k (.table origin sub)
    | some (.tables (.table origin sub :: older)) =>
      (update? isDotted change ks origin sub).map fun sub =>
        es.put k (.tables (.table origin sub :: older))
    | some _ => none

/-- the last of some keys, and those before it -/
def splitLast? (path : List String) : Option (List String × String) :=
  path.getLast?.map fun k => (path.dropLast, k)

/-- A key with its value, put into a table.  A dotted key must end in a table that dotted keys made,
a plain one in a table that they did not, and a key stands once. -/
def insert? (path : List String) (v : Toml) (origin : TableOrigin) (es : Entries) :
    Option Entries := do
  let (steps, key) ← splitLast? path
  update? true (fun o es =>
    if (o == .dotted) == steps.isEmpty then none
    else if (es.lookup key).isSome then none
    else some (es ++ [(key, v)])) steps origin es

/-- the header of a table, which may have been passed by but not defined -/
def openTable? (path : List String) (es : Entries) : Option Entries := do
  let (steps, key) ← splitLast? path
  update? false (fun _ es =>
    match es.lookup key with
    | none => some (es ++ [(key, .table .header [])])
    | some (.table .implied sub) => some (es.put key (.table .header sub))
    | some _ => none) steps .header es

/-- the header of one more table in a list of tables -/
def openElement? (path : List String) (es : Entries) : Option Entries := do
  let (steps, key) ← splitLast? path
  update? false (fun _ es =>
    match es.lookup key with
    | none => some (es ++ [(key, .tables [.table .header []])])
    | some (.tables ts) => some (es.put key (.tables (.table .header [] :: ts)))
    | some _ => none) steps .header es

end Toml

end Resumable
