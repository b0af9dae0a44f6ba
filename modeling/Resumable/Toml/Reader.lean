import Resumable.Toml.Quotation
import Resumable.Toml.Scalar

/-!
# Reading TOML

A text is read into statements first: entries and headers.  The document is what they build, one
after another, each entry under the header before it.  Arrays and tables in braces nest at most 79
deep, and a dotted key has at most 79 parts.

* `Toml.statements?` : the statements of a text;
* `Toml.parse?` : the entries of the document of a text.
-/

namespace Resumable.Toml

/-! ## blanks and comments -/

def skipBlanks (cs : List Char) : List Char := cs.dropWhile isBlank

/-- Blanks, line breaks and comments skipped.  Inside of a comment, `comment` holds; it must end in
a line break. -/
def skipGap? : Bool → List Char → Option (List Char)
  | false, [] => some []
  | true, [] => none
  | _, '\n' :: r => skipGap? false r
  | _, '\x0d' :: '\n' :: r => skipGap? false r
  | comment, c :: r =>
    if comment then (if isPlain c then skipGap? true r else none)
    else if isBlank c then skipGap? false r
    else if c = '#' then skipGap? true r
    else some (c :: r)

/-- the rest after the end of a line, which the end of the text also is -/
def endOfLine? : List Char → Option (List Char)
  | [] => some []
  | '\n' :: r => some r
  | '\x0d' :: '\n' :: r => some r
  | _ => none

/-- what may stand behind a statement on its line, skipped with the line's end -/
def skipLine? (cs : List Char) : Option (List Char) :=
  match skipBlanks cs with
  | '#' :: r => endOfLine? (r.dropWhile isPlain)
  | r => endOfLine? r

/-! ## keys -/

def isBare (c : Char) : Bool :=
  ('a' ≤ c && c ≤ 'z') || ('A' ≤ c && c ≤ 'Z') || Decimal.isDigit c || c == '-' || c == '_'

/-- a part of a key: bare, or in quotes or apostrophes -/
def keyPart? (cs : List Char) : Option (String × List Char) :=
  match cs with
  | '"' :: r => line? '"' r
  | '\'' :: r => line? '\'' r
  | cs =>
    let part := cs.takeWhile isBare
    if part.isEmpty then none else some (String.ofList part, cs.dropWhile isBare)

/-- a key of at most `limit` parts between dots, with the blanks around them -/
def key? : Nat → List Char → Option (List String × List Char)
  | 0, _ => none
  | limit + 1, cs => do
    let (part, r) ← keyPart? (skipBlanks cs)
    match skipBlanks r with
    | '.' :: r => (key? limit r).map fun p => (part :: p.1, p.2)
    | r => some ([part], r)

/-- parts that a key may have -/
def maxParts : Nat := 79

/-! ## values -/

/-- what reads a value at the head of a text -/
abbrev ReadValue := List Char → Option (Toml × List Char)

/-- the elements of an array after its bracket, with at most `fuel` of them -/
def elems? (value : ReadValue) : Nat → List Char → Option (List Toml × List Char)
  | 0, _ => none
  | fuel + 1, cs => do
    match ← skipGap? false cs with
    | ']' :: r => some ([], r)
    | cs =>
      let (v, r) ← value cs
      match ← skipGap? false r with
      | ',' :: r => (elems? value fuel r).map fun p => (v :: p.1, p.2)
      | ']' :: r => some ([v], r)
      | _ => none

/-- a key, the sign of equality and a value -/
def pair? (value : ReadValue) (cs : List Char) : Option ((List String × Toml) × List Char) := do
  let (key, r) ← key? maxParts cs
  match r with
  | '=' :: r =>
    let (v, r) ← value (skipBlanks r)
    some ((key, v), r)
  | _ => none

/-- the entries of a table in braces that is not empty, with at most `fuel` of them -/
def members? (value : ReadValue) : Nat → List Char →
    Option (List (List String × Toml) × List Char)
  | 0, _ => none
  | fuel + 1, cs => do
    let (e, r) ← pair? value cs
    match skipBlanks r with
    | ',' :: r => (members? value fuel r).map fun p => (e :: p.1, p.2)
    | '\x7d' :: r => some ([e], r)
    | _ => none

/-- a table in braces from its entries -/
def inline? (es : List (List String × Toml)) : Option Toml :=
  (es.foldlM (fun sub e => insert? e.1 e.2 .inline sub) []).map (.table .inline)

def isWordChar (c : Char) : Bool :=
  ('a' ≤ c && c ≤ 'z') || ('A' ≤ c && c ≤ 'Z') || Decimal.isDigit c ||
    c == '_' || c == '+' || c == '-' || c == '.' || c == ':'

/-- The word at the head of a text, and the rest.  A blank may stand between a date and a time. -/
def splitWord (cs : List Char) : List Char × List Char :=
  let word := cs.takeWhile isWordChar
  match Time.date? word, cs.dropWhile isWordChar with
  | some (_, []), ' ' :: c :: r =>
    if Decimal.isDigit c then
      (word ++ ' ' :: (c :: r).takeWhile isWordChar, (c :: r).dropWhile isWordChar)
    else (word, ' ' :: c :: r)
  | _, r => (word, r)

/-- a value with fewer than `depth` brackets and braces open at once -/
def value? : Nat → ReadValue
  | 0, _ => none
  | depth + 1, cs =>
    match cs with
    | '"' :: r => (quotation? '"' r).map fun p => (.str p.1, p.2)
    | '\'' :: r => (quotation? '\'' r).map fun p => (.str p.1, p.2)
    | '[' :: r =>
      if depth = 0 then none
      else (elems? (value? depth) (r.length + 1) r).map fun p => (.arr p.1, p.2)
    | '\x7b' :: r =>
      if depth = 0 then none
      else
        match skipBlanks r with
        | '\x7d' :: r => some (.table .inline [], r)
        | r => do
          let (es, r) ← members? (value? depth) (r.length + 1) r
          some (← inline? es, r)
    | cs =>
      let (word, r) := splitWord cs
      (word? word).map fun v => (v, r)

/-- bound of the depth of brackets and braces -/
def maxDepth : Nat := 80

/-! ## statements -/

inductive Statement where
  /-- a value under a key -/
  | entry (key : List String) (v : Toml)
  /-- what follows belongs to a table -/
  | table (path : List String)
  /-- what follows belongs to one more table of a list -/
  | element (path : List String)

/-- the statement at the head of a text, up to the end of its line -/
def statement? (cs : List Char) : Option (Statement × List Char) :=
  match cs with
  | '[' :: '[' :: r => do
    match ← key? maxParts r with
    | (path, ']' :: ']' :: r) => some (.element path, ← skipLine? r)
    | _ => none
  | '[' :: r => do
    match ← key? maxParts r with
    | (path, ']' :: r) => some (.table path, ← skipLine? r)
    | _ => none
  | cs => do
    let (e, r) ← pair? (value? maxDepth) cs
    some (.entry e.1 e.2, ← skipLine? r)

/-- the statements of a text of at most `fuel` lines -/
def statementsFrom? : Nat → List Char → Option (List Statement)
  | 0, _ => none
  | fuel + 1, cs =>
    match skipBlanks cs with
    | [] => some []
    | c :: r =>
      if c = '#' ∨ c = '\n' ∨ c = '\x0d' then (skipLine? (c :: r)).bind (statementsFrom? fuel)
      else do
        let (s, r) ← statement? (c :: r)
        (statementsFrom? fuel r).map (s :: ·)

/-- the statements of a text, which a byte order mark may precede -/
def statements? (s : String) : Option (List Statement) :=
  let cs := match s.toList with
    | '\uFEFF' :: r => r
    | r => r
  statementsFrom? (cs.length + 1) cs

/-! ## documents -/

/-- a document and the table that entries go to -/
structure Draft where
  entries : Entries
  path : List String

/-- one statement -/
def Draft.add? (d : Draft) : Statement → Option Draft
  | .entry key v =>
    (update? false (insert? key v) d.path .header d.entries).map fun es => { d with entries := es }
  | .table path => (openTable? path d.entries).map fun es => ⟨es, path⟩
  | .element path => (openElement? path d.entries).map fun es => ⟨es, path⟩

/-- the entries of the document of a text -/
def parse? (s : String) : Option Entries := do
  let d ← (← statements? s).foldlM Draft.add? ⟨[], []⟩
  some d.entries

end Resumable.Toml
