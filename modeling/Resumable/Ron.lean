import Resumable.Settings.Value
import Resumable.Text.Hex

/-!
# RON documents

Structures, tuples, lists, maps and options, with names of types that count for nothing.  A
structure and a map become a table, a tuple and a list become a list, and a bare name is null.

* `Ron.identifier?`, `Ron.number?`, `Ron.text?` : the parts of a document;
* `Ron.value?` : a value that nests to some depth;
* `Ron.parse?` : the document of a text.
-/

namespace Resumable.Ron

/-! ## gaps -/

def isBlank (c : Char) : Bool := c == ' ' || c == '\t' || c == '\n' || c == '\x0d'

/-- where in a gap its reader stands -/
inductive Gap where
  | plain
  /-- in a comment up to the end of the line -/
  | line
  /-- in comments within each other, one more than the number -/
  | block (n : Nat)
deriving DecidableEq, Repr

/-- within one comment less -/
def Gap.leave : Nat → Gap
  | 0 => .plain
  | n + 1 => .block n

/-- Blanks and comments skipped.  A comment between marks must be closed. -/
def skipFrom? : Gap → List Char → Option (List Char)
  | .block _, [] => none
  | _, [] => some []
  | .plain, '/' :: '/' :: r => skipFrom? .line r
  | .plain, '/' :: '*' :: r => skipFrom? (.block 0) r
  | .plain, c :: r => if isBlank c then skipFrom? .plain r else some (c :: r)
  | .line, c :: r => skipFrom? (if c = '\n' then .plain else .line) r
  | .block n, '/' :: '*' :: r => skipFrom? (.block (n + 1)) r
  | .block n, '*' :: '/' :: r => skipFrom? (Gap.leave n) r
  | .block n, _ :: r => skipFrom? (.block n) r

/-- blanks and comments skipped -/
def skip? (cs : List Char) : Option (List Char) := skipFrom? .plain cs

/-- The rest after a comma and the gaps around it.  Without a comma, only the gap is skipped. -/
def comma? (cs : List Char) : Option (Bool × List Char) := do
  match ← skip? cs with
  | ',' :: r => some (true, ← skip? r)
  | r => some (false, r)

/-! ## names -/

def isNameStart (c : Char) : Bool := c.isAlpha || c == '_'

def isNamePart (c : Char) : Bool := c.isAlphanum || c == '_'

/-- a character of a raw name -/
def isRawPart (c : Char) : Bool := isNamePart c || c == '.' || c == '+' || c == '-'

/-- a name, plain or raw, and the rest -/
def identifier? (cs : List Char) : Option (String × List Char) :=
  match cs with
  | 'r' :: '"' :: _ => none
  | 'r' :: '#' :: r =>
    if r.head?.any isRawPart then
      some (String.ofList (r.takeWhile isRawPart), r.dropWhile isRawPart)
    else none
  | cs =>
    let rest := cs.dropWhile isNamePart
    if cs.head?.any isNameStart && !rest.head?.any isRawPart then
      some (String.ofList (cs.takeWhile isNamePart), rest)
    else none

/-- the rest after some characters -/
def drop? (w : String) (cs : List Char) : Option (List Char) :=
  if w.toList.isPrefixOf cs then some (cs.drop w.length) else none

/-- the rest after a word that nothing of a name follows -/
def word? (w : String) (cs : List Char) : Option (List Char) := do
  let r ← drop? w cs
  if r.head?.any isNamePart then none else some r

/-! ## numbers -/

def isIntegerPart (c : Char) : Bool := (Text.hexValue? c).isSome || c == '_'

def isFloatPart (c : Char) : Bool :=
  Decimal.isDigit c || c == '_' || c == 'e' || c == 'E' || c == '.' || c == '+' || c == '-'

/-- the base of a number, and its digits with what follows them -/
def splitBase : List Char → Nat × List Char
  | '0' :: 'x' :: r => (16, r)
  | '0' :: 'o' :: r => (8, r)
  | '0' :: 'b' :: r => (2, r)
  | r => (10, r)

/-- one more digit of a base -/
def addDigit? (base n : Nat) (c : Char) : Option Nat := do
  let d ← Text.hexValue? c
  if d < base then some (base * n + d) else none

/-- an integer without a sign, and the rest; underscores may stand behind its first digit -/
def natural? (cs : List Char) : Option (Nat × List Char) := do
  let (base, r) := splitBase cs
  let digits := r.takeWhile isIntegerPart
  if digits.isEmpty || digits.head? = some '_' then none
  else
    let n ← (digits.filter (· != '_')).foldlM (addDigit? base) 0
    some (n, r.dropWhile isIntegerPart)

/-- the greatest integer of 64 bits, with a sign and without -/
def maxSigned : Nat := 9223372036854775807
def maxUnsigned : Nat := 18446744073709551615

/-- An integer of 64 bits.  One that only fits without a sign becomes a double. -/
def integer? (cs : List Char) : Option (Setting × List Char) := do
  match cs with
  | '-' :: r =>
    let (n, r) ← natural? r
    if n ≤ maxSigned + 1 then some (.int (-n), r) else none
  | '+' :: r =>
    let (n, r) ← natural? r
    if n ≤ maxSigned then some (.int n, r) else none
  | r =>
    let (n, r) ← natural? r
    if n ≤ maxSigned then some (.int n, r)
    else if n ≤ maxUnsigned then some (.float (Json.Number.rounded n), r)
    else none

/-- a floating number, in which no underscores may stand -/
def float? (cs : List Char) : Option (Setting × List Char) := do
  let x ← Decimal.readDouble? (String.ofList (cs.takeWhile isFloatPart))
  some (.float x, cs.dropWhile isFloatPart)

/-- A number.  It is floating if that reads more of it, or if it is no integer of 64 bits. -/
def number? (cs : List Char) : Option (Setting × List Char) :=
  let body := match cs with
    | '+' :: r => r
    | '-' :: r => r
    | r => r
  if (body.takeWhile isIntegerPart).length < (body.takeWhile isFloatPart).length then float? cs
  else
    match integer? cs with
    | some p => some p
    | none => float? cs

/-! ## texts -/

/-- the character of one to six digits in base sixteen that a brace closes, and the rest -/
def coded? (cs : List Char) : Option (Char × List Char) := do
  let digits := cs.takeWhile (· != '\x7d')
  if digits.isEmpty || 6 < digits.length then none
  else
    match cs.dropWhile (· != '\x7d') with
    | _ :: r => some (← Text.hexChar? digits, r)
    | [] => none

/-- the character after a backslash, and the rest -/
def escape? : List Char → Option (Char × List Char)
  | 'x' :: a :: b :: r => (Text.hexChar? [a, b]).map fun c => (c, r)
  | 'u' :: '\x7b' :: r => coded? r
  | 'n' :: r => some ('\n', r)
  | 'r' :: r => some ('\x0d', r)
  | 't' :: r => some ('\t', r)
  | '0' :: r => some ('\x00', r)
  | c :: r => if c = '\\' ∨ c = '"' ∨ c = '\'' then some (c, r) else none
  | [] => none

/-- a text up to its closing quote, and the rest; `fuel` bounds its characters -/
def text? : Nat → List Char → Option (List Char × List Char)
  | 0, _ => none
  | _, [] => none
  | fuel + 1, c :: r =>
    if c = '"' then some ([], r)
    else if c = '\\' then do
      let (x, r) ← escape? r
      (text? fuel r).map fun p => (x :: p.1, p.2)
    else (text? fuel r).map fun p => (c :: p.1, p.2)

/-- a text up to a quote with marks behind it, and what follows them -/
def rawText? (marks : List Char) : List Char → Option (List Char × List Char)
  | [] => none
  | c :: r =>
    if c == '"' && marks.isPrefixOf r then some ([], r.drop marks.length)
    else (rawText? marks r).map fun p => (c :: p.1, p.2)

/-- a raw text, whose quotes stand between any number of marks -/
def raw? (cs : List Char) : Option (String × List Char) :=
  let marks := cs.takeWhile (· == '#')
  match cs.dropWhile (· == '#') with
  | '"' :: r => (rawText? marks r).map fun p => (String.ofList p.1, p.2)
  | _ => none

/-- a single character between apostrophes -/
def character? : List Char → Option (Char × List Char)
  | '\\' :: r => do
    match ← escape? r with
    | (c, '\'' :: r) => some (c, r)
    | _ => none
  | c :: '\'' :: r => if c = '\'' then none else some (c, r)
  | _ => none

/-! ## values -/

/-- what reads a value at the head of a text -/
abbrev ReadValue := List Char → Option (Setting × List Char)

/-- elements up to a closing mark, at most `fuel` of them; a comma stands between two of them -/
def elems? {α : Type} (elem : List Char → Option (α × List Char)) (mark : Char) :
    Nat → List Char → Option (List α × List Char)
  | 0, _ => none
  | fuel + 1, cs => do
    match ← skip? cs with
    | [] => none
    | c :: r =>
      if c = mark then some ([], r)
      else
        let (x, r) ← elem (c :: r)
        match ← comma? r with
        | (true, r) => (elems? elem mark fuel r).map fun p => (x :: p.1, p.2)
        | (false, c :: r) => if c = mark then some ([x], r) else none
        | (false, []) => none

/-- a value behind its colon -/
def valued? (value : ReadValue) (key : String) (cs : List Char) :
    Option ((String × Setting) × List Char) := do
  match ← skip? cs with
  | ':' :: r =>
    let (v, r) ← value (← skip? r)
    some ((key, v), r)
  | _ => none

/-- a field of a structure -/
def field? (value : ReadValue) (cs : List Char) : Option ((String × Setting) × List Char) := do
  let (key, r) ← identifier? cs
  valued? value key r

/-- a text or a character, as the key of a map -/
def key? (cs : List Char) : Option (String × List Char) :=
  match cs, identifier? cs with
  | '"' :: r, _ => (text? (r.length + 1) r).map fun p => (String.ofList p.1, p.2)
  | '\'' :: r, _ => (character? r).map fun p => (p.1.toString, p.2)
  | 'r' :: r, none => raw? r
  | _, _ => none

/-- an entry of a map -/
def member? (value : ReadValue) (cs : List Char) : Option ((String × Setting) × List Char) := do
  let (key, r) ← key? cs
  valued? value key r

/-- A name with a colon comes first. -/
def startsField? (cs : List Char) : Option Bool :=
  match identifier? cs with
  | none => some false
  | some (_, r) => (skip? r).map fun r => r.head? == some ':'

/-- a structure or a tuple after its bracket -/
def bracketed? (value : ReadValue) (cs : List Char) : Option (Setting × List Char) := do
  if ← startsField? (← skip? cs) then
    (elems? (field? value) ')' (cs.length + 1) cs).map fun p => (Setting.tableOf p.1, p.2)
  else (elems? value ')' (cs.length + 1) cs).map fun p => (.list p.1, p.2)

/-- words that are values -/
def words : List (String × Setting) :=
  [("true", .bool true), ("false", .bool false), ("None", .null),
    ("inf", .float (Decimal.doubleOfBits Decimal.BinaryFormat.double.infinityBits)),
    ("-inf", .float (-Decimal.doubleOfBits Decimal.BinaryFormat.double.infinityBits)),
    ("NaN", .float (Decimal.doubleOfBits (Decimal.BinaryFormat.double.pack .nan)))]

/-- the value of a word, and the rest -/
def valueOfWord? (cs : List Char) : Option (Setting × List Char) :=
  words.findSome? fun w => (word? w.1 cs).map fun r => (w.2, r)

/-- how deep values may nest in a value -/
inductive Room where
  /-- nothing may be opened -/
  | none
  /-- an option may hold a value, and a container must be empty -/
  | one (inOption : ReadValue)
  | more (inOption inside : ReadValue)

/-- what reads a value in an option -/
def Room.inOption : Room → ReadValue
  | .none => fun _ => Option.none
  | .one value => value
  | .more value _ => value

/-- what reads a value in a container -/
def Room.inside : Room → ReadValue
  | .none | .one _ => fun _ => Option.none
  | .more _ value => value

/-- a container may be opened -/
def Room.isOpen : Room → Bool
  | .none => false
  | .one _ | .more .. => true

/-- An option behind its word.  The brackets may be missing where an extension says so. -/
def option? (value : ReadValue) (bare : Bool) (cs : List Char) : Option (Setting × List Char) := do
  match ← skip? cs with
  | '(' :: r =>
    let (v, r) ← value (← skip? r)
    match ← comma? r with
    | (_, ')' :: r) => some (v, r)
    | _ => none
  | r => if bare then value r else none

/-- a value that is no word and has no name -/
def unnamed? (room : Room) (cs : List Char) : Option (Setting × List Char) :=
  let list (mark : Char) (r : List Char) : Option (Setting × List Char) :=
    (elems? room.inside mark (r.length + 1) r).map fun p => (.list p.1, p.2)
  match cs with
  | '[' :: r => if room.isOpen then list ']' r else none
  | '\x7b' :: r =>
    if room.isOpen then
      (elems? (member? room.inside) '\x7d' (r.length + 1) r).map fun p => (Setting.tableOf p.1, p.2)
    else none
  | '(' :: r => if room.isOpen then bracketed? room.inside r else none
  | cs =>
    match key? cs with
    | some (s, r) => some (.text s, r)
    | none => number? cs

/-- a structure or a tuple behind its name, or the name alone -/
def named? (room : Room) (cs : List Char) : Option (Setting × List Char) := do
  match ← skip? cs with
  | '(' :: r => if room.isOpen then bracketed? room.inside r else none
  | r => some (.null, r)

/-- a value with some room in it -/
def form? (bare : Bool) (room : Room) (cs : List Char) : Option (Setting × List Char) :=
  match valueOfWord? cs, word? "Some" cs, drop? "()" cs, identifier? cs with
  | some p, _, _, _ => some p
  | none, some r, _, _ => option? room.inOption bare r
  | none, none, some r, _ => some (.null, r)
  | none, none, none, some (_, r) => named? room r
  | none, none, none, none => unnamed? room cs

/-- A value.  An option needs one unit of the limit, a container one and its values another. -/
def value? (bare : Bool) : Nat → ReadValue
  | 0 => form? bare .none
  | 1 => form? bare (.one (value? bare 0))
  | n + 2 => form? bare (.more (value? bare (n + 1)) (value? bare n))

/-! ## documents -/

/-- how deep a document nests -/
def limit : Nat := 128

/-- extensions that a document may ask for; the first one allows options without brackets -/
def extensions : List String := ["implicit_some", "unwrap_newtypes", "unwrap_variant_newtypes"]

/-- the rest after some marks with gaps behind them -/
def marks? : List String → List Char → Option (List Char)
  | [], cs => some cs
  | w :: ws, cs => do marks? ws (← skip? (← drop? w cs))

/-- names of extensions between commas, at most `fuel` of them -/
def extensionNames? : Nat → List Char → Option (List String × List Char)
  | 0, _ => none
  | fuel + 1, cs => do
    let (name, r) ← identifier? cs
    if !extensions.contains name then none
    else
      let (comma, r) ← comma? r
      match comma, r.head?.any isNamePart with
      | true, true => (extensionNames? fuel r).map fun p => (name :: p.1, p.2)
      | false, true => none
      | _, false => some ([name], r)

/-- the extensions that a document asks for at its head, in at most `fuel` attributes -/
def attributes? : Nat → List Char → Option (List String × List Char)
  | 0, _ => none
  | fuel + 1, cs => do
    let cs ← skip? cs
    if cs.head? = some '#' then
      let (names, r) ← extensionNames? cs.length (← marks? ["#", "!", "[", "enable", "("] cs)
      let (more, r) ← attributes? fuel (← marks? [")", "]"] r)
      some (names ++ more, r)
    else some ([], cs)

/-- the document of a text -/
def parse? (s : String) : Option Setting := do
  let (names, r) ← attributes? (s.toList.length + 1) s.toList
  let (v, r) ← value? (names.any fun n => extensions.head? == some n) limit r
  match ← skip? r with
  | [] => some v
  | _ => none

end Resumable.Ron
