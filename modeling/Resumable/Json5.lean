import Resumable.Json.Reader
import Resumable.Settings.Value
import Resumable.Text.Letter

/-!
# JSON written by hand

A looser form of JSON: comments, a comma behind the last element, apostrophes for quotes, keys
without quotes, and more ways to write a number.

* `Json5.number?`, `Json5.text?`, `Json5.key?` : the parts of a document;
* `Json5.parse?` : the document of a text.
-/

namespace Resumable.Json5

open Decimal (isDigit)

/-! ## gaps -/

/-- a character that ends a line -/
def isBreak (c : Char) : Bool :=
  c == '\n' || c == '\x0d' || c.toNat == 0x2028 || c.toNat == 0x2029

/-- a blank of any width, or a character that ends a line -/
def isBlank (c : Char) : Bool :=
  let n := c.toNat
  isBreak c || n == 9 || n == 0xb || n == 0xc || n == 0x20 || n == 0xa0 || n == 0x1680 ||
    (0x2000 ≤ n && n ≤ 0x200a) || n == 0x202f || n == 0x205f || n == 0x3000 || n == 0xfeff

/-- where in a gap its reader stands -/
inductive Gap where
  | plain
  /-- in a comment up to the end of the line -/
  | line
  /-- in a comment between marks -/
  | block
deriving DecidableEq, Repr

/-- Blanks and comments skipped.  A comment between marks must be closed. -/
def skipFrom? : Gap → List Char → Option (List Char)
  | .block, [] => none
  | _, [] => some []
  | .plain, '/' :: '/' :: r => skipFrom? .line r
  | .plain, '/' :: '*' :: r => skipFrom? .block r
  | .plain, c :: r => if isBlank c then skipFrom? .plain r else some (c :: r)
  | .line, c :: r => skipFrom? (if isBreak c then .plain else .line) r
  | .block, '*' :: '/' :: r => skipFrom? .plain r
  | .block, _ :: r => skipFrom? .block r

/-- blanks and comments skipped -/
def skip? (cs : List Char) : Option (List Char) := skipFrom? .plain cs

/-! ## texts and keys -/

/-- The character that an escaped one stands for.  Digits stand for nothing but the zero. -/
def escape? : Char → Option Char
  | '0' => some '\x00'
  | 'b' => some '\x08'
  | 'f' => some '\x0c'
  | 'n' => some '\n'
  | 'r' => some '\x0d'
  | 't' => some '\t'
  | 'v' => some '\x0b'
  | c => if isDigit c || c == 'x' || c == 'u' then none else some c

/-- The code points up to a closing mark, and what follows it.  A backslash before the end of a line
joins it with the next one. -/
def units? (mark : Char) : List Char → Option (List Nat × List Char)
  | [] => none
  | '\\' :: '\x0d' :: '\n' :: r => units? mark r
  | '\\' :: 'x' :: a :: b :: r => do
    let n ← Text.hexNumber? 0 [a, b]
    (units? mark r).map fun p => (n :: p.1, p.2)
  | '\\' :: 'u' :: a :: b :: c :: d :: r => do
    let n ← Text.hexNumber? 0 [a, b, c, d]
    (units? mark r).map fun p => (n :: p.1, p.2)
  | '\\' :: c :: r =>
    if isBreak c then units? mark r
    else
      match escape? c with
      | some x => (units? mark r).map fun p => (x.toNat :: p.1, p.2)
      | none => none
  | c :: r =>
    if c = mark then some ([], r)
    else if c = '\\' || isBreak c then none
    else (units? mark r).map fun p => (c.toNat :: p.1, p.2)

/-- the text of code points, whose surrogates stand in pairs -/
def ofUnits? (ns : List Nat) : Option String := (Json.Token.characters? ns).map String.ofList

/-- a text after its opening mark -/
def text? (mark : Char) (cs : List Char) : Option (String × List Char) := do
  let (ns, r) ← units? mark cs
  some (← ofUnits? ns, r)

/-- a character that a bare key may start with -/
def isKeyStart (c : Char) : Bool := Text.isLetter c || c == '$' || c == '_'

/-- a character that a bare key may go on with -/
def isKeyPart (c : Char) : Bool :=
  isKeyStart c || Text.isWordPart c || c.toNat == 0x200c || c.toNat == 0x200d

/-- the code points of a bare key, and the rest; any character may be given by its code -/
def bareKey (isPart : Char → Bool) : List Char → List Nat × List Char
  | '\\' :: 'u' :: a :: b :: c :: d :: r =>
    match Text.hexNumber? 0 [a, b, c, d] with
    | some n =>
      let (ns, r) := bareKey isKeyPart r
      (n :: ns, r)
    | none => ([], '\\' :: 'u' :: a :: b :: c :: d :: r)
  | c :: r =>
    if isPart c then
      let (ns, r) := bareKey isKeyPart r
      (c.toNat :: ns, r)
    else ([], c :: r)
  | [] => ([], [])

/-- a key, bare or in marks -/
def key? (cs : List Char) : Option (String × List Char) :=
  match cs with
  | '"' :: r => text? '"' r
  | '\'' :: r => text? '\'' r
  | cs =>
    match bareKey isKeyStart cs with
    | ([], _) => none
    | (ns, r) => (ofUnits? ns).map fun s => (s, r)

/-! ## numbers -/

/-- an exponent, if there is one, and the rest -/
def splitExponent (cs : List Char) : List Char × List Char :=
  match cs with
  | c :: r =>
    let (sign, ds) := match r with
      | '+' :: r => (['+'], r)
      | '-' :: r => (['-'], r)
      | r => ([], r)
    if (c == 'e' || c == 'E') && ds.head?.any isDigit then
      (c :: sign ++ ds.takeWhile isDigit, ds.dropWhile isDigit)
    else ([], cs)
  | [] => ([], [])

/-- the digits before a point, without leading zeros, and the rest -/
def splitWhole : List Char → List Char × List Char
  | '0' :: r => (['0'], r)
  | cs => (cs.takeWhile isDigit, cs.dropWhile isDigit)

/-- a decimal number, with digits on one side of its point at least, and the rest -/
def splitDecimal? (cs : List Char) : Option (List Char × List Char) :=
  match splitWhole cs with
  | ([], '.' :: r) =>
    let (e, rest) := splitExponent (r.dropWhile isDigit)
    if r.head?.any isDigit then some ('.' :: r.takeWhile isDigit ++ e, rest) else none
  | ([], _) => none
  | (whole, '.' :: r) =>
    let (e, rest) := splitExponent (r.dropWhile isDigit)
    some (whole ++ '.' :: r.takeWhile isDigit ++ e, rest)
  | (whole, r) =>
    let (e, rest) := splitExponent r
    some (whole ++ e, rest)

/-- the greatest number in base sixteen -/
def maxHex : Nat := 4294967295

/-- The value of digits in base sixteen. -/
def hex? (digits : List Char) : Option Setting := do
  let n ← Text.hexNumber? 0 digits
  if n ≤ maxHex then some (.int n) else none

/-- The value of a decimal number.  Without a point and an exponent it is an integer of 64 bits, and
otherwise it must not be too large. -/
def decimal? (cs : List Char) : Option Setting :=
  let s := String.ofList cs
  if cs.any fun c => c == '.' || c == 'e' || c == 'E' then
    (Decimal.readDouble? s).bind fun x => if x.isFinite then some (.float x) else none
  else (Decimal.readInt64? s).map fun n => .int n.toInt

/-- a word at the head of a text, and the rest -/
def word? (w : String) (cs : List Char) : Option (List Char) := Json.Token.dropWord? w.toList cs

/-- a number behind its sign, which base sixteen does not have -/
def unsigned? (sign cs : List Char) : Option (Setting × List Char) :=
  let isHex (c : Char) : Bool := (Text.hexValue? c).isSome
  let special (name : String) : Option Setting :=
    if sign = ['+'] then none
    else (Decimal.readDouble? (String.ofList (sign ++ name.toList))).map .float
  let decimal : Option (Setting × List Char) := do
    let (ds, r) ← splitDecimal? cs
    some (← decimal? (sign ++ ds), r)
  match word? "Infinity" cs, word? "NaN" cs, cs with
  | some r, _, _ => (special "inf").map fun v => (v, r)
  | none, some r, _ => (special "nan").map fun v => (v, r)
  | none, none, '0' :: x :: d :: r =>
    if (x == 'x' || x == 'X') && isHex d then
      if sign.isEmpty then
        (hex? ((d :: r).takeWhile isHex)).map fun v => (v, (d :: r).dropWhile isHex)
      else none
    else decimal
  | _, _, _ => decimal

/-- a number -/
def number? : List Char → Option (Setting × List Char)
  | '+' :: r => unsigned? ['+'] r
  | '-' :: r => unsigned? ['-'] r
  | cs => unsigned? [] cs

/-! ## documents -/

/-- what reads a value at the head of a text -/
abbrev ReadValue := List Char → Option (Setting × List Char)

/-- the elements of a list that is not empty, at most `fuel` of them -/
def elems? (value : ReadValue) : Nat → List Char → Option (List Setting × List Char)
  | 0, _ => none
  | fuel + 1, cs => do
    let (v, r) ← value cs
    match ← skip? r with
    | ']' :: r => some ([v], r)
    | ',' :: r =>
      match ← skip? r with
      | ']' :: r => some ([v], r)
      | r => (elems? value fuel r).map fun p => (v :: p.1, p.2)
    | _ => none

/-- a key with its value -/
def member? (value : ReadValue) (cs : List Char) : Option ((String × Setting) × List Char) := do
  let (k, r) ← key? cs
  match ← skip? r with
  | ':' :: r =>
    let (v, r) ← value (← skip? r)
    some ((k, v), r)
  | _ => none

/-- the entries of a table that is not empty, at most `fuel` of them -/
def entriesFrom? (value : ReadValue) : Nat → List Char →
    Option (List (String × Setting) × List Char)
  | 0, _ => none
  | fuel + 1, cs => do
    let (e, r) ← member? value cs
    match ← skip? r with
    | '\x7d' :: r => some ([e], r)
    | ',' :: r =>
      match ← skip? r with
      | '\x7d' :: r => some ([e], r)
      | r => (entriesFrom? value fuel r).map fun p => (e :: p.1, p.2)
    | _ => none

/-- a value that is a word or a number -/
def plain? (cs : List Char) : Option (Setting × List Char) :=
  match word? "null" cs, word? "true" cs, word? "false" cs with
  | some r, _, _ => some (.null, r)
  | _, some r, _ => some (.bool true, r)
  | _, _, some r => some (.bool false, r)
  | none, none, none => number? cs

/-- a value with at most `fuel` brackets and braces open at once -/
def value? : Nat → ReadValue
  | 0, _ => none
  | fuel + 1, cs =>
    match cs with
    | '"' :: r => (text? '"' r).map fun p => (.text p.1, p.2)
    | '\'' :: r => (text? '\'' r).map fun p => (.text p.1, p.2)
    | '[' :: r => do
      match ← skip? r with
      | ']' :: r => some (.list [], r)
      | r => (elems? (value? fuel) r.length r).map fun p => (.list p.1, p.2)
    | '\x7b' :: r => do
      match ← skip? r with
      | '\x7d' :: r => some (.table [], r)
      | r => (entriesFrom? (value? fuel) r.length r).map fun p => (Setting.tableOf p.1, p.2)
    | cs => plain? cs

/-- the document of a text -/
def parse? (s : String) : Option Setting := do
  let (v, r) ← value? (s.toList.length + 1) (← skip? s.toList)
  match ← skip? r with
  | [] => some v
  | _ => none

end Resumable.Json5
