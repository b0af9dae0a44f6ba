import Resumable.Text.Hex
import Resumable.Text.Unprintable

/-!
# Quoted literals

A literal is written between double quotes.  A quote, a backslash, a line feed, a carriage return,
a tab and the character zero have a two-character escape; every other unprintable character is
written as its code point in hexadecimal between braces; the rest stands for itself.

* `encode` : the quoted form of a text;
* `decode` : the text that the inside of a quoted form stands for.  It is total: an escape that
  names no character is dropped, and a backslash before any other character keeps that character.
-/

namespace Resumable.Text.Quoted

/-! ## writing -/

/-- the code point of `c` as lower-case hexadecimal digits -/
def hexDigits (c : Char) : List Char := Nat.toDigits 16 c.toNat

/-- one character inside a literal -/
def encodeChar (c : Char) : List Char :=
  match c with
  | '"' => ['\\', '"']
  | '\\' => ['\\', '\\']
  | '\n' => ['\\', 'n']
  | '\r' => ['\\', 'r']
  | '\t' => ['\\', 't']
  | '\x00' => ['\\', '0']
  | c => if isUnprintable c then '\\' :: 'u' :: '\x7b' :: hexDigits c ++ ['\x7d'] else [c]

/-- the inside of the literal of a text -/
def encodeChars (cs : List Char) : List Char := cs.flatMap encodeChar

theorem encodeChars_nil : encodeChars [] = [] := rfl
theorem encodeChars_cons (c : Char) (cs : List Char) :
    encodeChars (c :: cs) = encodeChar c ++ encodeChars cs := rfl
theorem encodeChars_append (a b : List Char) :
    encodeChars (a ++ b) = encodeChars a ++ encodeChars b := by
  simp [encodeChars, List.flatMap_append]

/-- the literal of a text, quotes included -/
def encode (s : String) : String :=
  String.ofList ('"' :: encodeChars s.toList ++ ['"'])

/-! ## reading -/

/-- the character named by the digits between the braces; a plus sign may stand before them -/
def codePoint? (digits : List Char) : Option Char :=
  let digits := match digits with
    | '+' :: ds => ds
    | ds => ds
  if digits.isEmpty then none else hexChar? digits

/-- where the reader of a literal stands -/
inductive Mode where
  /-- between two characters -/
  | plain
  /-- after a backslash -/
  | escape
  /-- after the letter of a code point, before its first digit -/
  | brace
  /-- inside a code point, with the digits read so far in reverse -/
  | code (digits : List Char)
deriving DecidableEq, Repr

/-- the text that the rest of a literal's inside stands for -/
def decodeFrom : Mode → List Char → List Char
  | .plain, [] => []
  | .plain, c :: r => if c = '\\' then decodeFrom .escape r else c :: decodeFrom .plain r
  | .escape, [] => ['\\']
  | .escape, c :: r =>
    match c with
    | 'n' => '\n' :: decodeFrom .plain r
    | 't' => '\t' :: decodeFrom .plain r
    | 'r' => '\r' :: decodeFrom .plain r
    | '0' => '\x00' :: decodeFrom .plain r
    | 'u' => decodeFrom .brace r
    | c => c :: decodeFrom .plain r
  | .brace, [] => []
  | .brace, c :: r =>
    if c = '\x7b' then decodeFrom .brace r
    else if c = '\x7d' then decodeFrom .plain r
    else decodeFrom (.code [c]) r
  | .code ds, [] => (codePoint? ds.reverse).toList
  | .code ds, c :: r =>
    if c = '\x7d' then (codePoint? ds.reverse).toList ++ decodeFrom .plain r
    else decodeFrom (.code (c :: ds)) r

/-- the text that the inside of a literal stands for -/
def decode (s : String) : String := String.ofList (decodeFrom .plain s.toList)

theorem decodeFrom_plain_nil : decodeFrom .plain [] = [] := rfl

/-- a character without an escape is read as itself -/
theorem decodeFrom_plain_cons (c : Char) (r : List Char) (h : c ≠ '\\') :
    decodeFrom .plain (c :: r) = c :: decodeFrom .plain r := by
  simp [decodeFrom, h]

end Resumable.Text.Quoted
