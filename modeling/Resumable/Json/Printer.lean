import Resumable.Json.Basic

/-!
# Printing JSON

Two layouts: compact, without any blanks, and spread over lines with two blanks for each level.
Quotes, backslashes and controls are escaped, everything else is written as it is.  A value that was
skipped is written as null.

* `Json.compact`, `Json.pretty` : the text of a document.
-/

namespace Resumable.Json

/-! ## strings -/

def hexChar (n : Nat) : Char :=
  if n < 10 then Char.ofNat (48 + n) else Char.ofNat (87 + n)

/-- one character inside a string -/
def escapeChar (c : Char) : List Char :=
  match c with
  | '"' => ['\\', '"']
  | '\\' => ['\\', '\\']
  | '\x08' => ['\\', 'b']
  | '\x0c' => ['\\', 'f']
  | '\n' => ['\\', 'n']
  | '\r' => ['\\', 'r']
  | '\t' => ['\\', 't']
  | c =>
    if c.toNat < 0x20 then
      ['\\', 'u', '0', '0', hexChar (c.toNat / 16), hexChar (c.toNat % 16)]
    else [c]

/-- a string with its quotes -/
def quote (s : String) : String :=
  String.ofList ('"' :: s.toList.flatMap escapeChar ++ ['"'])

/-! ## compact layout -/

mutual

/-- the text of a document without blanks -/
def compact : Json → String
  | .null | .skipped => "null"
  | .bool true => "true"
  | .bool false => "false"
  | .num t => t
  | .str s => quote s
  | .arr xs => "[" ++ ",".intercalate (compactElems xs) ++ "]"
  | .obj ms => "\x7b" ++ ",".intercalate (compactMembers ms) ++ "\x7d"

def compactElems : List Json → List String
  | [] => []
  | x :: xs => compact x :: compactElems xs

def compactMembers : List (String × Json) → List String
  | [] => []
  | (k, v) :: ms => (quote k ++ ":" ++ compact v) :: compactMembers ms

end

/-! ## layout over lines -/

def indent (level : Nat) : String := "".pushn ' ' (2 * level)

/-- the parts of a container, each on a line of its own -/
def block (opening closing : String) (level : Nat) : List String → String
  | [] => opening ++ closing
  | parts =>
    let pad := "\n" ++ indent (level + 1)
    opening ++ pad ++ ("," ++ pad).intercalate parts ++ "\n" ++ indent level ++ closing

mutual

/-- the text of a document that starts at a level of indentation -/
def prettyAt (level : Nat) : Json → String
  | .arr xs => block "[" "]" level (prettyElems (level + 1) xs)
  | .obj ms => block "\x7b" "\x7d" level (prettyMembers (level + 1) ms)
  | j => compact j

def prettyElems (level : Nat) : List Json → List String
  | [] => []
  | x :: xs => prettyAt level x :: prettyElems level xs

def prettyMembers (level : Nat) : List (String × Json) → List String
  | [] => []
  | (k, v) :: ms => (quote k ++ ": " ++ prettyAt level v) :: prettyMembers level ms

end

/-- the text of a document over lines -/
def pretty (j : Json) : String := prettyAt 0 j

end Resumable.Json
