import Resumable.Settings.Value
import Resumable.Text.Blank
import Resumable.Text.Hex

/-!
# Sections of keys

A text has keys with their values, and headers of sections in brackets that the keys behind them
belong to.  A key ends at a sign of equality or a colon, and its value at the end of the line; a
value that starts with a quote or an apostrophe may reach over lines up to the next one, and what
follows on the line belongs to it.  Comments start at the start of a line.  All values are texts,
and white space around keys, values and names of sections is dropped.

* `Ini.statements?` : the statements of a text;
* `Ini.entries?` : the entries of a text, those of a section in a table.
-/

namespace Resumable.Ini

/-! ## texts -/

/-- the character of four digits in base sixteen; a plus may stand for the first one -/
def coded? : List Char → Option Char
  | '+' :: ds => Text.hexChar? ds
  | ds => Text.hexChar? ds

/-- what a character after a backslash stands for; a line break stands for nothing -/
def escaped : Char → List Char
  | '0' => ['\x00']
  | 'a' => ['\x07']
  | 'b' => ['\x08']
  | 't' => ['\t']
  | 'r' => ['\x0d']
  | 'n' => ['\n']
  | '\n' => []
  | c => [c]

/-- The text up to a character that ends it, and the rest from there.  The end of the whole text may
end it too. -/
def textTo? (isEnd : Char → Bool) (orEnd : Bool) : List Char → Option (List Char × List Char)
  | [] => if orEnd then some ([], []) else none
  | '\\' :: 'x' :: a :: b :: c :: d :: r => do
    let x ← coded? [a, b, c, d]
    (textTo? isEnd orEnd r).map fun p => (x :: p.1, p.2)
  | '\\' :: c :: r =>
    if c = 'x' then none else (textTo? isEnd orEnd r).map fun p => (escaped c ++ p.1, p.2)
  | c :: r =>
    if isEnd c then some ([], c :: r)
    else if c = '\\' then none
    else (textTo? isEnd orEnd r).map fun p => (c :: p.1, p.2)

/-- a text without white space around it -/
def trimmed (cs : List Char) : String := String.ofList (Text.trimStart (Text.trimEnd cs))

def isBreak (c : Char) : Bool := c == '\n' || c == '\x0d'

/-- a character that ends a key -/
def isSign (c : Char) : Bool := c == '=' || c == ':'

/-- the text up to the end of the line -/
def lineEnd? (cs : List Char) : Option (List Char × List Char) := textTo? isBreak true cs

/-- a text up to a closing mark, with what follows on the line -/
def quoted? (mark : Char) (cs : List Char) : Option (List Char × List Char) := do
  let (text, r) ← textTo? (· == mark) false cs
  let (more, r) ← lineEnd? (r.drop 1)
  some (text ++ more, r)

/-- a value behind its sign -/
def value? (cs : List Char) : Option (List Char × List Char) :=
  match cs.dropWhile fun c => Text.isWhite c && !isBreak c with
  | '"' :: r => quoted? '"' r
  | '\'' :: r => quoted? '\'' r
  | r => lineEnd? r

/-! ## statements -/

inductive Statement where
  /-- what follows belongs to a section -/
  | header (name : String)
  | entry (key value : String)
deriving DecidableEq, Repr

/-- white space skipped; `fresh` says that a line starts -/
def skipWhite (fresh : Bool) : List Char → Bool × List Char
  | [] => (fresh, [])
  | c :: r => if Text.isWhite c then skipWhite (c == '\n') r else (fresh, c :: r)

/-- a key that is not empty, with its value -/
def pair? (cs : List Char) : Option (Statement × List Char) := do
  let (key, r) ← textTo? isSign false cs
  let (value, r) ← value? (r.drop 1)
  if (trimmed key).isEmpty then none else some (.entry (trimmed key) (trimmed value), r)

/-- the name of a section behind its bracket -/
def header? (cs : List Char) : Option (Statement × List Char) :=
  (textTo? (· == ']') false cs).map fun p => (.header (trimmed p.1), p.2.drop 1)

/-- the statements of a text, at most `fuel` of them and of comments -/
def statementsFrom? : Nat → Bool → List Char → Option (List Statement)
  | 0, _, _ => none
  | fuel + 1, fresh, cs =>
    match skipWhite fresh cs with
    | (_, []) => some []
    | (fresh, c :: r) =>
      if c = ';' ∨ c = '#' then
        if fresh then statementsFrom? fuel true ((r.dropWhile (· != '\n')).drop 1) else none
      else do
        let (s, r) ← if c = '[' then header? r else pair? (c :: r)
        (statementsFrom? fuel false r).map (s :: ·)

/-- the statements of a text -/
def statements? (text : String) : Option (List Statement) :=
  statementsFrom? (text.toList.length + 1) true text.toList

/-! ## entries -/

/-- entries and the section that further ones belong to -/
structure Draft where
  entries : List (String × Setting)
  current : Option (String × List (String × Setting))

/-- the section closed; it takes the place of one of its name -/
def Draft.close (d : Draft) : List (String × Setting) :=
  match d.current with
  | some (name, es) => Setting.insert d.entries name (.table es)
  | none => d.entries

/-- one statement -/
def Draft.add (d : Draft) : Statement → Draft
  | .header name => ⟨d.close, some (name, [])⟩
  | .entry key value =>
    match d.current with
    | some (name, es) => { d with current := some (name, Setting.insert es key (.text value)) }
    | none => { d with entries := Setting.insert d.entries key (.text value) }

/-- the entries of a text -/
def entries? (text : String) : Option (List (String × Setting)) :=
  (statements? text).map fun ss => (ss.foldl Draft.add ⟨[], none⟩).close

end Resumable.Ini
