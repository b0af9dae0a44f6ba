/-!
# Places in a text

The layout of a text has a meaning, so its reader knows the line and the column where it stands, and
whether only blanks stand before it on its line.

* `Cursor.blanks`, `Cursor.chars`, `Cursor.newline` : the place behind some characters of a line,
  and behind a line;
* `Cursor.toLineEnd?` : the place behind the blanks and the comment that end a line.
-/

namespace Resumable.Yaml

/-! ## characters -/

def isBreak (c : Char) : Bool := c == '\n' || c == '\x0d'

def isBlank (c : Char) : Bool := c == ' ' || c == '\t'

/-- a blank or the end of a line -/
def isSpace (c : Char) : Bool := isBlank c || isBreak c

/-- a character that flow collections are written with -/
def isFlow (c : Char) : Bool := c == ',' || c == '[' || c == ']' || c == '\x7b' || c == '\x7d'

/-- a character of a word -/
def isWordChar (c : Char) : Bool := c.isAlphanum || c == '_' || c == '-'

theorem isSpace_of_isBreak {c : Char} (h : isBreak c) : isSpace c := by
  simp [isSpace, h]

/-! ## places -/

/-- a place in a text -/
structure Cursor where
  /-- what follows the place -/
  rest : List Char
  /-- how many characters stand before it -/
  index : Nat
  line : Nat
  column : Nat
  /-- only blanks stand before it on its line -/
  isIndented : Bool

namespace Cursor

/-- the start of a text -/
def start (cs : List Char) : Cursor := ⟨cs, 0, 1, 0, true⟩

def head? (c : Cursor) : Option Char := c.rest.head?

/-- the text ends -/
def isEnd (c : Cursor) : Bool := c.rest.isEmpty

/-- the line ends, or the text does -/
def isLineEnd (c : Cursor) : Bool := c.rest.head?.all isBreak

/-- a blank or the end of a line stands some characters behind the place -/
def isSpaceAt (c : Cursor) (k : Nat) : Bool := c.rest[k]?.all isSpace

/-- a line of three marks starts -/
def isMarker (c : Cursor) (mark : Char) : Bool :=
  c.column == 0 && c.rest.take 3 == [mark, mark, mark] && c.isSpaceAt 3

/-- a document starts or ends -/
def isDocumentMarker (c : Cursor) : Bool := c.isMarker '-' || c.isMarker '.'

/-- behind some blanks -/
def blanks (c : Cursor) (k : Nat) : Cursor :=
  { c with rest := c.rest.drop k, index := c.index + k, column := c.column + k }

/-- behind some characters of a line -/
def chars (c : Cursor) (k : Nat) : Cursor := { c.blanks k with isIndented := false }

/-- behind what was read of a line; `rest` is what follows it -/
def upTo (c : Cursor) (rest : List Char) : Cursor := c.chars (c.rest.length - rest.length)

/-- behind the end of a line -/
def newline (c : Cursor) : Cursor :=
  match c.rest with
  | '\x0d' :: '\n' :: r => ⟨r, c.index + 2, c.line + 1, 0, true⟩
  | b :: r => if isBreak b then ⟨r, c.index + 1, c.line + 1, 0, true⟩ else c
  | [] => c

/-- the rest of a line -/
def lineRest (c : Cursor) : List Char := c.rest.takeWhile fun x => !isBreak x

/-- behind all characters of a line -/
def lineEnd (c : Cursor) : Cursor := c.chars c.lineRest.length

theorem blanks_zero (c : Cursor) : c.blanks 0 = c := rfl
theorem newline_of_end {c : Cursor} (h : c.rest = []) : c.newline = c := by simp [newline, h]

/-- what was found at the end of a line -/
structure Trail where
  cursor : Cursor
  tabs : Bool
  blanks : Bool

/-- The blanks and the comment at the end of a line, as far as there are any.  Tabs are read if they
are `allowed`, and something blank must stand before a comment. -/
def toLineEnd? (allowed : Bool) (c : Cursor) : Option Trail :=
  let found := c.rest.takeWhile fun x => x == ' ' || (allowed && x == '\t')
  let trail (d : Cursor) : Trail := ⟨d, found.contains '\t', found.contains ' '⟩
  let d := c.blanks found.length
  if d.head? = some '#' then if found.isEmpty then none else some (trail d.lineEnd)
  else some (trail d)

end Cursor

end Resumable.Yaml
