import Resumable.Text.Hex
import Resumable.Yaml.Cursor

/-!
# Scalars of YAML

A scalar is plain, quoted, or a block of lines.  The lines of a plain or a quoted one are folded: a
single line break is read as a blank, and of several ones the first is dropped.  A block keeps its
line breaks, or folds those between two lines that do not start with a blank.

* `Plain.read?`, `Quoted.read?`, `Block.read?` : the text of a scalar, and the place behind it.
-/

namespace Resumable.Yaml

/-- line breaks -/
def breaksText (n : Nat) : String := "".pushn '\n' n

/-- what a folded line break and those behind it are read as -/
def foldedText (more : Nat) : String := if more = 0 then " " else breaksText more

/-! ## plain scalars -/

/-- A plain scalar while it is read. -/
structure Plain where
  cursor : Cursor
  text : String
  /-- blanks behind the text on its line -/
  blanks : String
  /-- a line ended behind the text -/
  broken : Bool
  /-- lines that ended after that -/
  breaks : Nat

namespace Plain

/-- how many characters of a line go on a plain scalar -/
def extent (inFlow : Bool) : List Char → Nat
  | [] => 0
  | c :: r =>
    if isSpace c || (inFlow && isFlow c) then 0
    else if c == ':' && (r.head?.all isSpace || (inFlow && r.head?.any isFlow)) then 0
    else extent inFlow r + 1

/-- The text with what stands between it and the next characters. -/
def joined (p : Plain) : String :=
  if !p.cursor.isIndented then p.text ++ p.blanks
  else if p.broken then p.text ++ foldedText p.breaks
  else p.text ++ breaksText p.breaks

/-- the next characters read, if there are any -/
def extend (inFlow : Bool) (p : Plain) : Plain :=
  match extent inFlow p.cursor.rest with
  | 0 => p
  | n =>
    let more := String.ofList (p.cursor.rest.take n)
    ⟨p.cursor.chars n, p.joined ++ more, "", false, 0⟩

/-- Blanks and line breaks skipped, at most `fuel` of them.  A tab may stand in an indentation only
on a line that is blank. -/
def skip? (indent : Int) : Nat → Plain → Option Plain
  | 0, p => some p
  | fuel + 1, p =>
    match p.cursor.head? with
    | none => some p
    | some c =>
      if isBreak c then
        if p.cursor.isIndented then
          skip? indent fuel { p with cursor := p.cursor.newline, breaks := p.breaks + 1 }
        else skip? indent fuel { p with cursor := p.cursor.newline, blanks := "", broken := true }
      else if isBlank c then
        if !p.cursor.isIndented then
          skip? indent fuel { p with cursor := p.cursor.blanks 1, blanks := p.blanks.push c }
        else if p.cursor.column < indent && c == '\t' then do
          let trail ← p.cursor.toLineEnd? true
          if trail.cursor.isLineEnd then skip? indent fuel { p with cursor := trail.cursor }
          else none
        else skip? indent fuel { p with cursor := p.cursor.blanks 1 }
      else some p

/-- the lines of a plain scalar, at most `fuel` of them -/
def lines? (inFlow : Bool) (indent : Int) : Nat → Plain → Option Plain
  | 0, _ => none
  | fuel + 1, p =>
    if p.cursor.isDocumentMarker || p.cursor.head? == some '#' then some p
    else if inFlow && p.cursor.head? == some '-' && p.cursor.rest[1]?.any isFlow then none
    else
      let p := p.extend inFlow
      if !p.cursor.head?.any isSpace then some p
      else do
        let p ← p.skip? indent (p.cursor.rest.length + 1)
        if !inFlow && p.cursor.column < indent then some p else lines? inFlow indent fuel p

/-- a plain scalar, which must not be empty; `indent` is the column that its lines start at -/
def read? (inFlow : Bool) (indent : Int) (c : Cursor) : Option (String × Cursor) := do
  if inFlow && c.column < indent then none
  else
    let p ← lines? inFlow indent (c.rest.length + 1) ⟨c, "", "", false, 0⟩
    if p.text.isEmpty then none else some (p.text, p.cursor)

end Plain

/-! ## quoted scalars -/

/-- the characters of a word between apostrophes, and the rest; two apostrophes stand for one -/
def apostropheWord : List Char → List Char × List Char
  | '\'' :: '\'' :: r =>
    let (cs, r) := apostropheWord r
    ('\'' :: cs, r)
  | c :: r =>
    if isSpace c || c == '\'' then ([], c :: r)
    else
      let (cs, r) := apostropheWord r
      (c :: cs, r)
  | [] => ([], [])

/-- the character of an escape of one letter -/
def escape? : Char → Option Char
  | '0' => some '\x00'
  | 'a' => some '\x07'
  | 'b' => some '\x08'
  | 't' => some '\t'
  | '\t' => some '\t'
  | 'n' => some '\n'
  | 'v' => some '\x0b'
  | 'f' => some '\x0c'
  | 'r' => some '\x0d'
  | 'e' => some '\x1b'
  | ' ' => some ' '
  | '"' => some '"'
  | '/' => some '/'
  | '\\' => some '\\'
  | 'N' => some '\u0085'
  | '_' => some '\u00a0'
  | 'L' => some '\u2028'
  | 'P' => some '\u2029'
  | _ => none

/-- The characters of a word between quotes, and the rest.  It ends before a backslash that joins
its line with the next one. -/
def quoteWord? : List Char → Option (List Char × List Char)
  | [] => some ([], [])
  | '\\' :: 'x' :: a :: b :: r => do
    let x ← Text.hexChar? [a, b]
    (quoteWord? r).map fun p => (x :: p.1, p.2)
  | '\\' :: 'u' :: a :: b :: c :: d :: r => do
    let x ← Text.hexChar? [a, b, c, d]
    (quoteWord? r).map fun p => (x :: p.1, p.2)
  | '\\' :: 'U' :: a :: b :: c :: d :: e :: f :: g :: h :: r => do
    let x ← Text.hexChar? [a, b, c, d, e, f, g, h]
    (quoteWord? r).map fun p => (x :: p.1, p.2)
  | '\\' :: c :: r =>
    if isBreak c then some ([], '\\' :: c :: r)
    else
      match escape? c with
      | some x => (quoteWord? r).map fun p => (x :: p.1, p.2)
      | none => none
  | c :: r =>
    if isSpace c || c == '"' then some ([], c :: r)
    else if c = '\\' then none
    else (quoteWord? r).map fun p => (c :: p.1, p.2)

/-- A quoted scalar while it is read: what stands behind its last word. -/
structure Quoted where
  cursor : Cursor
  text : String
  blanks : String
  /-- a line ended, or was joined with the next one -/
  isFresh : Bool
  /-- a line ended -/
  broken : Bool
  breaks : Nat

namespace Quoted

/-- the next word, and the end of a line that is joined with the next one -/
def word? (mark : Char) (q : Quoted) : Option Quoted := do
  let (cs, r) ← if mark = '"' then quoteWord? q.cursor.rest else some (apostropheWord q.cursor.rest)
  let c := q.cursor.upTo r
  let text := q.text ++ String.ofList cs
  match mark, r with
  | '"', '\\' :: _ => some ⟨(c.chars 1).newline, text, "", true, false, 0⟩
  | _, _ => some ⟨c, text, "", false, false, 0⟩

/-- Blanks and line breaks skipped, at most `fuel` of them.  A tab may not stand in the indentation
of a line. -/
def skip? (indent : Int) : Nat → Quoted → Option Quoted
  | 0, q => some q
  | fuel + 1, q =>
    match q.cursor.head? with
    | none => some q
    | some c =>
      if isBreak c then
        if q.isFresh then
          skip? indent fuel { q with cursor := q.cursor.newline, breaks := q.breaks + 1 }
        else
          skip? indent fuel
            { q with cursor := q.cursor.newline, blanks := "", isFresh := true, broken := true }
      else if isBlank c then
        if !q.isFresh then
          skip? indent fuel { q with cursor := q.cursor.blanks 1, blanks := q.blanks.push c }
        else if c == '\t' && q.cursor.column < indent then none
        else skip? indent fuel { q with cursor := q.cursor.blanks 1 }
      else some q

/-- the text with what stands between it and the next word -/
def joined (q : Quoted) : String :=
  if !q.isFresh then q.text ++ q.blanks
  else if q.broken then q.text ++ foldedText q.breaks
  else q.text ++ breaksText q.breaks

/-- the words up to the closing mark, at most `fuel` of them -/
def words? (mark : Char) (indent : Int) : Nat → Quoted → Option (String × Cursor)
  | 0, _ => none
  | fuel + 1, q => do
    if q.cursor.isDocumentMarker || q.cursor.isEnd || q.cursor.column < indent then none
    else
      let q ← q.word? mark
      if q.cursor.head? = some mark then some (q.text, q.cursor.chars 1)
      else
        let q ← q.skip? indent (q.cursor.rest.length + 1)
        words? mark indent fuel { q with text := q.joined }

/-- What may follow a quoted scalar on its line: the end of the line, a colon if the scalar may be a
key, and in a flow collection what goes on or ends it. -/
def isFollowed (inFlow : Bool) (line : Nat) (c : Cursor) : Bool :=
  match c.head? with
  | some ':' => inFlow || line == c.line
  | some x => isBreak x || (inFlow && (x == ',' || x == ']' || x == '\x7d'))
  | none => true

/-- a quoted scalar, up to what follows it on its line -/
def read? (mark : Char) (inFlow : Bool) (indent : Int) (c : Cursor) : Option (String × Cursor) := do
  let (text, d) ← words? mark indent (c.rest.length + 1) ⟨c.chars 1, "", "", false, false, 0⟩
  let trail ← d.toLineEnd? true
  if isFollowed inFlow c.line trail.cursor then some (text, trail.cursor) else none

end Quoted

/-! ## blocks -/

/-- what becomes of the line breaks at the end of a block -/
inductive Chomping where
  | clip
  | strip
  | keep
deriving DecidableEq, Repr

/-- the sign of what becomes of line breaks -/
def Chomping.ofSign? : Char → Option Chomping
  | '-' => some .strip
  | '+' => some .keep
  | _ => none

/-- A sign and a digit at the head of a block, in either order, and the rest.  The digit is the
depth of the block's indentation, which is not zero. -/
def blockHeader? (cs : List Char) : Option (Chomping × Nat × List Char) :=
  let digit? (c : Char) : Option Nat :=
    if '1' ≤ c ∧ c ≤ '9' then some (c.toNat - '0'.toNat) else none
  match cs with
  | [] => some (.clip, 0, [])
  | c :: r =>
    match Chomping.ofSign? c, digit? c with
    | some chomping, _ =>
      match r with
      | [] => some (chomping, 0, r)
      | d :: r' =>
        match digit? d with
        | some n => some (chomping, n, r')
        | none => if d = '0' then none else some (chomping, 0, r)
    | none, some n =>
      match r.head?.bind Chomping.ofSign? with
      | some chomping => some (chomping, n, r.drop 1)
      | none => some (.clip, n, r)
    | none, none => if c = '0' then none else some (.clip, 0, c :: r)

/-- a block while it is read -/
structure Block where
  cursor : Cursor
  text : String
  /-- the last line ended -/
  broken : Bool
  /-- blank lines behind it -/
  breaks : Nat
  /-- the last line starts with a blank -/
  isBlank : Bool

namespace Block

/-- blank lines skipped, and blanks up to a column -/
def skipTo (column : Nat) : Nat → Cursor → Nat → Cursor × Nat
  | 0, c, n => (c, n)
  | fuel + 1, c, n =>
    let spaces := (c.rest.takeWhile (· == ' ')).length
    let c := c.blanks (min spaces (column - c.column))
    if c.head?.any isBreak then skipTo column fuel c.newline (n + 1) else (c, n)

/-- blank lines skipped, and all blanks of the next line; the greatest column comes with it -/
def skipFirst : Nat → Cursor → Nat → Nat → Cursor × Nat × Nat
  | 0, c, n, column => (c, n, column)
  | fuel + 1, c, n, column =>
    let c := c.blanks (c.rest.takeWhile (· == ' ')).length
    let column := max column c.column
    if c.head?.any isBreak then skipFirst fuel c.newline (n + 1) column else (c, n, column)

/-- one line behind the others -/
def addLine (folded : Bool) (b : Block) : Block :=
  let isBlankLine := b.cursor.head?.any Yaml.isBlank
  let between :=
    if folded && b.broken && !b.isBlank && !isBlankLine then foldedText b.breaks
    else breaksText ((if b.broken then 1 else 0) + b.breaks)
  let text := b.text ++ between ++ String.ofList b.cursor.lineRest
  ⟨b.cursor.lineEnd, text, false, 0, isBlankLine⟩

/-- the lines that start at a column, at most `fuel` of them -/
def lines (folded : Bool) (column : Nat) : Nat → Block → Block
  | 0, b => b
  | fuel + 1, b =>
    if b.cursor.column != column || b.cursor.isEnd || b.cursor.isMarker '.' then b
    else
      let b := b.addLine folded
      if b.cursor.isEnd then b
      else
        let (c, breaks) := skipTo column (b.cursor.rest.length + 1) b.cursor.newline 0
        lines folded column fuel { b with cursor := c, broken := true, breaks }

/-- The text with the line breaks at its end.  A last line that is not ended counts as ended. -/
def chomped (chomping : Chomping) (column : Nat) (b : Block) : String :=
  let ends := (if b.broken then 1 else 0) +
    (if b.cursor.isEnd && max column 1 ≤ b.cursor.column then 1 else 0)
  match chomping with
  | .strip => b.text
  | .clip => b.text ++ breaksText ends
  | .keep => b.text ++ breaksText (ends + b.breaks)

/-- the text of a block that the end of the text leaves without lines -/
def emptyText (chomping : Chomping) (isFirstLine : Bool) (breaks : Nat) : String :=
  match chomping with
  | .strip => ""
  | .clip => if isFirstLine then "" else "\n"
  | .keep => if isFirstLine then "" else breaksText (max breaks 1)

/-- a block after its mark, within an indentation -/
def read? (folded : Bool) (indent : Int) (c : Cursor) : Option (String × Cursor) := do
  let (chomping, increment, r) ← blockHeader? (c.rest.drop 1)
  let trail ← (c.upTo r).toLineEnd? true
  let d := trail.cursor.newline
  if !trail.cursor.isLineEnd || d.head? == some '\t' then none
  else
    let fuel := d.rest.length + 1
    let (d, breaks, column) :=
      if increment = 0 then
        let (d, breaks, column) := skipFirst fuel d 0 0
        (d, breaks, max column (indent + 1).toNat)
      else
        let column := (max indent 0).toNat + increment
        let (d, breaks) := skipTo column fuel d 0
        (d, breaks, column)
    if d.isEnd then some (emptyText chomping (d.line == c.line) breaks, d)
    else if d.column < column && indent < d.column then none
    else
      let b := lines folded column fuel ⟨d, "", false, breaks, false⟩
      some (b.chomped chomping column, b.cursor)

end Block

end Resumable.Yaml
