import Resumable.Yaml.Scalar
import Resumable.Yaml.Token

/-!
# Cutting YAML into tokens

Blocks are nested by their columns: a collection starts where its first key or element stands
deeper than what surrounds it, and ends before the first token that does not.  A key is known by the
colon behind it, so the place of every token that may be one is held, and the token that says so is
put before it afterwards.

* `Lexer` : the tokens so far, with the open collections and the places of possible keys;
* `Lexer.next?` : one more token;
* `Token.scan?` : the tokens of a text.
-/

namespace Resumable.Yaml

/-- a token that may be a key -/
structure KeyPlace where
  /-- it still may be one -/
  possible : Bool
  /-- nothing else would make sense -/
  required : Bool
  /-- its number among the tokens -/
  number : Nat
  index : Nat
  line : Nat
  column : Nat
deriving Repr

/-- no key -/
def KeyPlace.none : KeyPlace := ⟨false, false, 0, 0, 0, 0⟩

/-- no key any more -/
def KeyPlace.dropped (k : KeyPlace) : KeyPlace := { k with possible := false }

/-- an indentation that another one replaced -/
structure Indent where
  column : Int
  /-- the one that replaced it belongs to a block -/
  isBlock : Bool
deriving Repr

structure Lexer where
  cursor : Cursor
  /-- the tokens so far, with the columns that they start at -/
  tokens : Array (Token × Nat)
  /-- the possible key of each flow collection, the innermost first, and of the block around them -/
  keys : List KeyPlace
  /-- a key may start here -/
  keyAllowed : Bool
  /-- the column of the innermost block -/
  indent : Int
  indents : List Indent
  /-- open flow collections -/
  depth : Nat
  /-- where a colon needs no blank behind it -/
  adjacent : Option Nat
  /-- a mapping in flow style was started -/
  mappingStarted : Bool
  /-- for each flow sequence, the innermost first: the depth of a mapping without braces in it -/
  implicit : List (Option Nat)

namespace Lexer

/-- the start of a text -/
def start (text : List Char) : Lexer where
  cursor := .start text
  tokens := #[]
  keys := [.none]
  keyAllowed := true
  indent := -1
  indents := []
  depth := 0
  adjacent := none
  mappingStarted := false
  implicit := []

/-! ## parts -/

def inFlow (s : Lexer) : Bool := s.depth != 0

def column (s : Lexer) : Nat := s.cursor.column

def allowKey (s : Lexer) (allowed : Bool) : Lexer := { s with keyAllowed := allowed }

def moveTo (s : Lexer) (c : Cursor) : Lexer := { s with cursor := c }

/-- one more token that starts at a place -/
def add (s : Lexer) (t : Token) (c : Cursor) : Lexer :=
  { s with tokens := s.tokens.push (t, c.column) }

/-- a token put before others -/
def addBefore (s : Lexer) (number : Nat) (t : Token) (column : Nat) : Lexer :=
  { s with tokens := s.tokens.insertIdxIfInBounds number (t, column) }

/-! ## keys -/

/-- the innermost possible key -/
def keyPlace (s : Lexer) : KeyPlace := s.keys.headD .none

def setKeyPlace (s : Lexer) (k : KeyPlace) : Lexer := { s with keys := k :: s.keys.tail }

/-- the next token may be a key, if one may start here -/
def holdKey (s : Lexer) : Lexer :=
  if !s.keyAllowed then s
  else
    let required := !s.inFlow && s.indent == s.column && s.indents.head?.any Indent.isBlock
    s.setKeyPlace
      ⟨true, required, s.tokens.size, s.cursor.index, s.cursor.line, s.cursor.column⟩

/-- the possible key is none -/
def dropKey? (s : Lexer) : Option Lexer :=
  if s.keyPlace.possible && s.keyPlace.required then none
  else some (s.setKeyPlace s.keyPlace.dropped)

/-- characters that a key in block style may have -/
def maxKeyLength : Nat := 1024

/-- A key in block style that is too far behind is none. -/
def dropStaleKeys? (s : Lexer) : Option Lexer :=
  let isStale (k : KeyPlace) : Bool := k.possible && !s.inFlow &&
    (k.line < s.cursor.line || k.index + maxKeyLength < s.cursor.index)
  if s.keys.any fun k => isStale k && k.required then none
  else some { s with keys := s.keys.map fun k => if isStale k then k.dropped else k }

/-! ## indentation -/

/-- blocks left that are deeper than a column -/
def leaveFrom (column : Int) : List Indent → Lexer → Lexer
  | [], s => s
  | i :: is, s =>
    if s.indent ≤ column then s
    else
      let t := { s with indent := i.column, indents := is }
      leaveFrom column is (if i.isBlock then t.add .blockEnd s.cursor else t)

/-- blocks left that are deeper than a column, in block style -/
def leave (s : Lexer) (column : Int) : Lexer :=
  if s.inFlow then s else leaveFrom column s.indents s

/-- the innermost indentation given up if it is no block and not deeper than a column -/
def replaceIndent (s : Lexer) (column : Nat) : Lexer :=
  match s.indents with
  | i :: is =>
    if s.indent ≤ column && !i.isBlock then { s with indent := i.column, indents := is } else s
  | [] => s

/-- A block starts at a column if that is deeper than the innermost one; its token stands before
that of a number, or last. -/
def enter (s : Lexer) (column : Nat) (number : Option Nat) (t : Token) : Lexer :=
  if s.inFlow then s
  else
    let s := s.replaceIndent column
    if s.indent < column then
      let s := { s with indent := column, indents := ⟨s.indent, true⟩ :: s.indents }
      s.addBefore (number.getD s.tokens.size) t column
    else s

/-- what follows must be one column deeper than the innermost block -/
def enterColumn (s : Lexer) : Lexer :=
  if !s.inFlow && s.indents.head?.any Indent.isBlock then
    { s with indent := s.indent + 1, indents := ⟨s.indent, false⟩ :: s.indents }
  else s

/-- indentations given up that are no blocks -/
def leaveColumnsFrom : List Indent → Lexer → Lexer
  | [], s => s
  | i :: is, s =>
    if i.isBlock then s else leaveColumnsFrom is { s with indent := i.column, indents := is }

/-- indentations given up that are no blocks -/
def leaveColumns (s : Lexer) : Lexer := leaveColumnsFrom s.indents s

/-! ## gaps -/

/-- Blanks, line breaks and comments skipped, at most `fuel` of them.  A tab may not stand in the
indentation of a block, unless the line is blank. -/
def skipFrom? : Nat → Lexer → Option Lexer
  | 0, s => some s
  | fuel + 1, s =>
    match s.cursor.head? with
    | none => some s
    | some c =>
      if c == '\t' && !s.indents.isEmpty && s.cursor.isIndented && s.column < s.indent then do
        let trail ← s.cursor.toLineEnd? true
        if trail.cursor.isLineEnd then skipFrom? fuel (s.moveTo trail.cursor) else none
      else if isBlank c then skipFrom? fuel (s.moveTo (s.cursor.blanks 1))
      else if isBreak c then
        skipFrom? fuel ((s.moveTo s.cursor.newline).allowKey (s.keyAllowed || !s.inFlow))
      else if c == '#' then skipFrom? fuel (s.moveTo s.cursor.lineEnd)
      else some s

/-- blanks, line breaks and comments skipped -/
def skip? (s : Lexer) : Option Lexer := skipFrom? (s.cursor.rest.length + 1) s

/-- the blanks and the comment at the end of a line skipped -/
def skipLine? (s : Lexer) : Option Lexer :=
  (s.cursor.toLineEnd? true).map fun trail => s.moveTo trail.cursor

/-- Blanks, line breaks and comments behind the mark of a key, at most `fuel` of them, and whether
there are any but comments. -/
def skipMarkGap : Nat → Lexer → Bool → Lexer × Bool
  | 0, s, found => (s, found)
  | fuel + 1, s, found =>
    match s.cursor.head? with
    | none => (s, found)
    | some c =>
      if c == ' ' then skipMarkGap fuel (s.moveTo (s.cursor.blanks 1)) true
      else if isBreak c then
        skipMarkGap fuel ((s.moveTo s.cursor.newline).allowKey (s.keyAllowed || !s.inFlow)) true
      else if c == '#' then skipMarkGap fuel (s.moveTo s.cursor.lineEnd) found
      else (s, found)

/-! ## documents -/

/-- all blocks left -/
def leaveAll? (s : Lexer) : Option Lexer := do
  let s ← (s.leave (-1)).dropKey?
  some (s.allowKey false)

/-- the end of the text -/
def finish? (s : Lexer) : Option Lexer :=
  if s.keys.any fun k => k.required && k.possible then none
  else leaveAll? { s with keys := s.keys.map KeyPlace.dropped }

/-- a directive, up to the end of its line -/
def directive? (s : Lexer) : Option Lexer := do
  let s ← s.leaveAll?
  let (t, r) ← Token.directive? (s.cursor.rest.drop 1)
  let trail ← (s.cursor.upTo r).toLineEnd? true
  if trail.cursor.isLineEnd then some ((s.moveTo trail.cursor.newline).add t s.cursor) else none

/-- the marker of a document -/
def marker? (s : Lexer) (t : Token) : Option Lexer := do
  let s ← s.leaveAll?
  some ((s.moveTo (s.cursor.chars 3)).add t s.cursor)

/-- the marker that ends a document, with nothing behind it -/
def endMarker? (s : Lexer) : Option Lexer := do
  let s ← (← s.marker? .documentEnd).skipLine?
  if s.cursor.isLineEnd then some s else none

/-! ## flow collections -/

/-- the greatest depth of flow collections -/
def maxDepth : Nat := 255

/-- a mapping without braces that is open at this depth ends -/
def closeImplicit (s : Lexer) : Lexer :=
  match s.implicit with
  | some depth :: rest =>
    if depth = s.depth then
      { s with mappingStarted := false, implicit := none :: rest }.add .flowMappingEnd s.cursor
    else s
  | _ => s

/-- a flow collection starts -/
def openFlow? (s : Lexer) (t : Token) : Option Lexer :=
  let place := s.cursor
  let s := s.holdKey.enterColumn
  if maxDepth ≤ s.depth then none
  else
    let s := { s with keys := .none :: s.keys, depth := s.depth + 1, keyAllowed := true }
    let s :=
      if t = .flowMappingStart then { s with mappingStarted := true }
      else { s with implicit := none :: s.implicit }
    ((s.moveTo (place.chars 1)).skipLine?).map fun s => s.add t place

/-- a flow collection ends -/
def closeFlow? (s : Lexer) (t : Token) : Option Lexer := do
  let place := s.cursor
  let s ← s.dropKey?
  let s := if t = .flowSequenceEnd then s.closeImplicit else s
  let s := if s.inFlow then { s with depth := s.depth - 1, keys := s.keys.tail } else s
  let s := if t = .flowSequenceEnd then { s with implicit := s.implicit.tail } else s
  let s ← ((s.allowKey false).moveTo (place.chars 1)).skipLine?
  let s := if s.inFlow then { s with adjacent := some s.cursor.index } else s
  some (s.add t place)

/-- a comma -/
def comma? (s : Lexer) : Option Lexer := do
  let place := s.cursor
  let s := ((← s.dropKey?).allowKey true).closeImplicit
  ((s.moveTo (place.chars 1)).skipLine?).map fun s => s.add .comma place

/-! ## elements, keys and values -/

/-- A name or a tag stands before an element at the start of a line. -/
def isMisplaced (s : Lexer) : Bool :=
  match s.tokens.back? with
  | some (.anchor _, column) | some (.tag .., column) =>
    column == 0 && s.column == 0 && -1 < s.indent
  | _ => false

/-- an element of a sequence in block style -/
def element? (s : Lexer) : Option Lexer := do
  if s.inFlow || !s.keyAllowed || s.isMisplaced then none
  else
    let place := s.cursor
    let s := (s.moveTo (place.chars 1)).enter place.column none .sequenceStart
    let trail ← s.cursor.toLineEnd? true
    let c := trail.cursor
    if trail.tabs && c.head? == some '-' && c.isSpaceAt 1 then none
    else
      let s := s.moveTo (← c.toLineEnd? false).cursor
      let s := if s.cursor.head?.any fun x => isBreak x || isFlow x then s.enterColumn else s
      let s := (← s.dropKey?).allowKey true
      some (s.add .element s.cursor)

/-- the mark of a key -/
def keyMark? (s : Lexer) : Option Lexer := do
  let place := s.cursor
  if !s.inFlow && !s.keyAllowed then none
  else
    let s :=
      if s.inFlow then { s with mappingStarted := true }
      else s.enter place.column none .mappingStart
    let s := (← s.dropKey?).allowKey (!s.inFlow)
    let (s, found) := skipMarkGap place.rest.length (s.moveTo (place.chars 1)) false
    if !found || s.cursor.head? == some '\t' then none else some (s.add .key place)

/-- the place behind the colon of a value; tabs alone may not stand before a word -/
def behindColon? (c : Cursor) : Option Cursor :=
  let c := c.chars 1
  if c.head? = some '\t' then do
    let trail ← c.toLineEnd? true
    if !trail.blanks && trail.cursor.head?.any isWordChar then none else some trail.cursor
  else some c

/-- A colon.  The token that may be a key becomes one; otherwise the key is empty, or was marked. -/
def value? (s : Lexer) : Option Lexer := do
  let key := s.keyPlace
  let place := s.cursor
  let isImplicit := !s.implicit.isEmpty && !s.mappingStarted
  let s := if isImplicit then { s with implicit := some s.depth :: s.implicit.tail } else s
  let s := s.moveTo (← behindColon? place)
  if key.possible then
    let s := s.addBefore key.number .key key.column
    if isImplicit && key.line < place.line then none
    else
      let s := if isImplicit then s.addBefore key.number .flowMappingStart place.column else s
      let s := (s.enter key.column (some key.number) .mappingStart).enterColumn
      let s := (s.setKeyPlace key.dropped).allowKey false
      some (s.add .value place)
  else
    let s := if isImplicit then s.add .flowMappingStart place else s
    if s.inFlow then some ((s.enterColumn.allowKey false).add .value place)
    else if !s.keyAllowed then none
    else
      let s := (s.enter place.column none .mappingStart).enterColumn
      some ((s.allowKey true).add .value place)

/-! ## nodes -/

/-- an anchor or a reference to one after its mark -/
def name? (s : Lexer) (token : String → Token) : Option Lexer := do
  let place := s.cursor
  let s := s.holdKey.allowKey false
  let (name, r) ← Token.name? (place.rest.drop 1)
  some ((s.moveTo (place.upTo r)).add (token name) place)

/-- a tag, with something blank behind it or what goes on a flow collection -/
def tag? (s : Lexer) : Option Lexer := do
  let place := s.cursor
  let s := s.holdKey.allowKey false
  let (t, r) ← Token.tag? place.rest
  if r.head?.all isSpace || (s.inFlow && r.head?.any isFlow) then
    some ((s.moveTo (place.upTo r)).add t place)
  else none

/-- a block of lines -/
def block? (s : Lexer) (folded : Bool) : Option Lexer := do
  let place := s.cursor
  let s := (s.holdKey.allowKey true).leaveColumns
  let (text, c) ← Block.read? folded s.indent place
  some ((s.moveTo c).add (.scalar false text) place)

/-- a quoted scalar, and the gap behind it -/
def quoted? (s : Lexer) (mark : Char) : Option Lexer := do
  let place := s.cursor
  let s := s.holdKey.allowKey false
  let (text, c) ← Quoted.read? mark s.inFlow s.indent place
  let s ← (s.moveTo c).skip?
  some ({ s with adjacent := some s.cursor.index }.add (.scalar false text) place)

/-- a plain scalar -/
def plain? (s : Lexer) : Option Lexer := do
  let place := s.cursor
  let s := (s.holdKey.allowKey false).leaveColumns
  let (text, c) ← Plain.read? s.inFlow (s.indent + 1) place
  let s := s.moveTo c
  some ((s.allowKey (s.keyAllowed || c.isIndented)).add (.scalar true text) place)

/-! ## tokens -/

/-- A colon is the mark of a value. -/
def isValue (s : Lexer) : Bool :=
  s.cursor.isSpaceAt 1 || (s.inFlow &&
    (s.cursor.rest[1]?.any isFlow || s.adjacent == some s.cursor.index))

/-- the token that starts with a character -/
def token? (s : Lexer) (c : Char) : Option Lexer :=
  match c with
  | '[' => s.openFlow? .flowSequenceStart
  | '\x7b' => s.openFlow? .flowMappingStart
  | ']' => s.closeFlow? .flowSequenceEnd
  | '\x7d' => s.closeFlow? .flowMappingEnd
  | ',' => s.comma?
  | '-' => if s.cursor.isSpaceAt 1 then s.element? else s.plain?
  | '?' => if s.cursor.isSpaceAt 1 then s.keyMark? else s.plain?
  | ':' => if s.isValue then s.value? else s.plain?
  | '*' => s.name? .reference
  | '&' => s.name? .anchor
  | '!' => s.tag?
  | '|' => if s.inFlow then s.plain? else s.block? false
  | '>' => if s.inFlow then s.plain? else s.block? true
  | '\'' | '"' => s.quoted? c
  | c => if c == '%' || c == '@' || c.toNat == 0x60 then none else s.plain?

/-- The token behind the gap that follows, if the text does not end there.  Blocks that it stands
outside of are left first. -/
def next? (s : Lexer) : Option Lexer := do
  let s ← (← s.skip?).dropStaleKeys?
  let s := s.leave s.column
  match s.cursor.head? with
  | none => some s
  | some c =>
    if s.column = 0 && c = '%' then s.directive?
    else if s.cursor.isMarker '-' then s.marker? .documentStart
    else if s.cursor.isMarker '.' then s.endMarker?
    else if s.column < s.indent then none
    else s.token? c

/-- the tokens up to the end of the text, at most `fuel` of them -/
def run? : Nat → Lexer → Option Lexer
  | 0, _ => none
  | fuel + 1, s => do
    let s ← s.next?
    if s.cursor.isEnd then s.finish? else run? fuel s

end Lexer

/-- the tokens of a text, which a null character ends -/
def Token.scan? (text : String) : Option (List Token) := do
  let cs := text.toList.takeWhile (· != '\x00')
  let s ← Lexer.run? (cs.length + 1) (.start cs)
  some (s.tokens.toList.map Prod.fst)

end Resumable.Yaml
