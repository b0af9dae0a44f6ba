/-!
# Readers with a furthest failure

A reader takes a text from an offset on and gives a value and the rest, or fails; in both cases it
tells the greatest offset at which a rule was tried in vain.  That offset is where a malformed text
is reported.  Blanks and comments stand between the parts of a rule, never inside a token, and do
not reach over the end of a line.

* `Reader` : readers, with sequence, choice and repetition;
* `Reader.rule` : a reader whose failure is recorded;
* `Reader.skip` : blanks and comments.
-/

namespace Resumable.Assembly

/-- the rest of a text and the offset at which it starts, in characters -/
structure Cursor where
  rest : List Char
  offset : Nat
deriving DecidableEq, Repr

/-- what a reader found, and the greatest offset at which a rule failed -/
structure Outcome (α : Type) where
  found : Option (α × Cursor)
  furthest : Nat

/-- a reader of values of a type -/
abbrev Reader (α : Type) := Cursor → Outcome α

namespace Reader

variable {α β : Type}

def pure (a : α) : Reader α := fun c => ⟨some (a, c), 0⟩

def fail : Reader α := fun _ => ⟨none, 0⟩

/-- one reader after another -/
def bind (p : Reader α) (f : α → Reader β) : Reader β := fun c =>
  let o := p c
  match o.found with
  | none => ⟨none, o.furthest⟩
  | some (a, c) =>
    let u := f a c
    ⟨u.found, max o.furthest u.furthest⟩

instance : Monad Reader where
  pure := Reader.pure
  bind := Reader.bind

/-- the first reader, or at the same place the second -/
def orElse (p q : Reader α) : Reader α := fun c =>
  let o := p c
  match o.found with
  | some r => ⟨some r, o.furthest⟩
  | none =>
    let u := q c
    ⟨u.found, max o.furthest u.furthest⟩

/-- the value of a reader, or nothing where it fails -/
def optional (p : Reader α) : Reader (Option α) := fun c =>
  let o := p c
  match o.found with
  | some (a, c) => ⟨some (some a, c), o.furthest⟩
  | none => ⟨some (none, c), o.furthest⟩

/-- a reader whose failure is recorded at the offset where it started -/
def rule (p : Reader α) : Reader α := fun c =>
  let o := p c
  match o.found with
  | some r => ⟨some r, o.furthest⟩
  | none => ⟨none, max c.offset o.furthest⟩

/-- where the reader stands -/
def offset : Reader Nat := fun c => ⟨some (c.offset, c), 0⟩

/-! ## characters -/

/-- the characters of a word, in order -/
def word (w : List Char) : Reader Unit := fun c =>
  if w.isPrefixOf c.rest then
    ⟨some ((), ⟨c.rest.drop w.length, c.offset + w.length⟩), 0⟩
  else ⟨none, 0⟩

/-- the longest run of characters that pass a test -/
def run (test : Char → Bool) : Reader (List Char) := fun c =>
  let taken := c.rest.takeWhile test
  ⟨some (taken, ⟨c.rest.drop taken.length, c.offset + taken.length⟩), 0⟩

/-- the longest run of characters that pass a test, at least one -/
def run1 (test : Char → Bool) : Reader (List Char) := fun c =>
  let o := run test c
  match o.found with
  | some ([], _) => ⟨none, 0⟩
  | _ => o

/-- the next character, if it is not one that passes the test -/
def notFollowedBy (test : Char → Bool) : Reader Unit := fun c =>
  match c.rest with
  | ch :: _ => if test ch then ⟨none, 0⟩ else ⟨some ((), c), 0⟩
  | [] => ⟨some ((), c), 0⟩

/-- the end of the text -/
def endOfText : Reader Unit := fun c =>
  if c.rest.isEmpty then ⟨some ((), c), 0⟩ else ⟨none, 0⟩

/-! ## blanks, comments, line ends -/

def isBlank (c : Char) : Bool := c == ' ' || c == '\t'

def isLineEnd (c : Char) : Bool := c == '\n' || c == '\r'

/-- characters of a comment at the head of a text, up to the end of the line -/
def commentLength : List Char → Nat
  | '#' :: r => 1 + (r.takeWhile fun c => !isLineEnd c).length
  | '/' :: '/' :: r => 2 + (r.takeWhile fun c => !isLineEnd c).length
  | _ => 0

/-- characters of blanks and a comment at the head of a text -/
def skipLength (cs : List Char) : Nat :=
  let blanks := (cs.takeWhile isBlank).length
  blanks + commentLength (cs.drop blanks)

/-- blanks and a comment, if there are any -/
def skip : Reader Unit := fun c =>
  let n := skipLength c.rest
  ⟨some ((), ⟨c.rest.drop n, c.offset + n⟩), 0⟩

/-- one end of a line: a line feed, or a carriage return with or without a line feed -/
def lineEnd : Reader Unit := fun c =>
  match c.rest with
  | '\n' :: r => ⟨some ((), ⟨r, c.offset + 1⟩), 0⟩
  | '\r' :: '\n' :: r => ⟨some ((), ⟨r, c.offset + 2⟩), 0⟩
  | '\r' :: r => ⟨some ((), ⟨r, c.offset + 1⟩), 0⟩
  | _ => ⟨none, 0⟩

/-! ## repetition -/

/-- a part of a rule, after blanks -/
def next (p : Reader α) : Reader α := bind skip fun _ => p

/-- further values, each after blanks, at most `fuel` -/
def moreFrom (p : Reader α) : Nat → Reader (List α)
  | 0 => pure []
  | fuel + 1 => fun c =>
    let o := next p c
    match o.found with
    | none => ⟨some ([], c), o.furthest⟩
    | some (a, d) =>
      let u := moreFrom p fuel d
      ⟨u.found.map fun r => (a :: r.1, r.2), max o.furthest u.furthest⟩

/-- Values one after another, as many as there are, blanks between them.  Each of them takes a
character, and one more attempt fails at the end. -/
def many (p : Reader α) : Reader (List α) := fun c =>
  let o := p c
  match o.found with
  | none => ⟨some ([], c), o.furthest⟩
  | some (a, d) =>
    let u := moreFrom p (d.rest.length + 1) d
    ⟨u.found.map fun r => (a :: r.1, r.2), max o.furthest u.furthest⟩

/-- at least one value -/
def many1 (p : Reader α) : Reader (List α) := fun c =>
  let o := many p c
  match o.found with
  | some ([], _) => ⟨none, o.furthest⟩
  | _ => o

end Reader

end Resumable.Assembly
