import Resumable.Text.Hex

/-!
# Strings of TOML

A string stands in quotes or in apostrophes, on one line or, between three of them, on several.
Escapes are read in quotes only; a line break is always read as a line feed, and one directly after
three opening marks is dropped.  The text up to the closing marks is cut off first and read after.

* `Toml.quotation?` : the string at the head of a text that starts with its mark, and the rest.
-/

namespace Resumable.Toml

/-! ## cutting off -/

/-- The raw text up to a closing mark, and what follows the mark.  With escapes, a mark after a
backslash closes nothing. -/
def untilMark? (mark : Char) (escapes : Bool) : List Char → Option (List Char × List Char)
  | [] => none
  | c :: r =>
    if c = mark then some ([], r)
    else if escapes && c == '\\' then
      match r with
      | d :: r => (untilMark? mark escapes r).map fun p => (c :: d :: p.1, p.2)
      | [] => none
    else (untilMark? mark escapes r).map fun p => (c :: p.1, p.2)

/-- Three closing marks, and one or two before them that belong to the text: these, and what
follows. -/
def closing? (mark : Char) : List Char → Option (List Char × List Char)
  | a :: b :: c :: r =>
    if a = mark ∧ b = mark ∧ c = mark then
      let surplus := (r.takeWhile (· == mark)).take 2
      some (surplus, r.drop surplus.length)
    else none
  | _ => none

/-- the raw text up to three closing marks, and what follows them -/
def untilMarks? (mark : Char) (escapes : Bool) : List Char → Option (List Char × List Char)
  | [] => none
  | c :: r =>
    match closing? mark (c :: r) with
    | some p => some p
    | none =>
      if escapes && c == '\\' then
        match r with
        | d :: r => (untilMarks? mark escapes r).map fun p => (c :: d :: p.1, p.2)
        | [] => none
      else (untilMarks? mark escapes r).map fun p => (c :: p.1, p.2)

/-- a line break dropped -/
def dropBreak : List Char → List Char
  | '\n' :: r => r
  | '\x0d' :: '\n' :: r => r
  | r => r

/-! ## reading -/

def isBlank (c : Char) : Bool := c == ' ' || c == '\t'

/-- a character that stands for itself: no control but the tab -/
def isPlain (c : Char) : Bool := c == '\t' || (0x20 ≤ c.toNat && c.toNat != 0x7f)

/-- the character of an escape of one letter -/
def escape? : Char → Option Char
  | 'b' => some '\x08'
  | 't' => some '\t'
  | 'n' => some '\n'
  | 'f' => some '\x0c'
  | 'r' => some '\x0d'
  | '"' => some '"'
  | '\\' => some '\\'
  | _ => none

/-- the rest of a line is blank -/
def isBlankToBreak (cs : List Char) : Bool :=
  match cs.dropWhile isBlank with
  | '\n' :: _ => true
  | '\x0d' :: '\n' :: _ => true
  | _ => false

/-- how a raw text is read -/
structure Reading where
  escapes : Bool
  /-- line breaks may stand in the text -/
  breaks : Bool

/-- The text that a raw one stands for.  A backslash before a line break drops all blanks and line
breaks up to the next character: that is `skipping`. -/
def Reading.text? (m : Reading) : Bool → List Char → Option (List Char)
  | _, [] => some []
  | skipping, '\x0d' :: '\n' :: r =>
    if !m.breaks then none
    else if skipping then m.text? true r
    else (m.text? false r).map ('\n' :: ·)
  | skipping, '\n' :: r =>
    if !m.breaks then none
    else if skipping then m.text? true r
    else (m.text? false r).map ('\n' :: ·)
  | _, '\\' :: r =>
    if !m.escapes then (m.text? false r).map ('\\' :: ·)
    else
      match r with
      | 'u' :: a :: b :: c :: d :: r => do
        let x ← Text.hexChar? [a, b, c, d]
        (m.text? false r).map (x :: ·)
      | 'U' :: a :: b :: c :: d :: e :: f :: g :: h :: r => do
        let x ← Text.hexChar? [a, b, c, d, e, f, g, h]
        (m.text? false r).map (x :: ·)
      | c :: r' =>
        if m.breaks && isBlankToBreak (c :: r') then m.text? true (c :: r')
        else do
          let x ← escape? c
          (m.text? false r').map (x :: ·)
      | [] => none
  | skipping, c :: r =>
    if skipping && isBlank c then m.text? true r
    else if isPlain c then (m.text? false r).map (c :: ·)
    else none

/-- the reading of a mark: escapes are for quotes -/
def reading (mark : Char) (breaks : Bool) : Reading := ⟨mark == '"', breaks⟩

/-- a string of one line after its opening mark -/
def line? (mark : Char) (cs : List Char) : Option (String × List Char) := do
  let (raw, rest) ← untilMark? mark (mark == '"') cs
  let text ← (reading mark false).text? false raw
  some (String.ofList text, rest)

/-- a string of several lines after its opening marks -/
def lines? (mark : Char) (cs : List Char) : Option (String × List Char) := do
  let (raw, rest) ← untilMarks? mark (mark == '"') (dropBreak cs)
  let text ← (reading mark true).text? false raw
  some (String.ofList text, rest)

/-- a string after its opening mark, which two more may follow -/
def quotation? (mark : Char) (cs : List Char) : Option (String × List Char) :=
  match cs with
  | a :: b :: r => if a = mark ∧ b = mark then lines? mark r else line? mark cs
  | _ => line? mark cs

end Resumable.Toml
