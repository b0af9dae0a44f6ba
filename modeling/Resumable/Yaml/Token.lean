import Resumable.Text.Hex
import Resumable.Yaml.Cursor

/-!
# Tokens of YAML

* `Token` : what a text is cut into; the indentation of blocks is made explicit in it;
* `Token.tag?`, `Token.directive?`, `Token.name?` : tokens that name something, at the head of a
  text.
-/

namespace Resumable.Yaml

inductive Token where
  /-- the directive of the version -/
  | version
  /-- a directive that says what a handle of tags stands for -/
  | handle (name stem : String)
  | documentStart
  | documentEnd
  | sequenceStart
  | mappingStart
  /-- a sequence or a mapping in block style ends -/
  | blockEnd
  | flowSequenceStart
  | flowSequenceEnd
  | flowMappingStart
  | flowMappingEnd
  /-- an element of a sequence in block style -/
  | element
  /-- a comma -/
  | comma
  | key
  | value
  /-- a copy of the node with an anchor -/
  | reference (name : String)
  | anchor (name : String)
  | tag (handle suffix : String)
  | scalar (plain : Bool) (text : String)
deriving DecidableEq, Repr

namespace Token

/-! ## tags -/

/-- a character of an address -/
def isAddressChar (c : Char) : Bool :=
  c.isAlphanum || c == '-' || "#;/?:@&=+$,_.!~*'()[]%".toList.contains c

/-- a character of a tag behind its handle -/
def isTagChar (c : Char) : Bool := isAddressChar c && !isFlow c && c != '!'

/-- The characters of an address, and the rest.  A character may be given by the bytes that encode
it, of which there are at most two. -/
def address? (isPart : Char → Bool) : List Char → Option (List Char × List Char)
  | '%' :: a :: b :: r =>
    match Text.hexNumber? 0 [a, b] with
    | none => none
    | some n =>
      if n < 0x80 then (address? isPart r).map fun p => (Char.ofNat n :: p.1, p.2)
      else
        match r with
        | '%' :: c :: d :: r =>
          match Text.hexNumber? 0 [c, d], Text.hexChar? [a, b, c, d] with
          | some m, some x =>
            if 0xc0 ≤ n && n < 0xe0 && 0x80 ≤ m && m < 0xc0 then
              (address? isPart r).map fun p => (x :: p.1, p.2)
            else none
          | _, _ => none
        | _ => none
  | c :: r =>
    if c = '%' then none
    else if isPart c then (address? isPart r).map fun p => (c :: p.1, p.2)
    else some ([], c :: r)
  | [] => some ([], [])

/-- the handle of a tag with its marks of exclamation, the second of which may be missing -/
def handle? : List Char → Option (String × Bool × List Char)
  | '!' :: r =>
    let word := '!' :: r.takeWhile isWordChar
    match r.dropWhile isWordChar with
    | '!' :: r => some (String.ofList (word ++ ['!']), true, r)
    | r => some (String.ofList word, false, r)
  | _ => none

/-- A tag: an address in angle brackets, or a handle with a suffix.  A lone mark of exclamation is a
suffix without a handle. -/
def tag? (cs : List Char) : Option (Token × List Char) := do
  match cs with
  | '!' :: '<' :: r =>
    match ← address? isAddressChar r with
    | (u, '>' :: r) => some (.tag "" (String.ofList u), r)
    | _ => none
  | cs =>
    let (name, isClosed, r) ← handle? cs
    let (suffix, r) ← address? isTagChar r
    if isClosed then
      if suffix.isEmpty then none else some (.tag name (String.ofList suffix), r)
    else
      let suffix := String.ofList (name.toList.drop 1 ++ suffix)
      some (if suffix.isEmpty then .tag "" "!" else .tag "!" suffix, r)

/-! ## directives -/

/-- digits of a version, at most nine, and the rest -/
def versionNumber? (cs : List Char) : Option (List Char) :=
  let n := (cs.takeWhile Char.isDigit).length
  if n = 0 || 9 < n then none else some (cs.drop n)

/-- two numbers with a point between them -/
def version? (cs : List Char) : Option (Token × List Char) := do
  match ← versionNumber? (cs.dropWhile isBlank) with
  | '.' :: r => some (.version, ← versionNumber? r)
  | _ => none

/-- what the tags of a handle start with: an address that may start with a mark of exclamation -/
def stem? : List Char → Option (List Char × List Char)
  | '!' :: r => (address? isAddressChar r).map fun p => ('!' :: p.1, p.2)
  | c :: r => if isTagChar c then address? isAddressChar (c :: r) else none
  | [] => none

/-- a handle, and what its tags start with -/
def handleDirective? (cs : List Char) : Option (Token × List Char) := do
  let (name, isClosed, r) ← handle? (cs.dropWhile isBlank)
  if !isClosed && name != "!" then none
  else
    let (stem, r) ← stem? (r.dropWhile isBlank)
    if r.head?.all isSpace then some (.handle name (String.ofList stem), r) else none

/-- A directive after its mark.  One that is not known counts as a handle of nothing. -/
def directive? (cs : List Char) : Option (Token × List Char) :=
  let name := cs.takeWhile isWordChar
  let r := cs.dropWhile isWordChar
  if name.isEmpty || !r.head?.all isSpace then none
  else if name = ['Y', 'A', 'M', 'L'] then version? r
  else if name = ['T', 'A', 'G'] then handleDirective? r
  else some (.handle "" "", r.dropWhile fun c => !isBreak c)

/-! ## anchors -/

/-- a character of the name of an anchor -/
def isNameChar (c : Char) : Bool := !isSpace c && !isFlow c && c != '\uFEFF'

/-- the name of an anchor, and the rest -/
def name? (cs : List Char) : Option (String × List Char) :=
  let name := cs.takeWhile isNameChar
  if name.isEmpty then none else some (String.ofList name, cs.dropWhile isNameChar)

end Token

end Resumable.Yaml
