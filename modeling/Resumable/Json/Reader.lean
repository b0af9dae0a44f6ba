import Resumable.Json.Held
import Resumable.Decimal.Reading
import Resumable.Text.Hex

/-!
# Reading JSON

The text is cut into tokens, and the tokens are read by an automaton whose stack holds the open
arrays and objects.  A string with a surrogate that has no partner, an object with such a key, and a
container within 127 others are skipped: it is for the reader of the document to say whether they
matter.

* `Json.Token.scan?` : the tokens of a text;
* `Json.read?` : the document of a text;
* `Json.parse?` : the document of a text, in which nothing is skipped.
-/

namespace Resumable.Json

/-! ## tokens -/

inductive Token where
  | openArr | closeArr | openObj | closeObj | colon | comma
  | null
  | bool (b : Bool)
  | num (text : String)
  | str (s : String)
  /-- a string with a surrogate that has no partner -/
  | broken
deriving DecidableEq, Repr

namespace Token

def isBlank (c : Char) : Bool := c == ' ' || c == '\t' || c == '\n' || c == '\r'

/-- the character of two surrogate units -/
def surrogatePair (hi lo : Nat) : Char :=
  Char.ofNat (0x10000 + (hi - 0xD800) * 0x400 + (lo - 0xDC00))

def isHighSurrogate (n : Nat) : Bool := 0xD800 ≤ n && n < 0xDC00
def isLowSurrogate (n : Nat) : Bool := 0xDC00 ≤ n && n < 0xE000

/-- the character of a one-letter escape -/
def escape? : Char → Option Char
  | '"' => some '"'
  | '\\' => some '\\'
  | '/' => some '/'
  | 'b' => some '\x08'
  | 'f' => some '\x0c'
  | 'n' => some '\n'
  | 'r' => some '\r'
  | 't' => some '\t'
  | _ => none

/-- The rest of a string after its opening quote, and what follows the closing one.  It is given by
its code points, among them those of surrogates.  Controls must be escaped. -/
def units? : List Char → Option (List Nat × List Char)
  | [] => none
  | '"' :: r => some ([], r)
  | '\\' :: 'u' :: a :: b :: c :: d :: r =>
    match Text.hexNumber? 0 [a, b, c, d] with
    | some n => (units? r).map fun p => (n :: p.1, p.2)
    | none => none
  | '\\' :: e :: r =>
    match escape? e with
    | some c => (units? r).map fun p => (c.toNat :: p.1, p.2)
    | none => none
  | c :: r => if c.toNat < 0x20 then none else (units? r).map fun p => (c.toNat :: p.1, p.2)

/-- The characters of code points.  A high surrogate stands before a low one, and each of them makes
no sense without the other. -/
def characters? : List Nat → Option (List Char)
  | [] => some []
  | hi :: lo :: r =>
    if isHighSurrogate hi then
      if isLowSurrogate lo then (characters? r).map (surrogatePair hi lo :: ·) else none
    else if isLowSurrogate hi then none
    else (characters? (lo :: r)).map (Char.ofNat hi :: ·)
  | [n] => if isHighSurrogate n || isLowSurrogate n then none else some [Char.ofNat n]

/-- the token of a string by its code points -/
def ofUnits (ns : List Nat) : Token :=
  match characters? ns with
  | some cs => .str (String.ofList cs)
  | none => .broken

def isNumberChar (c : Char) : Bool :=
  Decimal.isDigit c || c == '-' || c == '+' || c == '.' || c == 'e' || c == 'E'

/-- a run of digits that is not empty, and the rest -/
def digits? (cs : List Char) : Option (List Char) :=
  match cs with
  | c :: _ => if Decimal.isDigit c then some (cs.dropWhile Decimal.isDigit) else none
  | [] => none

/-- the exponent of a number, if there is one, up to the end -/
def isExponent : List Char → Bool
  | [] => true
  | c :: r =>
    if c == 'e' || c == 'E' then
      let r := match r with
        | '+' :: r => r
        | '-' :: r => r
        | r => r
      digits? r == some []
    else false

/-- the text is a number: no leading zeros, digits on both sides of the point -/
def isNumber (cs : List Char) : Bool :=
  let cs := match cs with
    | '-' :: r => r
    | r => r
  let whole := match cs with
    | '0' :: r => some r
    | r => digits? r
  match whole with
  | none => false
  | some ('.' :: r) => (digits? r).any isExponent
  | some r => isExponent r

/-- the rest after a word -/
def dropWord? : List Char → List Char → Option (List Char)
  | [], cs => some cs
  | w :: ws, c :: cs => if w = c then dropWord? ws cs else none
  | _ :: _, [] => none

/-- the token at the head of a text, and the rest -/
def next? (c : Char) (r : List Char) : Option (Token × List Char) :=
  match c with
  | '[' => some (.openArr, r)
  | ']' => some (.closeArr, r)
  | '\x7b' => some (.openObj, r)
  | '\x7d' => some (.closeObj, r)
  | ':' => some (.colon, r)
  | ',' => some (.comma, r)
  | '"' => (units? r).map fun p => (ofUnits p.1, p.2)
  | 't' => (dropWord? ['r', 'u', 'e'] r).map fun r => (.bool true, r)
  | 'f' => (dropWord? ['a', 'l', 's', 'e'] r).map fun r => (.bool false, r)
  | 'n' => (dropWord? ['u', 'l', 'l'] r).map fun r => (.null, r)
  | c =>
    let text := (c :: r).takeWhile isNumberChar
    if isNumber text then some (.num (String.ofList text), (c :: r).dropWhile isNumberChar)
    else none

/-- the tokens of a text; `fuel` bounds their number -/
def scanFrom : Nat → List Char → Option (List Token)
  | _, [] => some []
  | 0, _ => none
  | fuel + 1, c :: r =>
    if isBlank c then scanFrom fuel r
    else
      match next? c r with
      | none => none
      | some (t, r) => (scanFrom fuel r).map (t :: ·)

/-- the tokens of a text -/
def scan? (s : String) : Option (List Token) := scanFrom s.toList.length s.toList

end Token

/-! ## documents -/

/-- A key of an object.  There is none for one that cannot be held. -/
abbrev Key := Option String

/-- an array or object whose end has not been read -/
inductive Pending where
  /-- the elements read so far, in reverse -/
  | arr (elems : List Json)
  /-- the members read so far, in reverse, and the key of the next one -/
  | obj (members : List (Key × Json)) (key : Key)

/-- what the next token may be -/
inductive Expect where
  | value
  /-- the first element of an array, or its end -/
  | elemOrEnd
  /-- the first key of an object, or its end -/
  | keyOrEnd
  /-- one more key -/
  | key (members : List (Key × Json))
  | colon (members : List (Key × Json)) (key : Key)
  /-- after a complete value -/
  | after (v : Json)

/-- open containers, innermost first, and what comes next -/
structure State where
  stack : List Pending
  expect : Expect

/-- containers that may be open at once -/
def maxDepth : Nat := 127

/-- an object of its members; it is skipped if a key cannot be held -/
def ofMembers (ms : List (Key × Json)) : Json :=
  match ms.mapM fun m => m.1.map fun k => (k, m.2) with
  | some ms => .obj ms
  | none => .skipped

/-- a container that ends; it is skipped if it lies too deep -/
def State.close (stack : List Pending) (v : Json) : State :=
  ⟨stack, .after (if stack.length < maxDepth then v else .skipped)⟩

/-- a value starts -/
def State.onValue (stack : List Pending) : Token → Option State
  | .null => some ⟨stack, .after .null⟩
  | .bool b => some ⟨stack, .after (.bool b)⟩
  | .num t => some ⟨stack, .after (.num t)⟩
  | .str s => some ⟨stack, .after (.str s)⟩
  | .broken => some ⟨stack, .after .skipped⟩
  | .openArr => some ⟨.arr [] :: stack, .elemOrEnd⟩
  | .openObj => some ⟨stack, .keyOrEnd⟩
  | _ => none

/-- a key is read -/
def State.onKey (stack : List Pending) (ms : List (Key × Json)) : Token → Option State
  | .str k => some ⟨stack, .colon ms (some k)⟩
  | .broken => some ⟨stack, .colon ms none⟩
  | _ => none

/-- one token -/
def State.step (s : State) (t : Token) : Option State :=
  match s.expect with
  | .value => State.onValue s.stack t
  | .elemOrEnd =>
    match t, s.stack with
    | .closeArr, .arr _ :: rest => some (.close rest (.arr []))
    | t, stack => State.onValue stack t
  | .keyOrEnd =>
    match t with
    | .closeObj => some (.close s.stack (.obj []))
    | t => State.onKey s.stack [] t
  | .key ms => State.onKey s.stack ms t
  | .colon ms k =>
    match t with
    | .colon => some ⟨.obj ms k :: s.stack, .value⟩
    | _ => none
  | .after v =>
    match t, s.stack with
    | .comma, .arr es :: rest => some ⟨.arr (v :: es) :: rest, .value⟩
    | .closeArr, .arr es :: rest => some (.close rest (.arr (v :: es).reverse))
    | .comma, .obj ms k :: rest => some ⟨rest, .key ((k, v) :: ms)⟩
    | .closeObj, .obj ms k :: rest => some (.close rest (ofMembers ((k, v) :: ms).reverse))
    | _, _ => none

/-- all tokens -/
def State.run : State → List Token → Option State
  | s, [] => some s
  | s, t :: ts => (s.step t).bind fun s => s.run ts

/-- the document of a text -/
def read? (s : String) : Option Json := do
  let ts ← Token.scan? s
  match ← State.run ⟨[], .value⟩ ts with
  | ⟨[], .after v⟩ => some v
  | _ => none

/-- the document of a text, in which nothing is skipped -/
def parse? (s : String) : Option Json := (read? s).filter isHeld

theorem isHeld_of_parse? {s : String} {j : Json} (h : parse? s = some j) : isHeld j := by
  simp only [parse?, Option.filter_eq_some_iff] at h
  exact h.2

end Resumable.Json
