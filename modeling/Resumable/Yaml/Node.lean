import Resumable.Decimal.Reading
import Resumable.Yaml.Token

/-!
# Nodes of YAML

A document is one node: a scalar, a sequence or a mapping.  What a plain scalar is follows from its
text or its tag, any other scalar is a text.  A reference is a copy of the node that its anchor
names.

* `Node.ofPlain`, `Node.ofTagged` : the node of a plain scalar;
* `Node.mapping?` : the mapping of keys and values that follow one another;
* `Node.ofTokens?` : the document of some tokens.
-/

namespace Resumable.Yaml

/-- a key of a mapping -/
inductive Key where
  | bool (b : Bool)
  | int (n : Int)
  /-- a floating number by its text -/
  | real (text : String)
  | str (s : String)
deriving DecidableEq, Repr

inductive Node where
  /-- a scalar that is not what its tag says, or a copy of a node that is not complete -/
  | bad
  | null
  /-- a scalar that may be a key -/
  | scalar (k : Key)
  | sequence (elems : List Node)
  | mapping (entries : List (Key × Node))

namespace Node

/-! ## scalars -/

/-- an integer of 64 bits -/
def int? (text : String) : Option Node :=
  (Decimal.readInt64? text).map fun n => .scalar (.int n.toInt)

/-- digits of a base with an optional sign -/
def based? (base : Nat) (cs : List Char) : Option Node := do
  let (neg, ds) := Decimal.splitSign cs
  let digit? (c : Char) : Option Nat := (Text.hexValue? c).filter (· < base)
  let n := (← ds.mapM digit?).foldl (fun n d => base * n + d) 0
  if ds.isEmpty then none else int? (toString (if neg then -(n : Int) else n))

/-- words that are floating numbers -/
def realWords : List String :=
  [".inf", ".Inf", ".INF", "+.inf", "+.Inf", "+.INF", "-.inf", "-.Inf", "-.INF", ".nan", "NaN",
    ".NAN"]

/-- the text is a floating number: one of some words, or one that has a digit -/
def isReal (text : String) : Bool :=
  realWords.contains text ||
    (text.toList.any Decimal.isDigit && (Decimal.readDouble? text).isSome)

/-- an integer with a mark for its base, or with a plus -/
def marked? (cs : List Char) : Option Node :=
  match cs with
  | '0' :: 'x' :: r => based? 16 r
  | '0' :: 'o' :: r => based? 8 r
  | '+' :: r => int? (String.ofList r)
  | _ => none

/-- a plain scalar without a tag -/
def ofPlain (text : String) : Node :=
  match marked? text.toList with
  | some n => n
  | none =>
    if text = "" ∨ text = "~" ∨ text = "null" then .null
    else if text = "true" then .scalar (.bool true)
    else if text = "false" then .scalar (.bool false)
    else
      match int? text with
      | some n => n
      | none => .scalar (if isReal text then .real text else .str text)

/-- the handle of the tags that all documents know -/
def coreHandle : String := "tag:yaml.org,2002:"

/-- a plain scalar with a tag -/
def ofTagged (handle suffix text : String) : Node :=
  if handle != coreHandle then .scalar (.str text)
  else
    match suffix with
    | "bool" =>
      if text = "true" then .scalar (.bool true)
      else if text = "false" then .scalar (.bool false)
      else .bad
    | "int" => (int? text).getD .bad
    | "float" => if isReal text then .scalar (.real text) else .bad
    | "null" => if text = "~" ∨ text = "null" then .null else .bad
    | _ => .scalar (.str text)

/-- a scalar with or without a tag -/
def ofScalar (plain : Bool) (text : String) : Option (String × String) → Node
  | none => if plain then ofPlain text else .scalar (.str text)
  | some (handle, suffix) => if plain then ofTagged handle suffix text else .scalar (.str text)

/-! ## mappings -/

/-- a mapping while its nodes come in: its entries, and the key whose value comes next -/
abbrev MappingDraft := List (Key × Node) × Option Key

/-- One more node.  Keys are scalars and stand once; a bad one is none. -/
def addNode? : MappingDraft → Node → Option MappingDraft
  | (es, some k), v => if (es.lookup k).isSome then none else some (es ++ [(k, v)], none)
  | (es, none), .bad => some (es, none)
  | (es, none), .scalar k => some (es, some k)
  | (_, none), _ => none

/-- the mapping of keys and values that follow one another -/
def mapping? (nodes : List Node) : Option Node :=
  (nodes.foldlM addNode? ([], none)).map fun d => .mapping d.1

theorem mapping?_nil : mapping? [] = some (.mapping []) := rfl

/-! ## documents -/

/-- what is left of the tokens of a document, and what was named in it -/
structure Reader where
  tokens : List Token
  /-- what the handles of tags stand for -/
  handles : List (String × String)
  /-- the anchors in order, with their nodes once these are complete -/
  anchors : List (String × Option Node)

/-- what reads something out of tokens -/
abbrev Read (α : Type) := StateT Reader Option α

namespace Read

def head? : Read (Option Token) := return (← get).tokens.head?

/-- the next token dropped -/
def skip : Read Unit := modify fun s => { s with tokens := s.tokens.tail }

/-- nothing can be read -/
def refuse {α : Type} : Read α := StateT.lift none

end Read

open Read

/-- what a tag stands for -/
def tagOf? (handles : List (String × String)) (handle suffix : String) :
    Option (String × String) :=
  match handles.lookup handle with
  | some stem => some (stem, suffix)
  | none =>
    if handle = "!!" then some (coreHandle, suffix)
    else if 2 ≤ handle.length && handle.endsWith "!" then none
    else some (handle, suffix)

/-- one more anchor, by its number -/
def register (name : String) : Read Nat := do
  let s ← get
  set { s with anchors := s.anchors ++ [(name, none)] }
  return s.anchors.length

/-- the node of an anchor -/
def complete (number : Option Nat) (n : Node) : Read Unit :=
  match number with
  | none => return
  | some i =>
    modify fun s => { s with anchors := s.anchors.modify i fun a => (a.1, some n) }

/-- the node that the latest anchor of a name stands for -/
def referent (name : String) : Read Node := do
  match (← get).anchors.reverse.find? fun a => a.1 == name with
  | some (_, n) => return n.getD .bad
  | none => refuse

/-- an anchor, if one stands here -/
def anchor : Read (Option Nat) := do
  match ← head? with
  | some (.anchor name) =>
    skip
    return some (← register name)
  | _ => return none

/-- a tag, if one stands here -/
def tag : Read (Option (String × String)) := do
  match ← head? with
  | some (.tag handle suffix) =>
    skip
    match tagOf? (← get).handles handle suffix with
    | some t => return some t
    | none => refuse
  | _ => return none

/-- an anchor and a tag in either order -/
def properties : Read (Option Nat × Option (String × String)) := do
  match ← anchor with
  | some a => return (some a, ← tag)
  | none =>
    match ← tag with
    | some t => return (← anchor, some t)
    | none => return (none, none)

/-- the mapping of keys and values that were read -/
def mapped (nodes : List Node) : Read Node := StateT.lift (mapping? nodes)

/-- Tokens before which a key or a value in block style is empty. -/
def endsBlockPart : Option Token → Bool
  | some .key | some .value | some .blockEnd => true
  | _ => false

mutual

/-- A node.  In block style a collection may start at its column, and a sequence that is a value may
stand at the column of its key. -/
def node : Nat → Bool → Bool → Read Node
  | 0, _, _ => refuse
  | fuel + 1, inBlock, atKey => do
    if let some (.reference name) := ← head? then
      skip
      return ← referent name
    let (number, t) ← properties
    let n ← content fuel inBlock atKey number.isSome t
    complete number n
    return n

/-- what stands behind the anchor and the tag of a node -/
def content : Nat → Bool → Bool → Bool → Option (String × String) → Read Node
  | 0, _, _, _, _ => refuse
  | fuel + 1, inBlock, atKey, named, t => do
    match ← head?, inBlock, atKey with
    | some .element, _, true => return .sequence (← elementsAtKey fuel)
    | some (.scalar plain text), _, _ =>
      skip
      return ofScalar plain text t
    | some .flowSequenceStart, _, _ =>
      skip
      return .sequence (← flowElements fuel true)
    | some .flowMappingStart, _, _ =>
      skip
      mapped (← flowEntries fuel true)
    | some .sequenceStart, true, _ =>
      skip
      return .sequence (← elements fuel)
    | some .mappingStart, true, _ =>
      skip
      mapped (← entries fuel)
    | _, _, _ => if named || t.isSome then return ofScalar true "" t else refuse

/-- the elements of a sequence up to its end -/
def elements : Nat → Read (List Node)
  | 0 => refuse
  | fuel + 1 => do
    match ← head? with
    | some .blockEnd =>
      skip
      return []
    | some .element =>
      skip
      let isEmpty := match ← head? with
        | some .element | some .blockEnd => true
        | _ => false
      let n ← if isEmpty then pure .null else node fuel true false
      return n :: (← elements fuel)
    | _ => refuse

/-- the elements of a sequence at the column of its key -/
def elementsAtKey : Nat → Read (List Node)
  | 0 => refuse
  | fuel + 1 => do
    match ← head? with
    | some .element =>
      skip
      let next ← head?
      let n ← if next = some .element || endsBlockPart next then pure .null
        else node fuel true false
      return n :: (← elementsAtKey fuel)
    | _ => return []

/-- the keys and values of a mapping up to its end -/
def entries : Nat → Read (List Node)
  | 0 => refuse
  | fuel + 1 => do
    match ← head? with
    | some .blockEnd =>
      skip
      return []
    | some .key =>
      skip
      let k ← part fuel
      let v ← entryValue fuel
      return k :: v :: (← entries fuel)
    | some .value =>
      let v ← entryValue fuel
      return .null :: v :: (← entries fuel)
    | _ => refuse

/-- a key or a value in block style, which may be empty -/
def part : Nat → Read Node
  | 0 => refuse
  | fuel + 1 => do
    if endsBlockPart (← head?) then return .null else node fuel true true

/-- the value of a key in block style -/
def entryValue : Nat → Read Node
  | 0 => refuse
  | fuel + 1 => do
    match ← head? with
    | some .value =>
      skip
      part fuel
    | _ => return .null

/-- the elements of a sequence in flow style, up to its bracket -/
def flowElements : Nat → Bool → Read (List Node)
  | 0, _ => refuse
  | fuel + 1, isFirst => do
    match ← head?, isFirst with
    | some .flowSequenceEnd, _ =>
      skip
      return []
    | some .comma, false => skip
    | _, false => refuse
    | _, true => pure ()
    match ← head? with
    | some .flowSequenceEnd =>
      skip
      return []
    | some .key =>
      skip
      let n ← flowPair fuel
      return n :: (← flowElements fuel false)
    | _ =>
      let n ← node fuel false false
      return n :: (← flowElements fuel false)

/-- a mapping of one key without braces; what follows an empty key is lost -/
def flowPair : Nat → Read Node
  | 0 => refuse
  | fuel + 1 => do
    let isEmpty := match ← head? with
      | some .value | some .comma | some .flowSequenceEnd => true
      | _ => false
    let k ← if isEmpty then do
        skip
        pure .null
      else node fuel false false
    let v ← flowValue fuel
    mapped [k, v]

/-- the keys and values of a mapping in flow style, up to its brace -/
def flowEntries : Nat → Bool → Read (List Node)
  | 0, _ => refuse
  | fuel + 1, isFirst => do
    match ← head?, isFirst with
    | some .flowMappingEnd, _ =>
      skip
      return []
    | some .comma, false => skip
    | _, false => refuse
    | _, true => pure ()
    match ← head? with
    | some .flowMappingEnd =>
      skip
      return []
    | some .key =>
      skip
      let isEmpty := match ← head? with
        | some .value | some .comma | some .flowMappingEnd => true
        | _ => false
      let k ← if isEmpty then pure .null else node fuel false false
      let v ← flowValue fuel
      return k :: v :: (← flowEntries fuel false)
    | some .value =>
      let v ← flowValue fuel
      return .null :: v :: (← flowEntries fuel false)
    | _ =>
      let k ← node fuel false false
      return k :: .null :: (← flowEntries fuel false)

/-- the value of a key in flow style -/
def flowValue : Nat → Read Node
  | 0 => refuse
  | fuel + 1 => do
    match ← head? with
    | some .value =>
      skip
      match ← head? with
      | some .comma | some .flowSequenceEnd | some .flowMappingEnd => return .null
      | _ => node fuel false false
    | _ => return .null

end

/-! ## documents -/

/-- The directives of a document.  What they say of handles holds only for the last one. -/
def directives (version : Bool) : List Token → Read Unit
  | .version :: ts => do
    if version then refuse
    else
      set (⟨ts, [], []⟩ : Reader)
      directives true ts
  | .handle name stem :: ts => do
    set (⟨ts, [(name, stem)], []⟩ : Reader)
    directives version ts
  | _ => return

/-- a document behind its marker -/
def marked (fuel : Nat) : Read Node := do
  match ← head? with
  | some .version | some (.handle ..) | some .documentStart | some .documentEnd | none =>
    return .null
  | _ => node fuel true false

/-- a document with its directives and its marker; without directives the marker may be missing -/
def document (fuel : Nat) : Read Node := do
  let before ← head?
  directives false (← get).tokens
  match ← head?, before with
  | some .documentStart, _ =>
    skip
    marked fuel
  | _, some .version | _, some (.handle ..) => refuse
  | _, _ => node fuel true false

/-- a token that ends a document -/
def isDocumentEnd (t : Token) : Bool := t == .documentEnd

/-- the document of some tokens, if there is one; there must not be two of them -/
def ofTokens? (ts : List Token) : Option (Option Node) :=
  match ts.dropWhile isDocumentEnd with
  | [] => some none
  | ts => do
    let (n, s) ← (document (4 * ts.length + 16)).run ⟨ts, [], []⟩
    if s.tokens.all isDocumentEnd then some (some n) else none

end Node

end Resumable.Yaml
