import Resumable.Assembly.Cursor

/-!
# The grammar of assembly text

A source is a list of classes; a class is a head and a body of lines, each a field or a method, and
a method is a head and a body of lines, each a label, a directive or an instruction.  The tree of a
source keeps the offset of every part that an error may point to.

* `Source.parse` : the classes of a source, or the offset of its first malformed place;
* `Position.ofOffset` : line and column of an offset.
-/

namespace Resumable.Assembly

/-! ## trees -/

/-- an operand of a line -/
inductive Operand where
  | word (text : String)
  /-- the inside of a literal, escapes unread -/
  | literal (inner : String)
deriving DecidableEq, Repr

/-- an instruction or a directive with its operands -/
structure Line where
  offset : Nat
  opcode : String
  operands : List Operand
deriving DecidableEq, Repr

/-- a line of a method -/
inductive BodyLine where
  | label (offset : Nat) (name : String)
  | directive (line : Line)
  | insn (line : Line)
deriving DecidableEq, Repr

/-- the number of locals as it is written, with its place -/
structure LocalsClause where
  offset : Nat
  count : String
deriving DecidableEq, Repr

structure MethodDecl where
  offset : Nat
  isStatic : Bool
  name : String
  desc : String
  locals : Option LocalsClause
  body : List BodyLine
deriving DecidableEq, Repr

structure FieldDecl where
  isStatic : Bool
  name : String
  desc : String
deriving DecidableEq, Repr

/-- a line of a class -/
inductive Member where
  | field (f : FieldDecl)
  | method (m : MethodDecl)
deriving DecidableEq, Repr

structure ClassDecl where
  offset : Nat
  name : String
  superName : Option String
  interfaces : List String
  members : List Member
deriving DecidableEq, Repr

/-! ## tokens -/

def isAlphanumeric (c : Char) : Bool :=
  ('a' ≤ c && c ≤ 'z') || ('A' ≤ c && c ≤ 'Z') || ('0' ≤ c && c ≤ '9')

/-- characters of names, ASCII only -/
def isNameChar (c : Char) : Bool :=
  isAlphanumeric c || c == '_' || c == '$' || c == '/' || c == '<' || c == '>' || c == '[' ||
    c == ';' || c == '(' || c == ')' || c == '.' || c == '-'

def isOpcodeChar (c : Char) : Bool := isAlphanumeric c || c == '_'

open Reader

def name : Reader String := rule do return String.ofList (← run1 isNameChar)

def opcode : Reader String := rule do return String.ofList (← run1 isOpcodeChar)

def number : Reader String := rule do
  return String.ofList (← run1 fun c => '0' ≤ c && c ≤ '9')

/-- characters of a word operand: all up to a blank, the end of the line, a quote or a comment -/
def wordLength : List Char → Nat
  | [] => 0
  | c :: r =>
    if isBlank c || isLineEnd c || c == '"' || c == '#' then 0
    else if c == '/' && r.head? == some '/' then 0
    else 1 + wordLength r

def wordOperand : Reader Operand := rule fun c =>
  match wordLength c.rest with
  | 0 => ⟨none, 0⟩
  | n => ⟨some (.word (String.ofList (c.rest.take n)), ⟨c.rest.drop n, c.offset + n⟩), 0⟩

/-- the inside of a literal and what follows its closing quote; a backslash takes the character
after it along -/
def literalBody? : List Char → Option (List Char × List Char)
  | [] => none
  | '"' :: r => some ([], r)
  | '\\' :: c :: r => (literalBody? r).map fun p => ('\\' :: c :: p.1, p.2)
  | '\\' :: [] => none
  | c :: r => (literalBody? r).map fun p => (c :: p.1, p.2)

def literalOperand : Reader Operand := rule fun c =>
  match c.rest with
  | '"' :: r =>
    match literalBody? r with
    | some (inner, rest) =>
      ⟨some (.literal (String.ofList inner), ⟨rest, c.offset + inner.length + 2⟩), 0⟩
    | none => ⟨none, 0⟩
  | _ => ⟨none, 0⟩

def operand : Reader Operand := orElse literalOperand wordOperand

/-- the word `static`, not the start of a longer name -/
def staticWord : Reader Unit := rule do
  word "static".toList
  notFollowedBy isNameChar

/-! ## bodies of methods -/

def labelLine : Reader BodyLine := rule do
  let at_ ← offset
  let n ← name
  next (word [':'])
  return .label at_ n

def directiveLine : Reader BodyLine := rule do
  let at_ ← offset
  word ['.']
  let op ← next opcode
  let operands ← next (many operand)
  return .directive ⟨at_, op, operands⟩

def insnLine : Reader BodyLine := rule do
  let at_ ← offset
  let op ← opcode
  let operands ← next (many operand)
  return .insn ⟨at_, op, operands⟩

def bodyLine : Reader BodyLine := orElse labelLine (orElse directiveLine insnLine)

/-- a line that may be empty, with its end -/
def terminated {α : Type} (p : Reader α) : Reader (Option α) := do
  let line ← optional p
  next lineEnd
  return line

/-- an opening brace with the end of its line, lines, a closing brace -/
def block {α : Type} (p : Reader α) : Reader (List α) := do
  word ['\x7b']
  next lineEnd
  let lines ← next (many (terminated p))
  next (word ['\x7d'])
  return lines.filterMap id

/-! ## declarations -/

def localsClause : Reader LocalsClause := rule do
  let at_ ← offset
  word "locals".toList
  let n ← next number
  return ⟨at_, n⟩

def methodDecl : Reader Member := rule do
  let at_ ← offset
  word "method".toList
  let isStatic ← next (optional staticWord)
  let n ← next name
  let d ← next name
  let locals ← next (optional localsClause)
  let body ← next (block bodyLine)
  return .method ⟨at_, isStatic.isSome, n, d, locals, body⟩

def fieldDecl : Reader Member := rule do
  word "field".toList
  let isStatic ← next (optional staticWord)
  let n ← next name
  let d ← next name
  return .field ⟨isStatic.isSome, n, d⟩

def member : Reader Member := orElse fieldDecl methodDecl

def extendsClause : Reader String := rule do
  word "extends".toList
  next name

def implementsClause : Reader (List String) := rule do
  word "implements".toList
  next (many1 name)

def classDecl : Reader ClassDecl := rule do
  let at_ ← offset
  word "class".toList
  let n ← next name
  let super ← next (optional extendsClause)
  let interfaces ← next (optional implementsClause)
  let members ← next (block member)
  return ⟨at_, n, super, interfaces.getD [], members⟩

/-- a class and the ends of lines after it -/
def classAndEnds : Reader ClassDecl := do
  let c ← classDecl
  let _ ← next (many lineEnd)
  return c

def source : Reader (List ClassDecl) := rule do
  let _ ← next (many lineEnd)
  let classes ← next (many classAndEnds)
  next (rule endOfText)
  return classes

/-! ## sources -/

/-- line and column, both from one -/
structure Position where
  line : Nat
  col : Nat
deriving DecidableEq, Repr

/-- Columns count characters, and only a line feed starts a new line. -/
def Position.ofOffset (text : List Char) (offset : Nat) : Position :=
  let before := text.take offset
  { line := 1 + before.count '\n'
    col := 1 + (before.reverse.takeWhile fun c => c != '\n').length }

/-- the classes of a text, or the offset at which it is malformed -/
def Source.parse (text : String) : Except Nat (List ClassDecl) :=
  let o := source ⟨text.toList, 0⟩
  match o.found with
  | some (classes, _) => .ok classes
  | none => .error o.furthest

end Resumable.Assembly
