import Resumable.Assembly.Failure
import Resumable.Decimal.Reading
import Resumable.RestorePoint

/-!
# Bodies of methods

The lines of a method become its code, its exception table, its hints and its restore points.
Labels have names; they are numbered in the order in which lines mention them first.  Every label
that is mentioned has to be defined, exactly once.

* `Body.addLine` : one line;
* `Body.ofLines` : all lines, with the check of labels at the end.
-/

namespace Resumable.Assembly

/-! ## operands -/

namespace Line

/-- a failure of the line -/
def error {α : Type} (l : Line) (f : LineFailure) : Except BuildError α :=
  .error ⟨l.offset, .line l.opcode f⟩

def arity (l : Line) (expected : Nat) : Except BuildError Unit :=
  if l.operands.length = expected then .ok () else l.error (.arity expected l.operands.length)

def word (l : Line) (i : Nat) : Except BuildError String :=
  match l.operands[i]? with
  | some (.word w) => .ok w
  | some (.literal _) => l.error (.literalOperand i)
  | none => l.error (.missingOperand i)

/-- the text of a literal operand -/
def text (l : Line) (i : Nat) : Except BuildError String :=
  match l.operands[i]? with
  | some (.literal inner) => .ok (Text.Quoted.decode inner)
  | _ => l.error (.notLiteral i)

/-- an operand in the form of a number -/
def number {α : Type} (l : Line) (read : String → Option α) (i : Nat) : Except BuildError α := do
  let w ← l.word i
  match read w with
  | some v => .ok v
  | none => l.error (.badNumber w)

/-- an operand `owner.name` -/
def member (l : Line) (i : Nat) : Except BuildError (String × String) := do
  let w ← l.word i
  match splitLastDot? w.toList with
  | some (owner, name) =>
    if owner.isEmpty || name.isEmpty then l.error (.badMember w)
    else .ok (String.ofList owner, String.ofList name)
  | none => l.error (.badMember w)

def keyword (l : Line) (i : Nat) (expected : String) : Except BuildError Unit := do
  let w ← l.word i
  if w = expected then .ok () else l.error (.keyword expected w)

end Line

/-- the two parts of a text around the first occurrence of a character -/
def splitFirst? (c : Char) (s : String) : Option (String × String) :=
  match s.toList.dropWhile (· != c) with
  | _ :: r => some (String.ofList (s.toList.takeWhile (· != c)), String.ofList r)
  | [] => none

def readBool? (s : String) : Option Bool :=
  if s = "true" then some true else if s = "false" then some false else none

/-! ## the body so far -/

/-- what the lines of a method have given so far; names of labels stand at their numbers -/
structure Body where
  method : MethodId
  names : List String
  defined : List String
  code : List Insn
  tryCatches : List TryCatch
  localVars : List LocalVar
  declaration : Option Declaration
deriving Repr

namespace Body

def empty (method : MethodId) : Body := ⟨method, [], [], [], [], [], none⟩

/-- the label of a name, a new one if it was never mentioned -/
def label (b : Body) (name : String) : Label × Body :=
  match b.names.idxOf? name with
  | some i => (⟨UInt32.ofNat i⟩, b)
  | none => (⟨UInt32.ofNat b.names.length⟩, { b with names := b.names ++ [name] })

/-- the label that an operand names -/
def labelOperand (b : Body) (l : Line) (i : Nat) : Except BuildError (Label × Body) := do
  let w ← l.word i
  .ok (b.label w)

/-- the labels that operands name, in order -/
def labelOperands (b : Body) (l : Line) : List Nat → Except BuildError (List Label × Body)
  | [] => .ok ([], b)
  | i :: is => do
    let (t, b) ← b.labelOperand l i
    let (ts, b) ← b.labelOperands l is
    .ok (t :: ts, b)

/-- the declaration of the method, an empty one at first -/
def declared (b : Body) : Declaration :=
  b.declaration.getD ⟨b.method.owner, b.method.name, b.method.desc, none, []⟩

/-! ## directives -/

/-- one option of a restore point -/
def awaitOption (l : Line) (r : RestorePoint) (option : String) :
    Except BuildError RestorePoint :=
  match splitFirst? '=' option with
  | some (key, value) =>
    if key = "owner" then .ok { r with owner := value }
    else if key = "desc" then .ok { r with desc := value }
    else l.error (.unknownOption option)
  | none =>
    if option = "unpatchable" then .ok { r with patchable := false }
    else l.error (.unknownOption option)

/-- options of a restore point, at the given operands -/
def awaitOptions (l : Line) (r : RestorePoint) : List Nat → Except BuildError RestorePoint
  | [] => .ok r
  | i :: is => do
    let r ← awaitOption l r (← l.word i)
    awaitOptions l r is

/-- indices of the operands from one on -/
def operandsFrom (l : Line) (first : Nat) : List Nat :=
  (List.range l.operands.length).drop first

/-- a call that may suspend -/
def addAwait (b : Body) (l : Line) : Except BuildError Body := do
  let name ← l.word 0
  let r ← awaitOptions l (.ofName name) (operandsFrom l 1)
  let d := b.declared
  .ok { b with declaration := some { d with restorePoints := d.restorePoints ++ [r] } }

/-- whether the method starts a coroutine -/
def addEntry (b : Body) (l : Line) : Except BuildError Body := do
  let entry ← if l.operands.isEmpty then .ok true else l.number readBool? 0
  .ok { b with declaration := some { b.declared with entry := some entry } }

/-- an exception region -/
def addCatch (b : Body) (l : Line) : Except BuildError Body := do
  l.arity 7
  let type ← l.word 0
  l.keyword 1 "from"
  l.keyword 3 "to"
  l.keyword 5 "using"
  let (start, b) ← b.labelOperand l 2
  let (stop, b) ← b.labelOperand l 4
  let (handler, b) ← b.labelOperand l 6
  let catchType := if type = "any" then none else some type
  .ok { b with tryCatches := b.tryCatches ++ [⟨start, stop, handler, catchType⟩] }

/-- a hint -/
def addVar (b : Body) (l : Line) : Except BuildError Body := do
  l.arity 7
  l.keyword 3 "from"
  l.keyword 5 "to"
  let slot ← l.number Decimal.readUInt16? 0
  let name ← l.word 1
  let desc ← l.word 2
  let (start, b) ← b.labelOperand l 4
  let (stop, b) ← b.labelOperand l 6
  .ok { b with localVars := b.localVars ++ [⟨slot, name, desc, start, stop⟩] }

def addDirective (b : Body) (l : Line) : Except BuildError Body :=
  match l.opcode with
  | "await" => b.addAwait l
  | "entry" => b.addEntry l
  | "catch" => b.addCatch l
  | "var" => b.addVar l
  | other => l.error (.unknownDirective other)

/-! ## instructions -/

/-- instructions without operands -/
def bareInsns : List (String × Insn) := [
  ("nop", .nop), ("aconst_null", .nullConst), ("return", .ret none), ("athrow", .throw),
  ("arraylength", .arrayLength), ("pop", .pop), ("pop2", .pop2), ("dup", .dup),
  ("dup_x1", .dupX1), ("dup2", .dup2), ("swap", .swap),
  ("lcmp", .compare .lcmp), ("fcmpl", .compare .fcmpl), ("fcmpg", .compare .fcmpg),
  ("dcmpl", .compare .dcmpl), ("dcmpg", .compare .dcmpg)]

/-- jumps that take one label -/
def jumpInsns : List (String × (Label → Insn)) := [
  ("if_acmpeq", .branchSame), ("if_acmpne", .branchDistinct), ("ifnull", .branchNull),
  ("ifnonnull", .branchNonNull), ("goto", .jump), ("jsr", .jumpSubroutine)]

/-- accesses to fields -/
def fieldInsns : List (String × (FieldRef → Insn)) := [
  ("getstatic", .getStatic), ("putstatic", .putStatic), ("getfield", .getField),
  ("putfield", .putField)]

/-- instructions that take one word -/
def typeInsns : List (String × (String → Insn)) := [
  ("new", .new), ("newarray", .newArray), ("checkcast", .checkCast), ("instanceof", .instanceOf)]

/-- what follows a head in a text -/
def dropHead? (head s : String) : Option String :=
  if head.toList.isPrefixOf s.toList then some (String.ofList (s.toList.drop head.toList.length))
  else none

/-- the condition after a head -/
def condAfter? (head s : String) : Option Cond := (dropHead? head s).bind Cond.ofName?

/-- the kind that a numeric kind is converted to, by what follows its letter -/
def conversion? (k : Kind) (rest : List Char) : Option Kind :=
  match rest with
  | ['2', c] => (Kind.ofLetter? c).filter fun t => t.isNumeric && t != k
  | _ => none

/-- instructions whose mnemonic starts with the letter of a kind -/
def typedInsn (l : Line) (k : Kind) (rest : List Char) : Except BuildError Insn :=
  match String.ofList rest with
  | "load" => do .ok (.load k (← l.number Decimal.readUInt16? 0))
  | "store" => do .ok (.store k (← l.number Decimal.readUInt16? 0))
  | "return" => .ok (.ret (some k))
  | "aload" => .ok (.arrayLoad k)
  | "astore" => .ok (.arrayStore k)
  | word =>
    if !k.isNumeric then l.error .unknownInstruction
    else if word = "neg" then .ok (.neg k)
    else
      match ArithOp.ofName? word, conversion? k rest with
      | some op, _ => .ok (.arith op k)
      | none, some t => .ok (.convert k t)
      | none, none => l.error .unknownInstruction

/-- cases of a switch by key, from the second operand on -/
def switchCases (b : Body) (l : Line) :
    List Nat → Except BuildError (List (Int32 × Label) × Body)
  | [] => .ok ([], b)
  | i :: is => do
    let w ← l.word i
    match splitFirst? ':' w with
    | none => l.error (.notCase w)
    | some (key, target) =>
      match Decimal.readInt32? key with
      | none => l.error (.badKey key)
      | some k => do
        let (t, b) := b.label target
        let (cs, b) ← switchCases b l is
        .ok ((k, t) :: cs, b)

/-- instructions with operands of their own, if the mnemonic is one of theirs -/
def operandInsn? (b : Body) (l : Line) : Option (Except BuildError (Insn × Body)) :=
  match l.opcode with
  | "iconst" => some do .ok (.intConst (← l.number Decimal.readInt32? 0), b)
  | "lconst" => some do .ok (.longConst (← l.number Decimal.readInt64? 0), b)
  | "fconst" => some do .ok (.floatConst (← l.number Decimal.readSingle? 0), b)
  | "dconst" => some do .ok (.doubleConst (← l.number Decimal.readDouble? 0), b)
  | "ldc" => some do .ok (.stringConst (← l.text 0), b)
  | "iinc" => some do
    let slot ← l.number Decimal.readUInt16? 0
    .ok (.increment slot (← l.number Decimal.readInt32? 1), b)
  | "ret" => some do .ok (.returnSubroutine (← l.number Decimal.readUInt16? 0), b)
  | "tableswitch" => some do
    let low ← l.number Decimal.readInt32? 0
    let (d, b) ← b.labelOperand l 1
    let (ts, b) ← b.labelOperands l (operandsFrom l 2)
    .ok (.tableSwitch low d ts, b)
  | "lookupswitch" => some do
    let (d, b) ← b.labelOperand l 0
    let (cs, b) ← b.switchCases l (operandsFrom l 1)
    .ok (.lookupSwitch d cs, b)
  | _ => none

/-- the instruction of a line that belongs to no family of one shape -/
def familyInsn (b : Body) (l : Line) : Except BuildError (Insn × Body) :=
  match condAfter? "if_icmp" l.opcode, condAfter? "if" l.opcode with
  | some c, _ => do
    let (t, b) ← b.labelOperand l 0
    .ok (.branchCompare c t, b)
  | none, some c => do
    let (t, b) ← b.labelOperand l 0
    .ok (.branch c t, b)
  | none, none =>
    match l.opcode.toList with
    | c :: rest =>
      match Kind.ofLetter? c with
      | some k => do .ok (← typedInsn l k rest, b)
      | none => l.error .unknownInstruction
    | [] => l.error .unknownInstruction

/-- the instruction of a line -/
def insn (b : Body) (l : Line) : Except BuildError (Insn × Body) :=
  match bareInsns.lookup l.opcode with
  | some i => do
    l.arity 0
    .ok (i, b)
  | none =>
  match jumpInsns.lookup l.opcode with
  | some jump => do
    let (t, b) ← b.labelOperand l 0
    .ok (jump t, b)
  | none =>
  match fieldInsns.lookup l.opcode with
  | some access => do
    l.arity 2
    let (owner, name) ← l.member 0
    .ok (access ⟨owner, name, ← l.word 1⟩, b)
  | none =>
  match InvokeKind.ofMnemonic? l.opcode with
  | some kind => do
    l.arity 2
    let (owner, name) ← l.member 0
    .ok (.invoke kind ⟨owner, name, ← l.word 1⟩, b)
  | none =>
  match typeInsns.lookup l.opcode with
  | some make => do .ok (make (← l.word 0), b)
  | none =>
  match b.operandInsn? l with
  | some r => r
  | none => b.familyInsn l

/-! ## lines -/

/-- a label is defined -/
def define (b : Body) (offset : Nat) (name : String) : Except BuildError Body :=
  if name ∈ b.defined then .error ⟨offset, .labelTwice name⟩
  else
    let (l, b) := b.label name
    .ok { b with defined := b.defined ++ [name], code := b.code ++ [.label l] }

/-- an instruction is added -/
def addInsn (b : Body) (l : Line) : Except BuildError Body := do
  let (i, b) ← b.insn l
  .ok { b with code := b.code ++ [i] }

def addLine (b : Body) : BodyLine → Except BuildError Body
  | .label offset name => b.define offset name
  | .directive l => b.addDirective l
  | .insn l => b.addInsn l

def addLines (b : Body) : List BodyLine → Except BuildError Body
  | [] => .ok b
  | l :: ls => do
    let b ← b.addLine l
    b.addLines ls

/-- the lesser of two texts -/
def least (a : String) (rest : List String) : String :=
  rest.foldl (fun m s => if s < m then s else m) a

/-- the first name, in order, of a label that is mentioned and not defined -/
def undefined? (b : Body) : Option String :=
  match b.names.filter fun n => !(b.defined.contains n) with
  | [] => none
  | n :: ns => some (least n ns)

/-- the body of a method from its lines; the method stands at an offset -/
def ofLines (method : MethodId) (offset : Nat) (lines : List BodyLine) :
    Except BuildError Body := do
  let b ← (empty method).addLines lines
  match b.undefined? with
  | some n => .error ⟨offset, .undefinedLabel n method⟩
  | none => .ok b

end Body

end Resumable.Assembly
