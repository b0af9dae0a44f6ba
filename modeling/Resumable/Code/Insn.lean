import Resumable.Code.Kind
import Resumable.Decimal.Layout
import Resumable.Text.Quoted

/-!
# Instructions

Jump targets are labels, and a label is itself an entry of the code that marks a position and
executes nothing; inserting code therefore moves no target.

* `Insn.targets`, `Insn.fallsThrough` : the control flow of an instruction;
* `Insn.text` : its line in assembly text;
* `labelPosition` : the index at which a label stands.
-/

namespace Resumable

/-- a symbolic code position; numbers are words of 32 bits -/
structure Label where
  number : UInt32
deriving DecidableEq, Repr, Inhabited

/-- a label is printed as its number after a letter -/
def Label.text (l : Label) : String := "L" ++ toString l.number.toNat

/-- a method: owning type, name and descriptor -/
structure MethodId where
  owner : String
  name : String
  desc : String
deriving DecidableEq, Repr, Inhabited

/-- owner and name with a dot between them, then the descriptor -/
def MethodId.text (m : MethodId) : String := m.owner ++ "." ++ m.name ++ m.desc

/-- the two parts of a text around the last dot -/
def splitLastDot? (cs : List Char) : Option (List Char × List Char) :=
  match cs with
  | [] => none
  | c :: r =>
    match splitLastDot? r with
    | some (a, b) => some (c :: a, b)
    | none => if c = '.' then some ([], r) else none

/-- The method written as `owner.name(desc)ret`: the descriptor starts at the first parenthesis and
the last dot before it ends the owner.  Owner and name must not be empty. -/
def MethodId.parse? (text : String) : Option MethodId :=
  let qualified := text.toList.takeWhile (· != '(')
  let desc := text.toList.dropWhile (· != '(')
  if desc.isEmpty then none
  else
    match splitLastDot? qualified with
    | some (owner, name) =>
      if owner.isEmpty || name.isEmpty then none
      else some ⟨String.ofList owner, String.ofList name, String.ofList desc⟩
    | none => none

/-- lexicographic order on owner, name and descriptor -/
def MethodId.before (a b : MethodId) : Bool :=
  a.owner < b.owner ||
    (a.owner == b.owner && (a.name < b.name || (a.name == b.name && a.desc < b.desc)))

/-- a field: owning type, name and descriptor -/
structure FieldRef where
  owner : String
  name : String
  desc : String
deriving DecidableEq, Repr, Inhabited

/-- one instruction, or a label -/
inductive Insn where
  | label (l : Label)
  | nop
  -- constants
  | nullConst
  | intConst (v : Int32)
  | longConst (v : Int64)
  | floatConst (v : Float32)
  | doubleConst (v : Float)
  | stringConst (s : String)
  -- locals
  | load (k : Kind) (slot : UInt16)
  | store (k : Kind) (slot : UInt16)
  | increment (slot : UInt16) (delta : Int32)
  -- arithmetic
  | arith (op : ArithOp) (k : Kind)
  | neg (k : Kind)
  | convert (source target : Kind)
  | compare (op : CompareOp)
  -- control flow
  | branch (c : Cond) (l : Label)
  | branchCompare (c : Cond) (l : Label)
  | branchSame (l : Label)
  | branchDistinct (l : Label)
  | branchNull (l : Label)
  | branchNonNull (l : Label)
  | jump (l : Label)
  | jumpSubroutine (l : Label)
  | returnSubroutine (slot : UInt16)
  | tableSwitch (low : Int32) (otherwise : Label) (targets : List Label)
  | lookupSwitch (otherwise : Label) (cases : List (Int32 × Label))
  | ret (k : Option Kind)
  | throw
  -- objects
  | getStatic (f : FieldRef)
  | putStatic (f : FieldRef)
  | getField (f : FieldRef)
  | putField (f : FieldRef)
  | invoke (kind : InvokeKind) (m : MethodId)
  | new (type : String)
  | newArray (elem : String)
  | arrayLength
  | arrayLoad (k : Kind)
  | arrayStore (k : Kind)
  | checkCast (type : String)
  | instanceOf (type : String)
  -- operand stack
  | pop
  | pop2
  | dup
  | dupX1
  | dup2
  | swap
deriving BEq, Repr, Inhabited

namespace Insn

/-- the label that stands here -/
def label? : Insn → Option Label
  | .label l => some l
  | _ => none

/-- the entry executes nothing -/
def isLabel : Insn → Bool
  | .label _ => true
  | _ => false

/-- labels that control may jump to -/
def targets : Insn → List Label
  | .branch _ l | .branchCompare _ l | .branchSame l | .branchDistinct l | .branchNull l
  | .branchNonNull l | .jump l | .jumpSubroutine l => [l]
  | .tableSwitch _ d ts => d :: ts
  | .lookupSwitch d cs => d :: cs.map Prod.snd
  | _ => []

/-- control may go on with the next entry -/
def fallsThrough : Insn → Bool
  | .jump _ | .ret _ | .throw | .tableSwitch .. | .lookupSwitch .. | .returnSubroutine _ => false
  | _ => true

/-- labels that the entry mentions, its own included -/
def labels (i : Insn) : List Label := i.label?.toList ++ i.targets

/-! ## assembly text -/

/-- a mnemonic that starts with the letter of a kind -/
def typed (k : Kind) (rest : String) : String := k.letter.toString ++ rest

/-- member operand and descriptor -/
def member (mnemonic owner name desc : String) : String :=
  mnemonic ++ " " ++ owner ++ "." ++ name ++ " " ++ desc

/-- the line of an instruction, without indentation -/
def text : Insn → String
  | .label l => l.text ++ ":"
  | .nop => "nop"
  | .nullConst => "aconst_null"
  | .intConst v => "iconst " ++ toString v.toInt
  | .longConst v => "lconst " ++ toString v.toInt
  | .floatConst v => "fconst " ++ Decimal.printSingle v
  | .doubleConst v => "dconst " ++ Decimal.printDouble v
  | .stringConst s => "ldc " ++ Text.Quoted.encode s
  | .load k slot => typed k "load " ++ toString slot.toNat
  | .store k slot => typed k "store " ++ toString slot.toNat
  | .increment slot delta => "iinc " ++ toString slot.toNat ++ " " ++ toString delta.toInt
  | .arith op k => typed k op.name
  | .neg k => typed k "neg"
  | .convert s t => typed s "2" ++ t.letter.toString
  | .compare op => op.name
  | .branch c l => "if" ++ c.name ++ " " ++ l.text
  | .branchCompare c l => "if_icmp" ++ c.name ++ " " ++ l.text
  | .branchSame l => "if_acmpeq " ++ l.text
  | .branchDistinct l => "if_acmpne " ++ l.text
  | .branchNull l => "ifnull " ++ l.text
  | .branchNonNull l => "ifnonnull " ++ l.text
  | .jump l => "goto " ++ l.text
  | .jumpSubroutine l => "jsr " ++ l.text
  | .returnSubroutine slot => "ret " ++ toString slot.toNat
  | .tableSwitch low d ts =>
    " ".intercalate ("tableswitch" :: toString low.toInt :: d.text :: ts.map Label.text)
  | .lookupSwitch d cs =>
    " ".intercalate ("lookupswitch" :: d.text ::
      cs.map fun c => toString c.1.toInt ++ ":" ++ c.2.text)
  | .ret none => "return"
  | .ret (some k) => typed k "return"
  | .throw => "athrow"
  | .getStatic f => member "getstatic" f.owner f.name f.desc
  | .putStatic f => member "putstatic" f.owner f.name f.desc
  | .getField f => member "getfield" f.owner f.name f.desc
  | .putField f => member "putfield" f.owner f.name f.desc
  | .invoke k m => member k.mnemonic m.owner m.name m.desc
  | .new t => "new " ++ t
  | .newArray t => "newarray " ++ t
  | .arrayLength => "arraylength"
  | .arrayLoad k => typed k "aload"
  | .arrayStore k => typed k "astore"
  | .checkCast t => "checkcast " ++ t
  | .instanceOf t => "instanceof " ++ t
  | .pop => "pop"
  | .pop2 => "pop2"
  | .dup => "dup"
  | .dupX1 => "dup_x1"
  | .dup2 => "dup2"
  | .swap => "swap"

end Insn

/-! ## positions of labels -/

/-- the index at which a label stands; of several the last -/
def labelPosition (l : Label) : List Insn → Option Nat
  | [] => none
  | i :: is =>
    match labelPosition l is with
    | some n => some (n + 1)
    | none => if i.label? = some l then some 0 else none

theorem labelPosition_nil (l : Label) : labelPosition l [] = none := rfl

/-- the position is an index of the code -/
theorem labelPosition_lt {l : Label} {code : List Insn} {n : Nat}
    (h : labelPosition l code = some n) : n < code.length := by
  induction code generalizing n with
  | nil => simp [labelPosition] at h
  | cons i is ih =>
    simp only [labelPosition] at h
    split at h
    · rename_i m hm
      have := ih hm
      simp only [Option.some.injEq] at h
      simp only [List.length_cons]
      omega
    · split at h
      · simp only [Option.some.injEq] at h
        simp only [List.length_cons]
        omega
      · simp at h

end Resumable
