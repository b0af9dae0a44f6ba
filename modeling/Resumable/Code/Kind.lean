/-!
# Kinds, conditions and operators

The small closed sets that instructions are built from, each with its spelling in assembly text.
-/

namespace Resumable

/-! ## kinds -/

/-- the kind of a value: what typed instructions and storage stacks tell apart -/
inductive Kind where
  | int | long | float | double | ref
deriving DecidableEq, Repr, Inhabited

namespace Kind

/-- every kind, references first -/
def all : List Kind := [.ref, .int, .long, .float, .double]

theorem mem_all (k : Kind) : k ∈ all := by cases k <;> decide

/-- the letter that typed mnemonics start with -/
def letter : Kind → Char
  | .int => 'i'
  | .long => 'l'
  | .float => 'f'
  | .double => 'd'
  | .ref => 'a'

/-- the kind of a letter -/
def ofLetter? : Char → Option Kind
  | 'i' => some .int
  | 'l' => some .long
  | 'f' => some .float
  | 'd' => some .double
  | 'a' => some .ref
  | _ => none

theorem ofLetter?_letter (k : Kind) : ofLetter? k.letter = some k := by cases k <;> rfl

/-- local slots, or stack units, that a value takes -/
def width : Kind → Nat
  | .long | .double => 2
  | _ => 1

theorem width_pos (k : Kind) : 0 < k.width := by cases k <;> decide

def isNumeric : Kind → Bool
  | .ref => false
  | _ => true

/-- the name used in messages -/
def name : Kind → String
  | .int => "int"
  | .long => "long"
  | .float => "float"
  | .double => "double"
  | .ref => "reference"

end Kind

/-! ## conditions -/

/-- a comparison of two integers -/
inductive Cond where
  | eq | ne | lt | ge | gt | le
deriving DecidableEq, Repr, Inhabited

namespace Cond

def name : Cond → String
  | .eq => "eq"
  | .ne => "ne"
  | .lt => "lt"
  | .ge => "ge"
  | .gt => "gt"
  | .le => "le"

def all : List Cond := [.eq, .ne, .lt, .ge, .gt, .le]

/-- the condition of a name -/
def ofName? (s : String) : Option Cond := all.find? fun c => c.name == s

def test (c : Cond) (a b : Int32) : Bool :=
  match c with
  | .eq => a == b
  | .ne => a != b
  | .lt => a < b
  | .ge => b ≤ a
  | .gt => b < a
  | .le => a ≤ b

end Cond

/-! ## arithmetic and comparison -/

inductive ArithOp where
  | add | sub | mul | div | rem
deriving DecidableEq, Repr, Inhabited

namespace ArithOp

def name : ArithOp → String
  | .add => "add"
  | .sub => "sub"
  | .mul => "mul"
  | .div => "div"
  | .rem => "rem"

def all : List ArithOp := [.add, .sub, .mul, .div, .rem]

/-- the operator of a name -/
def ofName? (s : String) : Option ArithOp := all.find? fun o => o.name == s

end ArithOp

/-- Three-way comparisons.  The last letter of a floating one says how an operand that is no
number compares: less or greater. -/
inductive CompareOp where
  | lcmp | fcmpl | fcmpg | dcmpl | dcmpg
deriving DecidableEq, Repr, Inhabited

namespace CompareOp

def name : CompareOp → String
  | .lcmp => "lcmp"
  | .fcmpl => "fcmpl"
  | .fcmpg => "fcmpg"
  | .dcmpl => "dcmpl"
  | .dcmpg => "dcmpg"

def all : List CompareOp := [.lcmp, .fcmpl, .fcmpg, .dcmpl, .dcmpg]

/-- the comparison of a mnemonic -/
def ofName? (s : String) : Option CompareOp := all.find? fun o => o.name == s

/-- kind of both operands -/
def operand : CompareOp → Kind
  | .lcmp => .long
  | .fcmpl | .fcmpg => .float
  | .dcmpl | .dcmpg => .double

end CompareOp

/-! ## calls -/

/-- how the method of a call is found -/
inductive InvokeKind where
  | virtual | static | special | interface
deriving DecidableEq, Repr, Inhabited

namespace InvokeKind

def all : List InvokeKind := [.virtual, .static, .special, .interface]

/-- the word for it, which ends its mnemonic -/
def name : InvokeKind → String
  | .virtual => "virtual"
  | .static => "static"
  | .special => "special"
  | .interface => "interface"

/-- the kind of call of a word -/
def ofName? (s : String) : Option InvokeKind := all.find? fun k => k.name == s

def mnemonic (k : InvokeKind) : String := "invoke" ++ k.name

/-- the kind of call of a mnemonic -/
def ofMnemonic? (s : String) : Option InvokeKind := all.find? fun k => k.mnemonic == s

def hasReceiver : InvokeKind → Bool
  | .static => false
  | _ => true

end InvokeKind

end Resumable
