import Resumable.Hierarchy

/-!
# Categories and frames

The category of a local or of an operand is what the analysis knows about its value.  A frame holds
the categories of all locals and of the operand stack before one instruction; the top of the stack
comes first.  A long or double local takes its slot and an empty slot after it; on the stack it is
one entry.

* `Category` : categories and their kinds;
* `Frame.entry` : the frame at the start of a method;
* `Frame.setLocal` : a store, which empties a wide value that it overlaps.
-/

namespace Resumable

/-! ## categories -/

/-- what is known about a value -/
inductive Category where
  /-- no value, or the second half of a wide one -/
  | empty
  | int | long | float | double
  /-- the null constant -/
  | null
  /-- a reference to a value of the type, or null -/
  | ref (type : String)
  /-- the address that a subroutine returns to -/
  | returnAddress
deriving DecidableEq, Repr, Inhabited

namespace Category

/-- slots of a local of the category -/
def width : Category → Nat
  | .long | .double => 2
  | _ => 1

/-- the kind of its values; what holds no value has none -/
def kind? : Category → Option Kind
  | .int => some .int
  | .long => some .long
  | .float => some .float
  | .double => some .double
  | .null | .ref _ => some .ref
  | .empty | .returnAddress => none

def isReference : Category → Bool
  | .null | .ref _ => true
  | _ => false

/-- the category of the values of a kind when nothing more is known -/
def ofKind : Kind → Category
  | .int => .int
  | .long => .long
  | .float => .float
  | .double => .double
  | .ref => .ref objectType

/-- the category of a declared type -/
def ofType : FieldType → Category
  | .int => .int
  | .long => .long
  | .float => .float
  | .double => .double
  | .ref name => .ref name

/-- the type of a reference that is not just null -/
def typeName? : Category → Option String
  | .ref t => some t
  | _ => none

def text : Category → String
  | .empty => "top"
  | .int => "int"
  | .long => "long"
  | .float => "float"
  | .double => "double"
  | .null => "null"
  | .ref t => t
  | .returnAddress => "return-address"

theorem kind?_ofKind (k : Kind) : (ofKind k).kind? = some k := by cases k <;> rfl
theorem kind?_ofType (t : FieldType) : (ofType t).kind? = some t.kind := by cases t <;> rfl
theorem width_ofType (t : FieldType) : (ofType t).width = t.width := by cases t <;> rfl

/-- the width of a category with values is that of its kind -/
theorem width_eq_of_kind? {c : Category} {k : Kind} (h : c.kind? = some k) :
    c.width = k.width := by
  cases c <;> simp [kind?] at h <;> subst h <;> rfl

end Category

/-! ## failures -/

/-- what an instruction asked for -/
inductive Expected where
  | kind (k : Kind)
  /-- a value of one slot -/
  | narrow
deriving DecidableEq, Repr

def Expected.text : Expected → String
  | .kind k => k.name
  | .narrow => "single-width value"

/-- why a method cannot be analyzed -/
inductive AnalysisFailure where
  | unresolvedReference (slot : UInt16)
  | mergeConflict (left right : Category)
  | stackHeightMismatch (left right : Nat)
  | subroutine
  | stackUnderflow
  | typeMismatch (expected : Expected) (found : Category)
  | localOutOfRange (slot : UInt16)
  | fallOffEnd
  | unknownLabel (l : Label)
  | badDescriptor (desc : String)
  /-- the frames keep changing -/
  | unsettled
deriving DecidableEq, Repr

/-- the text that reports a malformed descriptor -/
def malformedDescriptor (desc : String) : String :=
  "malformed descriptor " ++ Text.Quoted.encode desc

def AnalysisFailure.message : AnalysisFailure → String
  | .unresolvedReference slot =>
    "local " ++ toString slot.toNat ++ " holds a reference whose type is never resolved"
  | .mergeConflict a b =>
    "operand stack entries " ++ a.text ++ " and " ++ b.text ++ " cannot be merged"
  | .stackHeightMismatch a b =>
    "operand stack heights " ++ toString a ++ " and " ++ toString b ++ " differ at a join"
  | .subroutine => "subroutines (jsr/ret) are not supported"
  | .stackUnderflow => "operand stack underflow"
  | .typeMismatch e c => "expected " ++ e.text ++ " but found " ++ c.text
  | .localOutOfRange slot => "local " ++ toString slot.toNat ++ " is outside the frame"
  | .fallOffEnd => "control falls off the end of the code"
  | .unknownLabel l => "jump to undefined label " ++ l.text
  | .badDescriptor d => malformedDescriptor d
  | .unsettled => "frames do not settle"

/-! ## frames -/

/-- categories of the locals and of the operand stack, whose top comes first -/
structure Frame where
  locals : List Category
  stack : List Category
deriving DecidableEq, Repr, Inhabited

namespace Frame

/-- the slots of a value: a wide one has an empty second half -/
def slots (c : Category) : List Category :=
  if c.width = 2 then [c, .empty] else [c]

/-- the frame at the start of a method: the receiver, the parameters, and empty slots up to
`maxLocals` -/
def entry (owner : String) (isStatic : Bool) (desc : MethodDesc) (maxLocals : Nat) : Frame :=
  let receiver := if isStatic then [] else [Category.ref owner]
  let filled := receiver ++ desc.params.flatMap fun t => slots (.ofType t)
  { locals := filled ++ List.replicate (maxLocals - filled.length) .empty
    stack := [] }

theorem stack_entry (owner : String) (isStatic : Bool) (desc : MethodDesc) (n : Nat) :
    (entry owner isStatic desc n).stack = [] := rfl

def push (f : Frame) (c : Category) : Frame := { f with stack := c :: f.stack }

/-- the top of the stack and the frame without it -/
def pop (f : Frame) : Except AnalysisFailure (Category × Frame) :=
  match f.stack with
  | [] => .error .stackUnderflow
  | c :: rest => .ok (c, { f with stack := rest })

theorem pop_push (f : Frame) (c : Category) : (f.push c).pop = .ok (c, f) := rfl

/-- a top of the given kind -/
def popKind (f : Frame) (k : Kind) : Except AnalysisFailure (Category × Frame) := do
  let (c, f) ← f.pop
  if c.kind? = some k then .ok (c, f) else .error (.typeMismatch (.kind k) c)

/-- a top of one slot -/
def popNarrow (f : Frame) : Except AnalysisFailure (Category × Frame) := do
  let (c, f) ← f.pop
  if c.width = 1 then .ok (c, f) else .error (.typeMismatch .narrow c)

/-- the top of the stack -/
def peek (f : Frame) : Except AnalysisFailure Category :=
  match f.stack with
  | [] => .error .stackUnderflow
  | c :: _ => .ok c

def getLocal (f : Frame) (slot : UInt16) : Except AnalysisFailure Category :=
  match f.locals[slot.toNat]? with
  | some c => .ok c
  | none => .error (.localOutOfRange slot)

/-- the locals after a value is put at an index: a wide value that reaches into the index loses its
first half, and a wide new value empties the slot after it -/
def putLocal (locals : List Category) (i : Nat) (c : Category) : List Category :=
  let cleared :=
    match i with
    | 0 => locals
    | j + 1 =>
      if (locals[j]?).any (fun d : Category => d.width == 2) then locals.set j .empty else locals
  let stored := cleared.set i c
  if c.width = 2 then stored.set (i + 1) .empty else stored

theorem length_putLocal (locals : List Category) (i : Nat) (c : Category) :
    (putLocal locals i c).length = locals.length := by
  unfold putLocal
  cases i with
  | zero => dsimp only; split <;> simp
  | succ j => dsimp only; split <;> split <;> simp

/-- store a value, which must fit into the frame -/
def setLocal (f : Frame) (slot : UInt16) (c : Category) : Except AnalysisFailure Frame :=
  if slot.toNat + c.width ≤ f.locals.length then
    .ok { f with locals := putLocal f.locals slot.toNat c }
  else .error (.localOutOfRange slot)

end Frame

end Resumable
