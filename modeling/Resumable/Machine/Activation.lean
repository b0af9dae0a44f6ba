import Resumable.Code.Program
import Resumable.Machine.Fault

/-!
# Activations

A method that runs: its position, its locals and its operand stack.  One instruction works on the
scope of the activation: the activation together with the heap and the statics.  It gives a value or
throws; what it has done to the scope stays done in both cases.

* `Activation.entry` : the activation at the start of a method;
* `Exec` : computations in a scope;
* `Exec.pop`, `Exec.popKind`, `Exec.setLocal`, … : operands and locals.
-/

namespace Resumable

/-- a call with all its arguments, the receiver first -/
structure Call where
  kind : InvokeKind
  method : MethodId
  args : List Value
deriving Repr, Inhabited

/-- a method that runs -/
structure Activation where
  method : Method
  /-- the index of the entry that runs next, or whose call is under way -/
  position : Nat
  locals : List Value
  /-- operands, the top first -/
  stack : List Value
deriving Repr, Inhabited

namespace Activation

/-- the slots of an argument: a wide one has an empty second half -/
def slots (v : Value) : List Value := if v.width = 2 then [v, .top] else [v]

/-- locals at the start of a method: the arguments, then empty slots -/
def entryLocals (m : Method) (args : List Value) : List Value :=
  let filled := args.flatMap slots
  filled ++ List.replicate (m.maxLocals.toNat - filled.length) .top

def entry (m : Method) (args : List Value) : Activation :=
  { method := m, position := 0, locals := entryLocals m args, stack := [] }

def push (a : Activation) (v : Value) : Activation := { a with stack := v :: a.stack }

/-- on to the next entry -/
def advance (a : Activation) : Activation := { a with position := a.position + 1 }

/-- at a handler the stack holds what was caught, alone -/
def handle (a : Activation) (position : Nat) (r : Ref) : Activation :=
  { a with position, stack := [.ref (some r)] }

end Activation

/-- what an instruction may read and write -/
structure Scope where
  heap : Heap
  /-- statics by owner and name with a dot between them -/
  statics : Bindings
  activation : Activation
deriving Inhabited

/-- a computation in a scope that gives a value or throws -/
abbrev Exec (α : Type) := ExceptT Throw (StateM Scope) α

namespace Exec

/-! ## failing -/

def fault {α : Type} (f : Fault) : Exec α := throw (.fault f)

/-- throw a new object with a message -/
def throwNew {α : Type} (type message : String) : Exec α := do
  let s ← get
  let (r, heap) := s.heap.makeThrowable type message
  set { s with heap }
  throw (.exception r)

def nullPointer {α : Type} (message : String) : Exec α :=
  throwNew "java/lang/NullPointerException" message

def outOfBounds {α : Type} (index : Int32) : Exec α :=
  throwNew "java/lang/ArrayIndexOutOfBoundsException"
    ("index " ++ toString index.toInt ++ " out of bounds")

/-- the fault of an operand that is not of the kind -/
def illTyped {α : Type} (k : Kind) (v : Value) : Exec α := do
  fault (.illTyped k ((← get).heap.shown v))

/-! ## the heap -/

def heap : Exec Heap := return (← get).heap

def setHeap (h : Heap) : Exec Unit := modify fun s => { s with heap := h }

/-- the class of what a reference names -/
def className (r : Ref) : Exec String := return (← heap).className r

/-! ## operands -/

def push (v : Value) : Exec Unit :=
  modify fun s => { s with activation := s.activation.push v }

/-- push a new object -/
def pushNew (make : Heap → Value × Heap) : Exec Unit := do
  let (v, h) := make (← heap)
  setHeap h
  push v

def pop : Exec Value := do
  let s ← get
  match s.activation.stack with
  | [] => fault .stackUnderflow
  | v :: stack =>
    set { s with activation := { s.activation with stack } }
    return v

def popInt : Exec Int32 := do
  match ← pop with
  | .int v => return v
  | v => illTyped .int v

def popRef : Exec (Option Ref) := do
  match ← pop with
  | .ref r => return r
  | v => illTyped .ref v

/-- a reference that must not be null; otherwise the message says what it was needed for -/
def popNonNull (message : String) : Exec Ref := do
  match ← popRef with
  | some r => return r
  | none => nullPointer message

/-- an operand of a kind -/
def popKind (k : Kind) : Exec Value := do
  let v ← pop
  if v.kind? = some k then return v else illTyped k v

/-- the topmost operands in the order in which they were pushed -/
def popArgs (count : Nat) : Exec (List Value) := do
  let s ← get
  if count ≤ s.activation.stack.length then
    set { s with activation := { s.activation with stack := s.activation.stack.drop count } }
    return (s.activation.stack.take count).reverse
  else fault .stackUnderflow

/-! ## locals -/

def getLocal (slot : UInt16) : Exec Value := do
  match (← get).activation.locals[slot.toNat]? with
  | some v => return v
  | none => fault (.localOutOfRange slot)

/-- the locals after a value is put at an index; a wide one empties the slot after it -/
def putLocal (locals : List Value) (i : Nat) (v : Value) : List Value :=
  let stored := locals.set i v
  if v.width = 2 then stored.set (i + 1) .top else stored

/-- store a value, which must fit into the locals -/
def setLocal (slot : UInt16) (v : Value) : Exec Unit := do
  let s ← get
  if slot.toNat + v.width ≤ s.activation.locals.length then
    set { s with activation :=
      { s.activation with locals := putLocal s.activation.locals slot.toNat v } }
  else fault (.localOutOfRange slot)

/-! ## results that may be missing -/

/-- the value, or the other computation -/
def orElse {α : Type} (v : Option α) (otherwise : Exec α) : Exec α :=
  match v with
  | some a => return a
  | none => otherwise

end Exec

end Resumable
