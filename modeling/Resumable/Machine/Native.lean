import Resumable.Machine.Basic

/-!
# What built-in methods do

A built-in method works on the whole machine.  It gives a result, or throws, or resumes a coroutine,
whose body then runs above the caller.

* `Native.perform` : a built-in method with its arguments;
* `Machine.runNative` : the machine after that.
-/

namespace Resumable

/-- a computation on the machine that gives a value or throws -/
abbrev Performing (α : Type) := ExceptT Throw (StateM Machine) α

/-- how a built-in method ends, unless it throws -/
inductive Performed where
  | result (v : Option Value)
  /-- the body of a coroutine is to be called -/
  | body (id : Nat) (call : Call)

/-- the call that runs an object -/
def Call.ofRunnable (r : Ref) : Call :=
  ⟨.interface, ⟨runnableType, "run", "()V"⟩, [.ref (some r)]⟩

namespace Performing

def fault {α : Type} (f : Fault) : Performing α := throw (.fault f)

/-- throw a new object with a message -/
def throwNew {α : Type} (type message : String) : Performing α := do
  let m ← get
  let (r, heap) := m.heap.makeThrowable type message
  set { m with heap }
  throw (.exception r)

def heap : Performing Heap := return (← get).heap

/-- all coroutines -/
def coroutines : Performing (Engine Call Call) := return (← get).engine

/-- a new object as a value -/
def make (build : Heap → Value × Heap) : Performing Value := do
  let m ← get
  let (v, heap) := build m.heap
  set { m with heap }
  return v

/-- an operation of the engine; a violation is a fault -/
def engine {α : Type} (op : Engine Call Call → Except Violation α × Engine Call Call) :
    Performing α := do
  let m ← get
  let (r, engine) := op m.engine
  set { m with engine }
  match r with
  | .ok a => return a
  | .error v => fault (.violation v)

/-- an operation of the innermost running coroutine -/
def current {α : Type} (op : Coroutine Call Call → Coroutine.Outcome Call Call α) :
    Performing α := engine fun e => e.onCurrent op

/-! ## arguments -/

def arg (args : List Value) (i : Nat) : Performing Value :=
  match args[i]? with
  | some v => return v
  | none => fault (.missingArgument i)

def intArg (args : List Value) (i : Nat) : Performing Int32 := do
  match ← arg args i with
  | .int v => return v
  | v => fault (.notInt ((← heap).shown v))

def refArg (args : List Value) (i : Nat) : Performing (Option Ref) := do
  match ← arg args i with
  | .ref r => return r
  | v => fault (.notReference ((← heap).shown v))

/-- a reference that must not be null -/
def nonNullArg (args : List Value) (i : Nat) : Performing Ref := do
  match ← refArg args i with
  | some r => return r
  | none =>
    throwNew "java/lang/NullPointerException" ("argument " ++ toString i ++ " is null")

/-- the number of a coroutine -/
def coroutineArg (args : List Value) (i : Nat) : Performing Nat := do
  match ← nonNullArg args i with
  | .coroutine id => return id
  | r => fault (.notCoroutine ((← heap).className r))

def stringArg (args : List Value) (i : Nat) : Performing String := do
  let r ← nonNullArg args i
  let h ← heap
  match h.string? r with
  | some s => return s
  | none => fault (.notString (h.className r))

/-- a text, if there is one -/
def textOf (text : Option String) : Performing String :=
  match text with
  | some s => return s
  | none => fault .endlessText

end Performing

open Performing

/-! ## coroutines -/

/-- a staged value by its depth; there is none at a negative depth -/
def performPeek (k : Kind) (args : List Value) : Performing Value := do
  let depth ← intArg args 0
  if depth < 0 then fault (.violation (.stagingUnderflow k 0))
  else current fun c => c.peekStaged k depth.toInt.toNat

def performResume (args : List Value) : Performing Performed := do
  let id ← coroutineArg args 0
  let body ← engine fun e => e.enter id
  return .body id body

/-- without a runnable, which is also what comes back when the call is made again, nothing is
deferred -/
def performYieldWith (args : List Value) : Performing Unit := do
  let id ← coroutineArg args 0
  let runnable ← refArg args 1
  engine fun e => e.on id fun c => c.yield (runnable.map Call.ofRunnable)

/-- a method of coroutines -/
def Intrinsic.perform (i : Intrinsic) (args : List Value) : Performing Performed := do
  match i with
  | .exists => return .result (some (.ofBool (← coroutines).exists))
  | .get => return .result (some (.ref ((← coroutines).currentId?.map .coroutine)))
  | .isYielding => return .result (some (.ofBool (← coroutines).isYielding))
  | .popState =>
    let n ← current (Engine.sure Coroutine.popState)
    return .result (some (.int n))
  | .pushState =>
    let n ← intArg args 0
    current (Engine.update fun c => c.pushState n)
    return .result none
  | .push _ =>
    let v ← arg args 0
    current fun c => c.push v
    return .result none
  | .pop k =>
    let v ← current fun c => c.pop k
    return .result (some v)
  | .pushCompanion =>
    let r ← refArg args 0
    current (Engine.update fun c => c.pushCompanion r)
    return .result none
  | .discardCompanion =>
    current Coroutine.discardCompanion
    return .result none
  | .beginStaging =>
    current (Engine.update Coroutine.beginStaging)
    return .result none
  | .stage _ =>
    let v ← arg args 0
    current fun c => c.stage v
    return .result none
  | .peekStaged k =>
    let v ← performPeek k args
    return .result (some v)
  | .commitStaging =>
    current Coroutine.commitStaging
    return .result none
  | .endStaging =>
    current Coroutine.endStaging
    return .result none
  | .invalidDispatch =>
    let method ← stringArg args 0
    fault (.violation (.invalidDispatch method))
  | .initSuspended =>
    let r ← nonNullArg args 0
    let id ← engine fun e =>
      let (id, e) := e.create (Call.ofRunnable r)
      (.ok id, e)
    return .result (some (.coroutine id))
  | .start | .resume => performResume args
  | .yield =>
    let id ← coroutineArg args 0
    engine fun e => e.on id fun c => c.yield none
    return .result none
  | .yieldWith =>
    performYieldWith args
    return .result none
  | .isDone =>
    let id ← coroutineArg args 0
    let c := (← coroutines).get? id
    return .result (some (.ofBool (c.any Coroutine.isDone)))

/-! ## the library -/

/-- a new string as a result -/
def stringResult (s : String) : Performing (Option Value) := do
  return some (← make fun h => h.makeString s)

/-- a method of the library -/
def LibraryMethod.perform (l : LibraryMethod) (args : List Value) : Performing (Option Value) := do
  match l with
  | .objectInit | .throwableInit => return none
  | .objectToString =>
    let r ← nonNullArg args 0
    stringResult (← textOf ((← heap).refText? r))
  | .throwableInitMessage =>
    let this ← nonNullArg args 0
    let message ← refArg args 1
    modify fun m => { m with heap := (m.heap.putField? this "message" (.ref message)).getD m.heap }
    return none
  | .throwableGetMessage =>
    let this ← nonNullArg args 0
    return some (((← heap).field? this "message" "Ljava/lang/String;").getD .null)
  | .println p =>
    let v ← arg args 0
    let line ← textOf (p.text? (← heap) v)
    modify fun m => { m with console := line :: m.console }
    return none
  | .valueOf p =>
    let v ← arg args 0
    stringResult (← textOf (p.text? (← heap) v))
  | .concat =>
    let a ← stringArg args 0
    let b ← stringArg args 1
    stringResult (a ++ b)
  | .equals =>
    let a ← stringArg args 0
    let other ← refArg args 1
    let h ← heap
    return some (.ofBool (other.any fun r => h.string? r == some a))
  | .length =>
    let a ← stringArg args 0
    return some (.int (Int32.ofNat a.length))

/-! ## host methods -/

/-- the running coroutine, if there is one, is asked to suspend -/
def performHostYield : Performing Unit := do
  match (← coroutines).currentId? with
  | some id => engine fun e => e.on id fun c => c.yield none
  | none => return

def Reply.perform (r : Reply) (args : List Value) : Performing (Option Value) := do
  match r with
  | .throws type message => throwNew type message
  | .fault message => Performing.fault (.host message)
  | .echo i => return args[i]?
  | .returns l =>
    match l.build (fun _ => none) (← heap) with
    | .ok (v, h) =>
      modify fun m => { m with heap := h }
      return some v
    | .error name => Performing.fault (.host ("no value " ++ name))
  | .nothing => return none

def HostMethod.perform (h : HostMethod) (args : List Value) : Performing (Option Value) := do
  if h.yields then performHostYield
  h.reply.perform args

/-! ## all of them -/

/-- a built-in method with its arguments -/
def Native.perform (n : Native) (args : List Value) : Performing Performed := do
  match n with
  | .intrinsic i => i.perform args
  | .library l => return .result (← l.perform args)
  | .host h => return .result (← h.perform args)

/-- a coroutine's body is called above what is under way -/
def Machine.callBody (m : Machine) (id : Nat) (call : Call) : Machine :=
  { m with pending := .body id call :: m.pending, mode := .calling call }

/-- the machine after a built-in method, or with a coroutine's body to call -/
def Machine.runNative (m : Machine) (n : Native) (args : List Value) : Machine :=
  match (n.perform args).run m with
  | (.ok (.result v), m) => m.answer (.ok v)
  | (.ok (.body id call), m) => m.callBody id call
  | (.error t, m) => m.answer (.error t)

end Resumable
