import Resumable.Coroutine.Engine
import Resumable.Machine.Activation
import Resumable.Machine.Library

/-!
# The machine

A machine holds everything that changes while a program runs: the heap, the statics, the lines
printed, the coroutines, and what is under way.  What is under way is a list: the activation that
runs and, below it, those that wait for it, with marks where a coroutine runs above its resumer.

* `World` : the program and the host methods, which do not change;
* `Mode` : what the machine does next;
* `Machine.result?` : what came of a call, once nothing is under way.
-/

namespace Resumable

/-- what does not change -/
structure World where
  program : Program
  hosts : List HostMethod

/-- what waits for the end of what is above it -/
inductive Pending where
  | activation (a : Activation)
  /-- a coroutine's body runs above; it is put back at the end -/
  | body (id : Nat) (call : Call)
  /-- what runs above gives no result -/
  | discard

/-- what the machine does next -/
inductive Mode where
  /-- the uppermost activation goes on -/
  | executing
  | calling (c : Call)
  /-- a call has ended with a result, or without one -/
  | returning (v : Option Value)
  /-- a call has ended by throwing -/
  | throwing (t : Throw)

/-- everything that changes -/
structure Machine where
  heap : Heap
  statics : Bindings
  /-- lines printed, the latest first -/
  console : List String
  engine : Engine Call Call
  pending : List Pending
  mode : Mode

namespace Machine

/-- a machine that did nothing yet -/
def empty : Machine :=
  { heap := .empty, statics := [], console := [], engine := .empty, pending := []
    mode := .returning none }

/-- the end of a call -/
def answer (m : Machine) : Except Throw (Option Value) → Machine
  | .ok v => { m with mode := .returning v }
  | .error t => { m with mode := .throwing t }

/-- a call ended by a fault -/
def fault (m : Machine) (f : Fault) : Machine := { m with mode := .throwing (.fault f) }

/-- a call ended by throwing a new object with a message -/
def throwNew (m : Machine) (type message : String) : Machine :=
  let (r, heap) := m.heap.makeThrowable type message
  { m with heap, mode := .throwing (.exception r) }

/-- what came of a call, once nothing is under way -/
def result? (m : Machine) : Option (Except Throw (Option Value)) :=
  match m.pending, m.mode with
  | [], .returning v => some (.ok v)
  | [], .throwing t => some (.error t)
  | _, _ => none

/-- a call with nothing else under way -/
def begin (m : Machine) (c : Call) : Machine := { m with pending := [], mode := .calling c }

/-- lines printed, in order -/
def lines (m : Machine) : List String := m.console.reverse

/-- the lines printed so far taken away -/
def clearConsole (m : Machine) : Machine := { m with console := [] }

end Machine

end Resumable
