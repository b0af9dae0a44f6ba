import Resumable.Coroutine.Basic

/-!
# The engine

All coroutines of a program, and those that run: a coroutine that resumes another one keeps running
below it.  Storage operations go to the innermost one.

* `Engine.create` : a new coroutine;
* `Engine.enter`, `Engine.leave` : around a run of a coroutine's body;
* `Engine.onCurrent` : an operation of the innermost running coroutine.
-/

namespace Resumable

/-- coroutines, numbered from one, and the numbers of those that run, the innermost first -/
structure Engine (β κ : Type) where
  coroutines : Array (Coroutine β κ)
  active : List Nat
deriving Inhabited

namespace Engine

variable {β κ α : Type}

def empty : Engine β κ := ⟨#[], []⟩

/-- a new coroutine and its number -/
def create (e : Engine β κ) (body : β) : Nat × Engine β κ :=
  let id := e.coroutines.size + 1
  (id, { e with coroutines := e.coroutines.push (Coroutine.create id body) })

/-- the coroutine of a number -/
def get? (e : Engine β κ) (id : Nat) : Option (Coroutine β κ) :=
  match id with
  | 0 => none
  | i + 1 => e.coroutines[i]?

/-- a coroutine put in the place of its number -/
def put (e : Engine β κ) (c : Coroutine β κ) : Engine β κ :=
  { e with coroutines := e.coroutines.setIfInBounds (c.id - 1) c }

/-- an operation of a coroutine; there is none of an unknown number -/
def on (e : Engine β κ) (id : Nat) (op : Coroutine β κ → Coroutine.Outcome β κ α) :
    Except Violation α × Engine β κ :=
  match e.get? id with
  | some c =>
    let (r, c) := op c
    (r, e.put c)
  | none => (.error .noActiveCoroutine, e)

/-- some coroutine runs -/
def «exists» (e : Engine β κ) : Bool := !e.active.isEmpty

/-- the number of the innermost running coroutine -/
def currentId? (e : Engine β κ) : Option Nat := e.active.head?

def current? (e : Engine β κ) : Option (Coroutine β κ) := e.currentId?.bind e.get?

/-- the innermost running coroutine is being suspended; outside of coroutines nothing is -/
def isYielding (e : Engine β κ) : Bool := e.current?.any Coroutine.yielding

/-- an operation of the innermost running coroutine -/
def onCurrent (e : Engine β κ) (op : Coroutine β κ → Coroutine.Outcome β κ α) :
    Except Violation α × Engine β κ :=
  match e.currentId? with
  | some id => e.on id op
  | none => (.error .noActiveCoroutine, e)

/-- an operation that violates no rule -/
def sure (op : Coroutine β κ → α × Coroutine β κ) (c : Coroutine β κ) : Coroutine.Outcome β κ α :=
  let (a, c) := op c
  (.ok a, c)

/-- an operation that gives no result and violates no rule -/
def update (op : Coroutine β κ → Coroutine β κ) (c : Coroutine β κ) :
    Coroutine.Outcome β κ Unit := (.ok (), op c)

/-- a run of a coroutine begins: its body, with the coroutine as the innermost running one -/
def enter (e : Engine β κ) (id : Nat) : Except Violation β × Engine β κ :=
  match e.on id Coroutine.beginRun with
  | (.ok body, e) => (.ok body, { e with active := id :: e.active })
  | (.error v, e) => (.error v, e)

/-- the run of a coroutine ends: what runs now, if something was deferred -/
def leave (e : Engine β κ) (id : Nat) (body : β) (finished : Bool) : Option κ × Engine β κ :=
  let e := { e with active := e.active.tail }
  match e.get? id with
  | some c =>
    let (deferred, c) := c.endRun body finished
    (deferred, e.put c)
  | none => (none, e)

end Engine

end Resumable
