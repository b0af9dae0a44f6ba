import Resumable.Coroutine.Storage

/-!
# Coroutines

A coroutine is a body that runs in pieces.  To suspend, its code asks for it and then unwinds,
leaving positions and values in the storage of the coroutine; when it is resumed, the body is called
again and takes them back.  Besides its storage a coroutine holds staged values: copies of the
arguments of calls that are under way, in frames that are opened and closed like the calls.

Every operation gives its result, or the rule that it would violate, together with the coroutine
afterwards.

* `Coroutine` : a coroutine;
* `Coroutine.beginRun`, `Coroutine.endRun` : before and after its body is called;
* `Coroutine.yield` : the request to suspend;
* `Coroutine.push`, `Coroutine.pop`, `Coroutine.stage`, … : saved positions, storage and staging.
-/

namespace Resumable

/-! ## violations -/

/-- a rule of coroutines that an operation would violate -/
inductive Violation where
  | doubleYield (id : Nat)
  | resumeTerminal (id : Nat)
  | alreadyRunning (id : Nat)
  | notRunning (id : Nat)
  | noActiveCoroutine
  | invalidDispatch (method : String)
  | storageUnderflow (k : Kind)
  | stagingUnderflow (k : Kind) (depth : Nat)
  | noStagingFrame
  /-- only empty slots cannot be stored -/
  | unstorable
deriving DecidableEq, Repr

def Violation.message : Violation → String
  | .doubleYield id => "yield called while coroutine " ++ toString id ++ " is already yielding"
  | .resumeTerminal id => "coroutine " ++ toString id ++ " has terminated and cannot be resumed"
  | .alreadyRunning id => "coroutine " ++ toString id ++ " is already running"
  | .notRunning id => "coroutine " ++ toString id ++ " is not running"
  | .noActiveCoroutine => "no coroutine is active on this thread"
  | .invalidDispatch m => "saved state does not match any restore point of " ++ m
  | .storageUnderflow k => k.name ++ " storage is empty"
  | .stagingUnderflow k depth =>
    "staged " ++ k.name ++ " value at depth " ++ toString depth ++ " does not exist"
  | .noStagingFrame => "no staging frame is open"
  | .unstorable => "cannot store top in int storage"

/-! ## coroutines -/

/-- where a coroutine is in its life -/
inductive Status where
  /-- never run -/
  | initial
  | running
  /-- stopped at a yield -/
  | suspended
  /-- its body ended without a yield, or threw -/
  | terminal
deriving DecidableEq, Repr, Inhabited

def Status.name : Status → String
  | .initial => "Initial"
  | .running => "Running"
  | .suspended => "Suspended"
  | .terminal => "Terminal"

/-- a coroutine with bodies of type `β` and continuations of type `κ` -/
structure Coroutine (β κ : Type) where
  id : Nat
  /-- what is called to run it; it is lent out while it runs -/
  body : Option β
  status : Status
  /-- saved positions, the innermost first -/
  states : List Int32
  storage : Storage
  /-- the values of all staging frames -/
  staging : Storage
  /-- the heights at which the open staging frames start, the innermost first -/
  floors : List Depths
  /-- a yield was asked for and the code is unwinding -/
  yielding : Bool
  /-- the yield that suspended it will be called once more, on the way back -/
  yieldPending : Bool
  /-- the last storage operation left the reference of a receiver -/
  companionOnTop : Bool
  /-- what runs once the body has unwound -/
  deferred : Option κ
deriving Inhabited

namespace Coroutine

variable {β κ α : Type}

/-- a result, or the rule violated, and the coroutine afterwards -/
abbrev Outcome (β κ α : Type) := Except Violation α × Coroutine β κ

/-- a coroutine that never ran -/
def create (id : Nat) (body : β) : Coroutine β κ :=
  { id, body := some body, status := .initial, states := [], storage := .empty, staging := .empty
    floors := [], yielding := false, yieldPending := false, companionOnTop := false
    deferred := none }

def isDone (c : Coroutine β κ) : Bool := c.status == .terminal

/-- some value is in its storage or staged -/
def hasSavedValues (c : Coroutine β κ) : Bool := !c.storage.isEmpty || !c.staging.isEmpty

/-- the reference by which code names it -/
def ref (c : Coroutine β κ) : Ref := .coroutine c.id

/-! ## running -/

/-- the body is taken out to be called -/
def takeBody (c : Coroutine β κ) : Outcome β κ β :=
  match c.body with
  | some body => (.ok body, { c with body := none, status := .running })
  | none => (.error (.alreadyRunning c.id), { c with status := .terminal })

/-- A run begins.  A suspended coroutine first drops the reference that its outermost call left for
a caller, which is none here. -/
def beginRun (c : Coroutine β κ) : Outcome β κ β :=
  match c.status with
  | .terminal => (.error (.resumeTerminal c.id), c)
  | .running => (.error (.alreadyRunning c.id), c)
  | .initial => c.takeBody
  | .suspended =>
    match c.storage.pop? .ref with
    | some (_, storage) => { c with storage }.takeBody
    | none => (.error (.storageUnderflow .ref), c)

/-- A run ends; `finished` says that the body returned and did not throw.  It is suspended if a
yield is being unwound, and what that yield deferred is handed out. -/
def endRun (c : Coroutine β κ) (body : β) (finished : Bool) : Option κ × Coroutine β κ :=
  if finished && c.yielding then
    (c.deferred, { c with body := some body, status := .suspended, yielding := false
                          yieldPending := true, deferred := none })
  else
    (none, { c with body := some body, status := .terminal, yielding := false, deferred := none })

/-- The request to suspend, with what is to run afterwards.  Called again on the way back, it does
nothing.  It leaves the coroutine's own reference as that of the receiver of the call. -/
def yield (c : Coroutine β κ) (deferred : Option κ) : Outcome β κ Unit :=
  if c.yieldPending then (.ok (), { c with yieldPending := false })
  else if c.status ≠ .running then (.error (.notRunning c.id), c)
  else if c.yielding then (.error (.doubleYield c.id), c)
  else
    (.ok (), { c with yielding := true, deferred, storage := c.storage.pushRef (some c.ref)
                      companionOnTop := true })

/-! ## saved positions -/

def pushState (c : Coroutine β κ) (n : Int32) : Coroutine β κ :=
  { c with states := n :: c.states, companionOnTop := false }

/-- the innermost saved position, or −1 when none is left -/
def popState (c : Coroutine β κ) : Int32 × Coroutine β κ :=
  match c.states with
  | [] => (-1, c)
  | n :: states => (n, { c with states })

/-! ## storage -/

def push (c : Coroutine β κ) (v : Value) : Outcome β κ Unit :=
  match c.storage.push? v with
  | some storage => (.ok (), { c with storage, companionOnTop := false })
  | none => (.error .unstorable, c)

/-- the top of a kind; afterwards no receiver counts as being on top, found or not -/
def pop (c : Coroutine β κ) (k : Kind) : Outcome β κ Value :=
  match c.storage.pop? k with
  | some (v, storage) => (.ok v, { c with storage, companionOnTop := false })
  | none => (.error (.storageUnderflow k), { c with companionOnTop := false })

/-- the reference of a receiver, left for whoever calls the method again -/
def pushCompanion (c : Coroutine β κ) (r : Option Ref) : Coroutine β κ :=
  { c with storage := c.storage.pushRef r, companionOnTop := true }

/-- drop the reference of a receiver, if one is on top -/
def discardCompanion (c : Coroutine β κ) : Outcome β κ Unit :=
  if c.companionOnTop then
    match c.storage.pop? .ref with
    | some (_, storage) => (.ok (), { c with storage, companionOnTop := false })
    | none => (.error (.storageUnderflow .ref), c)
  else (.ok (), c)

/-! ## staging -/

/-- open a staging frame -/
def beginStaging (c : Coroutine β κ) : Coroutine β κ :=
  { c with floors := c.staging.depths :: c.floors }

/-- put a value into the innermost staging frame -/
def stage (c : Coroutine β κ) (v : Value) : Outcome β κ Unit :=
  match c.floors with
  | [] => (.error .noStagingFrame, c)
  | _ :: _ =>
    match c.staging.push? v with
    | some staging => (.ok (), { c with staging })
    | none => (.error .unstorable, c)

/-- a value of the innermost staging frame, counted from its top -/
def peekStaged (c : Coroutine β κ) (k : Kind) (depth : Nat) : Outcome β κ Value :=
  match c.floors with
  | [] => (.error .noStagingFrame, c)
  | floor :: _ =>
    match ((c.staging.above floor).stack k)[depth]? with
    | some v => (.ok v, c)
    | none => (.error (.stagingUnderflow k depth), c)

/-- move the innermost staging frame into the storage -/
def commitStaging (c : Coroutine β κ) : Outcome β κ Unit :=
  match c.floors with
  | [] => (.error .noStagingFrame, c)
  | floor :: floors =>
    (.ok (), { c with floors, storage := (c.staging.above floor).append c.storage
                      staging := c.staging.below floor, companionOnTop := false })

/-- drop the innermost staging frame -/
def endStaging (c : Coroutine β κ) : Outcome β κ Unit :=
  match c.floors with
  | [] => (.error .noStagingFrame, c)
  | floor :: floors => (.ok (), { c with floors, staging := c.staging.below floor })

end Coroutine

end Resumable
