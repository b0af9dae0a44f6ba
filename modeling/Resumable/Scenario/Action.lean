import Resumable.Coroutine.Engine
import Resumable.Heap.Literal
import Resumable.Machine.Fault

/-!
# Scenarios

A scenario drives coroutines whose bodies are lists of actions instead of woven code: every
operation of the engine is an action, so a scenario can put a coroutine into any state that code
could put it into, and into those that woven code never reaches.

* `Action` : what a body can do;
* `Played` : what an action gives;
* `Stage` : everything that changes while a scenario is played.
-/

namespace Resumable.Scenario

/-- An action.  Coroutines are named; where a name is optional, the running coroutine is meant. -/
inductive Action where
  -- coroutines
  /-- create a coroutine, in place of any of its name -/
  | create (name : String)
  | start (name : String)
  | resume (name : String)
  /-- resume where no other coroutine runs -/
  | resumeApart (name : String)
  | yield (name : Option String)
  | yieldWith (name : Option String) (deferred : List Action)
  -- questions
  | state (name : Option String)
  | id (name : Option String)
  | exists
  | depth
  | isYielding
  | current
  -- saved positions and values
  | push (l : Literal)
  | pop (k : Kind)
  | pushState (n : Int32)
  | popState
  | pushCompanion (l : Literal)
  | discardCompanion
  -- staging
  | beginStaging
  | stage (l : Literal)
  | peekStaged (k : Kind) (depth : Nat)
  | commitStaging
  | endStaging
  -- values
  | same (a b : Literal)
  | show (l : Literal)
  -- ends
  | throw (type : String) (message : Option String)
  | fault (message : String)
  /-- end the activation -/
  | done
  -- actions on other actions
  /-- go on whether the action throws or not -/
  | attempt (a : Action)
  /-- take the innermost saved position; without one the first list is played -/
  | ifFresh (fresh restored : List Action)
  | ifYielding (yielding going : List Action)
deriving Inhabited

/-- what runs a coroutine: its name, and how often it was called -/
structure Body where
  name : String
  activations : Nat
deriving Repr, Inhabited

/-- actions that a yield deferred, and who did so -/
structure Deferred where
  actor : String
  actions : List Action
deriving Inhabited

abbrev Coro := Coroutine Body Deferred

/-- what an action gives -/
inductive Played where
  | nothing
  | value (v : Value)
  | int (n : Int32)
  | count (n : Nat)
  | truth (b : Bool)
  | name (n : Option String)
  | state (c : Coro)
  /-- two texts and a width; a text may be endless -/
  | texts (printed : Option String) (shown : String) (width : Nat)
  | threw (t : Throw)

/-- an action that was carried out: by whom, its place in the vocabulary, what it gave -/
structure Entry where
  actor : String
  action : Action
  played : Played

/-- everything that changes -/
structure Stage where
  heap : Heap
  engine : Engine Body Deferred
  /-- the coroutines of names -/
  names : List (String × Nat)
  /-- what was carried out, the latest first -/
  log : List Entry

namespace Stage

def empty : Stage := ⟨.empty, .empty, [], []⟩

def id? (s : Stage) (name : String) : Option Nat := s.names.lookup name

/-- the name that stands for a coroutine -/
def name? (s : Stage) (id : Nat) : Option String := (s.names.find? fun e => e.2 == id).map Prod.fst

/-- a name given to a coroutine, which is then the only one of the name -/
def rename (s : Stage) (name : String) (id : Nat) : Stage :=
  { s with names := (s.names.filter fun e => e.1 != name) ++ [(name, id)] }

/-- the coroutines that names stand for -/
def named (s : Stage) : List (String × Coro) :=
  s.names.filterMap fun e => (s.engine.get? e.2).map fun c => (e.1, c)

/-- the values that names stand for -/
def given (s : Stage) (name : String) : Option Value := (s.id? name).map .coroutine

/-- what was carried out, in order -/
def entries (s : Stage) : List Entry := s.log.reverse

end Stage

end Resumable.Scenario
