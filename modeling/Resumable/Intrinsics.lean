import Resumable.Hierarchy

/-!
# Methods of the coroutine type

The methods that woven code calls, and those that programs call to drive coroutines.  Stored
values have a method for each kind; references are stored as values of the root type.

* `Intrinsic.id` : the method that an intrinsic is called by;
* `Intrinsic.ofId?` : the intrinsic of a method;
* `Intrinsic.call` : the instruction that calls an intrinsic from woven code.
-/

namespace Resumable

/-- what the coroutine type can do -/
inductive Intrinsic where
  -- questions
  /-- some coroutine is running -/
  | exists
  /-- the running coroutine, or null -/
  | get
  /-- the running coroutine is being suspended -/
  | isYielding
  -- saved positions and values
  | popState
  | pushState
  | push (k : Kind)
  | pop (k : Kind)
  | pushCompanion
  | discardCompanion
  -- arguments of calls into code that is not woven
  | beginStaging
  | stage (k : Kind)
  | peekStaged (k : Kind)
  | commitStaging
  | endStaging
  /-- a saved position belongs to no call of the method -/
  | invalidDispatch
  -- driving coroutines
  | initSuspended
  | start
  | resume
  | yield
  | yieldWith
  | isDone
deriving DecidableEq, Repr

/-- the descriptor of a stored value -/
def Kind.storedDesc : Kind → String
  | .int => "I"
  | .long => "J"
  | .float => "F"
  | .double => "D"
  | .ref => "Ljava/lang/Object;"

/-- the end of the names of methods for a kind -/
def Kind.methodSuffix : Kind → String
  | .int => "Int"
  | .long => "Long"
  | .float => "Float"
  | .double => "Double"
  | .ref => "Ref"

namespace Intrinsic

def name : Intrinsic → String
  | .exists => "exists"
  | .get => "get"
  | .isYielding => "isYielding"
  | .popState => "popState"
  | .pushState => "pushState"
  | .push k => "push" ++ k.methodSuffix
  | .pop k => "pop" ++ k.methodSuffix
  | .pushCompanion => "pushCompanion"
  | .discardCompanion => "discardCompanion"
  | .beginStaging => "beginStaging"
  | .stage k => "stage" ++ k.methodSuffix
  | .peekStaged k => "peekStaged" ++ k.methodSuffix
  | .commitStaging => "commitStaging"
  | .endStaging => "endStaging"
  | .invalidDispatch => "invalidDispatch"
  | .initSuspended => "initSuspended"
  | .start => "start"
  | .resume => "resume"
  | .yield => "yield"
  | .yieldWith => "yield"
  | .isDone => "isDone"

def desc : Intrinsic → String
  | .exists | .isYielding | .isDone => "()Z"
  | .get => "()Lcorofy/Coro;"
  | .popState => "()I"
  | .pushState => "(I)V"
  | .push k | .stage k => "(" ++ k.storedDesc ++ ")V"
  | .pop k => "()" ++ k.storedDesc
  | .peekStaged k => "(I)" ++ k.storedDesc
  | .pushCompanion => "(Ljava/lang/Object;)V"
  | .invalidDispatch => "(Ljava/lang/String;)V"
  | .initSuspended => "(Ljava/lang/Runnable;)Lcorofy/Coro;"
  | .yieldWith => "(Ljava/lang/Runnable;)V"
  | .discardCompanion | .beginStaging | .commitStaging | .endStaging => "()V"
  | .start | .resume | .yield => "()V"

/-- the method that the intrinsic is called by -/
def id (i : Intrinsic) : MethodId := ⟨coroutineType, i.name, i.desc⟩

def all : List Intrinsic :=
  [.exists, .get, .isYielding, .popState, .pushState, .pushCompanion, .discardCompanion,
    .beginStaging, .commitStaging, .endStaging, .invalidDispatch, .initSuspended, .start, .resume,
    .yield, .yieldWith, .isDone] ++
  Kind.all.map .push ++ Kind.all.map .pop ++ Kind.all.map .stage ++ Kind.all.map .peekStaged

/-- the intrinsic of a method -/
def ofId? (m : MethodId) : Option Intrinsic :=
  if m.owner == coroutineType then all.find? fun i => i.name == m.name && i.desc == m.desc
  else none

/-- the call of the intrinsic; woven code calls only those without a receiver -/
def call (i : Intrinsic) : Insn := .invoke .static i.id

end Intrinsic

end Resumable
