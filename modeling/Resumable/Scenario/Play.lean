import Resumable.Scenario.Action

/-!
# Playing scenarios

Actions are carried out one after another.  Each one is noted with what it gave, after everything
that happened within it; only `attempt`, `done` and the two branchings are not noted themselves.  An
action that throws ends its activation, unless it is attempted.

A coroutine carries out the list of actions that belongs to the number of its activation, and the
last list from then on.

* `Play` : computations on a stage;
* `perform` : one action with everything that follows from it;
* `Stage.play` : an action from outside of all coroutines.
-/

namespace Resumable.Scenario

/-- what ends an activation early -/
inductive Stop where
  | done
  | threw (t : Throw)

/-- a computation on a stage -/
abbrev Play (α : Type) := ExceptT Stop (StateM Stage) α

/-- the lists of actions of coroutines, by name -/
abbrev Scripts := List (String × List (List Action))

/-- the actions of an activation, counted from one -/
def Scripts.actions (scripts : Scripts) (name : String) (activation : Nat) : List Action :=
  let runs := (scripts.lookup name).getD []
  (runs[activation - 1]?).getD (runs.getLast?.getD [])

namespace Play

def fault {α : Type} (f : Fault) : Play α := throw (.threw (.fault f))

/-- an operation of the engine; a violation is a fault -/
def engine {α : Type} (op : Engine Body Deferred → Except Violation α × Engine Body Deferred) :
    Play α := do
  let s ← get
  let (r, engine) := op s.engine
  set { s with engine }
  match r with
  | .ok a => return a
  | .error v => fault (.violation v)

/-- an operation of the running coroutine -/
def current {α : Type} (op : Coro → Coroutine.Outcome Body Deferred α) : Play α :=
  engine fun e => e.onCurrent op

def coroutines : Play (Engine Body Deferred) := return (← get).engine

def unknown {α : Type} (name : String) : Play α := fault (.host ("no coro " ++ name))

/-- the coroutine of a name -/
def named (name : String) : Play Nat := do
  match (← get).id? name with
  | some id => return id
  | none => unknown name

/-- the coroutine of a name, or the running one -/
def target (name : Option String) : Play Nat := do
  match name with
  | some n => named n
  | none =>
    match (← coroutines).currentId? with
    | some id => return id
    | none => fault (.host "no current")

/-- the value of a literal -/
def build (l : Literal) : Play Value := do
  let s ← get
  match l.build s.given s.heap with
  | .ok (v, heap) =>
    set { s with heap }
    return v
  | .error name => unknown name

/-- the coroutine of a number as it is now -/
def snapshot (id : Nat) : Play Played := do
  match (← coroutines).get? id with
  | some c => return .state c
  | none => return .nothing

/-- note an action -/
def note (actor : String) (a : Action) (p : Played) : Play Unit :=
  modify fun s => { s with log := ⟨actor, a, p⟩ :: s.log }

/-- throw a new object; it has a message only if one is given -/
def throwNew {α : Type} (type : String) (message : Option String) : Play α := do
  let s ← get
  let (r, heap) := match message with
    | some text => s.heap.makeThrowable type text
    | none =>
      let (a, h) := s.heap.alloc (.instance type [])
      (.object a, h)
  set { s with heap }
  throw (.threw (.exception r))

/-- a computation with what stopped it, if something did -/
def observe {α : Type} (p : Play α) : Play (Except Stop α) := fun s =>
  let (r, s) := p.run s
  (.ok r, s)

/-- a computation while no coroutine runs; those that do run on afterwards -/
def apart {α : Type} (p : Play α) : Play α := do
  let active := (← coroutines).active
  modify fun s => { s with engine := { s.engine with active := [] } }
  let r ← observe p
  modify fun s => { s with engine := { s.engine with active } }
  match r with
  | .ok a => return a
  | .error e => throw e

end Play

open Play

/-- an action that carries out no others -/
def performSimple (actor : String) (a : Action) : Play Played := do
  match a with
  | .create name =>
    let id ← engine fun e =>
      let (id, e) := e.create ⟨name, 0⟩
      (.ok id, e)
    modify fun s => s.rename name id
    return .nothing
  | .yield name =>
    let id ← target name
    engine fun e => e.on id fun c => c.yield none
    return .nothing
  | .yieldWith name actions =>
    let id ← target name
    engine fun e => e.on id fun c => c.yield (some ⟨actor ++ "+", actions⟩)
    return .nothing
  | .state name => snapshot (← target name)
  | .id name => return .value (.coroutine (← target name))
  | .exists => return .truth (← coroutines).exists
  | .depth => return .count (← coroutines).active.length
  | .isYielding => return .truth (← coroutines).isYielding
  | .current =>
    let s ← get
    return .name (s.engine.currentId?.bind s.name?)
  | .push l =>
    let v ← build l
    current fun c => c.push v
    return .nothing
  | .pop k => return .value (← current fun c => c.pop k)
  | .pushState n =>
    current (Engine.update fun c => c.pushState n)
    return .nothing
  | .popState => return .int (← current (Engine.sure Coroutine.popState))
  | .pushCompanion l =>
    match ← build l with
    | .ref r =>
      current (Engine.update fun c => c.pushCompanion r)
      return .nothing
    | _ => fault (.host "companion must be a reference")
  | .discardCompanion =>
    current Coroutine.discardCompanion
    return .nothing
  | .beginStaging =>
    current (Engine.update Coroutine.beginStaging)
    return .nothing
  | .stage l =>
    let v ← build l
    current fun c => c.stage v
    return .nothing
  | .peekStaged k depth => return .value (← current fun c => c.peekStaged k depth)
  | .commitStaging =>
    current Coroutine.commitStaging
    return .nothing
  | .endStaging =>
    current Coroutine.endStaging
    return .nothing
  | .same a b =>
    let v ← build a
    let w ← build b
    return .truth (v == w)
  | .show l =>
    let v ← build l
    let h := (← get).heap
    return .texts (h.text? v) (h.shown v) v.width
  | .throw type message => throwNew type message
  | .fault message => fault (.host message)
  | _ => return .nothing

/-- the actor of an activation -/
def activationName (b : Body) : String := b.name ++ "/" ++ toString b.activations

mutual

/-- one action with everything that follows from it, at most `fuel` deep -/
def perform (scripts : Scripts) : Nat → String → Action → Play Unit
  | 0, _, _ => fault (.host "too deep")
  | fuel + 1, actor, a =>
    match a with
    | .attempt b => do
      match ← observe (perform scripts fuel actor b) with
      | .error .done => throw .done
      | _ => return
    | .done => throw .done
    | .ifFresh fresh restored => do
      let n ← current (Engine.sure Coroutine.popState)
      performAll scripts fuel actor (if n = -1 then fresh else restored)
    | .ifYielding yielding going => do
      performAll scripts fuel actor (if (← coroutines).isYielding then yielding else going)
    | _ => do
      match ← observe (performNoted scripts fuel actor a) with
      | .ok p => note actor a p
      | .error (.threw t) =>
        note actor a (.threw t)
        throw (.threw t)
      | .error .done => throw .done

/-- an action that is noted -/
def performNoted (scripts : Scripts) : Nat → String → Action → Play Played
  | 0, _, _ => fault (.host "too deep")
  | fuel + 1, actor, a =>
    match a with
    | .start name | .resume name => do
      resumeBody scripts fuel (← named name)
      return .nothing
    | .resumeApart name => do
      let id ← named name
      apart (resumeBody scripts fuel id)
      return .nothing
    | _ => performSimple actor a

/-- a coroutine runs until it is suspended or ends; what it deferred follows -/
def resumeBody (scripts : Scripts) : Nat → Nat → Play Unit
  | 0, _ => fault (.host "too deep")
  | fuel + 1, id => do
    let b ← engine fun e => e.enter id
    let b := { b with activations := b.activations + 1 }
    let r ← observe
      (performAll scripts fuel (activationName b) (scripts.actions b.name b.activations))
    let finished := match r with
      | .ok _ | .error .done => true
      | .error (.threw _) => false
    let deferred ← engine fun e =>
      let (deferred, e) := e.leave id b finished
      (.ok deferred, e)
    match r, deferred with
    | .error (.threw t), _ => throw (.threw t)
    | _, none => return
    | _, some d =>
      match ← observe (performAll scripts fuel d.actor d.actions) with
      | .error (.threw t) => throw (.threw t)
      | _ => return

/-- actions one after another -/
def performAll (scripts : Scripts) : Nat → String → List Action → Play Unit
  | 0, _, _ => fault (.host "too deep")
  | _ + 1, _, [] => return
  | fuel + 1, actor, a :: as => do
    perform scripts fuel actor a
    performAll scripts fuel actor as

end

/-- An action from outside of all coroutines, at most `fuel` deep: the stage afterwards, with what
was carried out. -/
def Stage.play (scripts : Scripts) (fuel : Nat) (s : Stage) (a : Action) : Stage :=
  ((perform scripts fuel "main" a).run { s with log := [] }).2

end Resumable.Scenario
