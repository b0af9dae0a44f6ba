import Resumable.Frame.Effect
import Resumable.Frame.Merge

/-!
# The frames of a method

The frame before each instruction is the least solution of the flow equations: what an instruction
leaves flows to its jump targets and, unless control ends there, to the next instruction; from
every instruction of a protected range the locals flow to the handler, with the caught exception
alone on the stack.  Frames that meet are joined.

* `Flow.edges` : what flows out of an instruction, in order;
* `Flow.step` : one instruction of the work list;
* `Flow.frames` : the frames of a method, or the first failure with the index it belongs to.

The work list is first in, first out, and holds no index twice.
-/

namespace Resumable

/-- a failure and the instruction it belongs to -/
structure Located where
  index : Nat
  failure : AnalysisFailure
deriving DecidableEq, Repr

/-- an exception region by positions -/
structure Handler where
  start : Nat
  stop : Nat
  target : Nat
  /-- category of what is caught -/
  caught : Category
deriving DecidableEq, Repr

namespace Flow

/-- a label's position, or the failure of a table that mentions it -/
def tablePosition (code : List Insn) (l : Label) : Except Located Nat :=
  match labelPosition l code with
  | some n => .ok n
  | none => .error ⟨0, .unknownLabel l⟩

/-- an exception region by positions -/
def handler (code : List Insn) (t : TryCatch) : Except Located Handler := do
  let start ← tablePosition code t.start
  let stop ← tablePosition code t.stop
  let target ← tablePosition code t.handler
  .ok { start, stop, target, caught := .ref (t.catchType.getD throwableType) }

/-- what every step looks at -/
structure Body where
  code : List Insn
  handlers : List Handler
  program : Program

/-- frames found so far and the indices to look at, the next one first -/
structure State where
  frames : List (Option Frame)
  pending : List Nat
deriving DecidableEq, Repr

/-- an instruction that receives a frame -/
abbrev Edge := Nat × Frame

/-- what flows to handlers from an instruction -/
def handlerEdges (b : Body) (i : Nat) (before : Frame) : List Edge :=
  (b.handlers.filter fun h => h.start ≤ i && i < h.stop).map fun h =>
    (h.target, ⟨before.locals, [h.caught]⟩)

/-- what flows to jump targets -/
def jumpEdges (b : Body) (i : Nat) (after : Frame) : List Label → Except Located (List Edge)
  | [] => .ok []
  | l :: ls =>
    match labelPosition l b.code with
    | some n => do
      let rest ← jumpEdges b i after ls
      .ok ((n, after) :: rest)
    | none => .error ⟨i, .unknownLabel l⟩

/-- what flows to the next instruction -/
def nextEdges (b : Body) (i : Nat) (insn : Insn) (after : Frame) : Except Located (List Edge) :=
  if insn.fallsThrough then
    if i + 1 < b.code.length then .ok [(i + 1, after)] else .error ⟨i, .fallOffEnd⟩
  else .ok []

/-- what flows out of an instruction: to handlers, to jump targets, to the next instruction -/
def edges (b : Body) (i : Nat) (insn : Insn) (before : Frame) : Except Located (List Edge) := do
  let after ← match before.apply insn with
    | .ok f => .ok f
    | .error e => .error ⟨i, e⟩
  let jumps ← jumpEdges b i after insn.targets
  let next ← nextEdges b i insn after
  .ok (handlerEdges b i before ++ jumps ++ next)

/-- one edge: the frame is joined into its target, which is looked at again when it changed -/
def flow (b : Body) (s : State) (e : Edge) : Except Located State :=
  let arrived (g : Frame) : State :=
    { frames := s.frames.set e.1 (some g)
      pending := if e.1 ∈ s.pending then s.pending else s.pending ++ [e.1] }
  match s.frames[e.1]? with
  | some (some old) =>
    match old.merge b.program e.2 with
    | .ok g => .ok (if g = old then s else arrived g)
    | .error f => .error ⟨e.1, f⟩
  | _ => .ok (arrived e.2)

/-- edges in order -/
def flowAll (b : Body) : State → List Edge → Except Located State
  | s, [] => .ok s
  | s, e :: es => do
    let s ← flow b s e
    flowAll b s es

/-- the first pending instruction -/
def step (b : Body) (s : State) : Except Located State :=
  match s.pending with
  | [] => .ok s
  | i :: pending =>
    let s := { s with pending }
    match b.code[i]?, s.frames[i]? with
    | some insn, some (some before) => do
      let es ← edges b i insn before
      flowAll b s es
    | _, _ => .ok s

/-- steps until nothing is pending, at most `fuel` -/
def run (b : Body) : Nat → State → Except Located State
  | 0, s => if s.pending.isEmpty then .ok s else .error ⟨s.pending.headD 0, .unsettled⟩
  | fuel + 1, s =>
    if s.pending.isEmpty then .ok s
    else do
      let s ← step b s
      run b fuel s

/-- only the first instruction has a frame -/
def start (code : List Insn) (entry : Frame) : State :=
  { frames := some entry :: List.replicate (code.length - 1) none
    pending := [0] }

/-- Steps that settle every frame, unless joins of types go round in circles: a frame changes at most
once for each slot and each superclass, and the stack is at most twice as high as the code is long
above that of the entry. -/
def settlingBound (b : Body) (entry : Frame) : Nat :=
  b.code.length *
    (1 + (entry.locals.length + entry.stack.length + 2 * b.code.length + 1) *
      (b.program.superNames.length + 2))

/-- Steps that are taken before the work list is given up.  In a hierarchy with cycles it may never get
empty; what is added makes the steps so many that giving up is not seen. -/
def stepBound (b : Body) (entry : Frame) : Nat :=
  settlingBound b entry + 4611686018427387904

/-- the frame before every instruction; unreachable ones have none -/
def frames (p : Program) (code : List Insn) (tryCatches : List TryCatch) (entry : Frame) :
    Except Located (List (Option Frame)) := do
  let handlers ← tryCatches.mapM (handler code)
  if code.isEmpty then .error ⟨0, .fallOffEnd⟩
  else
    let b : Body := { code, handlers, program := p }
    let s ← run b (stepBound b entry) (start code entry)
    .ok s.frames

end Flow

end Resumable
