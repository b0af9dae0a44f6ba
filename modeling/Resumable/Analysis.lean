import Resumable.Flow
import Resumable.RestorePoint

/-!
# Analysis of a method

The frames of a method, made definite by its hints, together with the calls that may suspend.  A
hint gives its type to a local that is only known to be null; a method with a local that stays so
is refused, because its value could not be restored with a type.

* `Analysis.applyHints`, `Analysis.validate` : hints, and the check after them;
* `Analysis.analyze` : the analysis of a method against a list of patterns;
* `Analysis.ofProvider?`, `Analysis.ofTable?` : the analysis that is asked for, if the method is declared.
-/

namespace Resumable

/-- what the weaving of a method needs to know -/
structure Analysis where
  method : MethodId
  isStatic : Bool
  /-- the method starts a coroutine -/
  rootEntry : Bool
  /-- calls that match a pattern, each occurrence counted -/
  calls : Nat
  /-- callees of these calls, sorted, each once -/
  restorePoints : List MethodId
  /-- those of them whose bodies are not woven -/
  unpatchable : List MethodId
  /-- the frame before each instruction -/
  frames : List (Option Frame)
  insns : List Insn

/-- an analysis that failed -/
structure AnalysisError where
  method : MethodId
  index : Nat
  failure : AnalysisFailure
deriving DecidableEq, Repr

def AnalysisError.message (e : AnalysisError) : String :=
  "analysis of " ++ e.method.text ++ " failed at instruction " ++ toString e.index ++ ": " ++
    e.failure.message

namespace Analysis

/-! ## hints -/

/-- a null local takes the type of a hint -/
def hintLocal (slot : Nat) (type : String) (f : Frame) : Frame :=
  if f.locals[slot]? = some .null then { f with locals := f.locals.set slot (.ref type) } else f

/-- the frames within a range of positions take a hint -/
def hintRange (start stop slot : Nat) (type : String) (frames : List (Option Frame)) :
    List (Option Frame) :=
  frames.mapIdx fun i f =>
    if start ≤ i && i < stop then f.map (hintLocal slot type) else f

/-- one hint; only hints of reference types say anything -/
def applyHint (code : List Insn) (frames : List (Option Frame)) (v : LocalVar) :
    Except Located (List (Option Frame)) :=
  match FieldType.parse? v.desc with
  | some (.ref type) => do
    let start ← Flow.tablePosition code v.start
    let stop ← Flow.tablePosition code v.stop
    .ok (hintRange start stop v.slot.toNat type frames)
  | _ => .ok frames

/-- all hints in order -/
def applyHints (code : List Insn) (frames : List (Option Frame)) (vs : List LocalVar) :
    Except Located (List (Option Frame)) :=
  vs.foldlM (applyHint code) frames

/-! ## the check after hints -/

/-- the first local from a slot on that cannot be saved -/
def badLocal? : Nat → List Category → Option AnalysisFailure
  | _, [] => none
  | slot, c :: cs =>
    match c with
    | .null => some (.unresolvedReference (UInt16.ofNat slot))
    | .returnAddress => some .subroutine
    | _ => badLocal? (slot + 1) cs

/-- why a frame cannot be saved -/
def badFrame? (f : Frame) : Option AnalysisFailure :=
  match badLocal? 0 f.locals with
  | some e => some e
  | none => if .returnAddress ∈ f.stack then some .subroutine else none

/-- the first frame that cannot be saved, counted from an index -/
def badIndex? : Nat → List (Option Frame) → Option Located
  | _, [] => none
  | i, f :: fs =>
    match f.bind badFrame? with
    | some e => some ⟨i, e⟩
    | none => badIndex? (i + 1) fs

/-- every frame can be saved -/
def validate (frames : List (Option Frame)) : Except Located Unit :=
  match badIndex? 0 frames with
  | some e => .error e
  | none => .ok ()

/-! ## calls -/

/-- put into a sorted list, once -/
def insertSorted (m : MethodId) : List MethodId → List MethodId
  | [] => [m]
  | n :: ns =>
    if m = n then n :: ns
    else if m.before n then m :: n :: ns
    else n :: insertSorted m ns

/-- the pattern of the call that an instruction is, if it is a restore point -/
def restorePointOf? (declared : List RestorePoint) : Insn → Option (MethodId × RestorePoint)
  | .invoke _ callee => (RestorePoint.select? declared callee).map fun r => (callee, r)
  | _ => none

/-- callees sorted, each once -/
def sortedSet (ms : List MethodId) : List MethodId := ms.foldr insertSorted []

/-! ## the analysis -/

/-- the frames of a method with its hints applied and checked -/
def definiteFrames (p : Program) (owner : String) (m : Method) :
    Except Located (List (Option Frame)) :=
  match MethodDesc.parse? m.desc with
  | none => .error ⟨0, .badDescriptor m.desc⟩
  | some desc => do
    let entry := Frame.entry owner m.isStatic desc m.maxLocals.toNat
    let frames ← Flow.frames p m.code m.tryCatches entry
    let frames ← applyHints m.code frames m.localVars
    validate frames
    .ok frames

/-- the analysis of a method against a list of patterns -/
def analyze (p : Program) (owner : String) (m : Method) (declared : List RestorePoint)
    (rootEntry : Bool) : Except AnalysisError Analysis :=
  match definiteFrames p owner m with
  | .error e => .error ⟨m.id owner, e.index, e.failure⟩
  | .ok frames =>
    let found := m.code.filterMap (restorePointOf? declared)
    .ok
      { method := m.id owner
        isStatic := m.isStatic
        rootEntry
        calls := found.length
        restorePoints := sortedSet (found.map Prod.fst)
        unpatchable := sortedSet ((found.filter fun e => !e.2.patchable).map Prod.fst)
        frames
        insns := m.code }

/-- the analysis that is asked for; a method that is not declared is not analyzed -/
def ofProvider? (p : Program) (s : SpecProvider) (owner : String) (m : Method) :
    Except AnalysisError (Option Analysis) :=
  match s.restorePoints? (m.id owner) with
  | none => .ok none
  | some declared => (analyze p owner m declared (s.isEntry (m.id owner))).map some

/-- the analysis that a table asks for -/
def ofTable? (p : Program) (t : RestoreTable) (owner : String) (m : Method) :
    Except AnalysisError (Option Analysis) := ofProvider? p t.provider owner m

/-- some call has to be woven -/
def needsWeaving (a : Analysis) : Bool := 0 < a.calls

end Analysis

end Resumable
