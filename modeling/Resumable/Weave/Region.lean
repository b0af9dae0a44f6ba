import Resumable.Code.Program

/-!
# Clipping exception regions

A method's own handlers must not protect code put in.  A region is clipped against every excluded
range until nothing of it lies in one; what remains of it keeps its handler and its catch type, and
pieces that protect no instruction are dropped.

* `Region.clip` : one region against one excluded range;
* `Region.pieces` : what remains of a region, in order;
* `splitRegions` : the exception table of woven code.
-/

namespace Resumable

/-- why a method is not woven -/
inductive WeaveFailure where
  | regionInsideInjectedCode (start stop : Label)
  | nothingToInstrument
  | staleAnalysis
  | unknownLabel (l : Label)
  | badDescriptor (desc : String)
  /-- a region that ends before it starts -/
  | reversedRegion (start stop : Label)
deriving DecidableEq, Repr

/-- an excluded range `[start, stop)` by its labels -/
structure Exclusion where
  start : Label
  stop : Label
deriving DecidableEq, Repr, Inhabited

/-- a range `[start, stop)` of positions -/
structure Region where
  start : Nat
  stop : Nat
deriving DecidableEq, Repr, Inhabited

namespace Region

/-- what clipping leaves of a region -/
inductive Clip where
  | keep
  | split (left right : Region)
  | trim (rest : Region)
  | inside
deriving DecidableEq, Repr

/-- one region against one excluded range -/
def clip (r ex : Region) : Clip :=
  if ex.stop ≤ r.start ∨ r.stop ≤ ex.start then .keep
  else
    match decide (r.start < ex.start), decide (ex.stop < r.stop) with
    | true, true => .split ⟨r.start, ex.start⟩ ⟨ex.stop, r.stop⟩
    | true, false => .trim ⟨r.start, ex.start⟩
    | false, true => .trim ⟨ex.stop, r.stop⟩
    | false, false => .inside

/-- the first excluded range that takes something away -/
def firstClip (r : Region) : List Region → Clip
  | [] => .keep
  | ex :: exs =>
    match r.clip ex with
    | .keep => r.firstClip exs
    | c => c

/-- What remains of a region; nothing when all of it is excluded at once.  Each clip moves the end
down or the start up, so `fuel` need not exceed their distance to the ends of the code. -/
def piecesFrom (excluded : List Region) : Nat → Region → Option (List Region)
  | 0, r => some [r]
  | fuel + 1, r =>
    match r.firstClip excluded with
    | .keep => some [r]
    | .split a b => do
      let left ← piecesFrom excluded fuel a
      let right ← piecesFrom excluded fuel b
      some (left ++ right)
    | .trim a => piecesFrom excluded fuel a
    | .inside => none

/-- put a region before the first one that does not start earlier -/
def insertByStart (r : Region) : List Region → List Region
  | [] => [r]
  | s :: ss => if r.start ≤ s.start then r :: s :: ss else s :: insertByStart r ss

/-- sorted by start; of equal starts the earlier one stays first -/
def sortByStart (rs : List Region) : List Region := rs.foldr insertByStart []

/-- what remains of a region in code of the given length, by increasing start -/
def pieces (excluded : List Region) (length : Nat) (r : Region) : Option (List Region) :=
  (piecesFrom excluded (r.stop + (length - r.start) + 1) r).map sortByStart

end Region

/-! ## the table of woven code -/

/-- a label's position in the woven code -/
def regionPosition (code : List Insn) (l : Label) : Except WeaveFailure Nat :=
  match labelPosition l code with
  | some n => .ok n
  | none => .error (.unknownLabel l)

/-- the label whose position it is -/
def labelAt? (code : List Insn) (n : Nat) : Option Label :=
  (code[n]?.bind Insn.label?).filter fun l => labelPosition l code == some n

/-- the region protects an instruction -/
def protectsCode (code : List Insn) (r : Region) : Bool :=
  ((code.drop r.start).take (r.stop - r.start)).any fun i => !i.isLabel

/-- a piece of a region as an entry of the table, unless it protects nothing -/
def pieceEntry (code : List Insn) (t : TryCatch) (r : Region) :
    Except WeaveFailure (List TryCatch) :=
  if r.stop < r.start then .error (.reversedRegion t.start t.stop)
  else if protectsCode code r then
    match labelAt? code r.start, labelAt? code r.stop with
    | some start, some stop => .ok [{ t with start, stop }]
    | _, _ => .ok []
  else .ok []

/-- lists of entries one after another -/
def collectEntries {α : Type} (f : α → Except WeaveFailure (List TryCatch)) :
    List α → Except WeaveFailure (List TryCatch)
  | [] => .ok []
  | a :: as => do
    let es ← f a
    let rest ← collectEntries f as
    .ok (es ++ rest)

/-- the entries that remain of one entry -/
def splitRegion (code : List Insn) (excluded : List Region) (t : TryCatch) :
    Except WeaveFailure (List TryCatch) := do
  let start ← regionPosition code t.start
  let stop ← regionPosition code t.stop
  match Region.pieces excluded code.length ⟨start, stop⟩ with
  | none => .error (.regionInsideInjectedCode t.start t.stop)
  | some rs => collectEntries (pieceEntry code t) rs

/-- an excluded range by positions -/
def exclusionRegion (code : List Insn) (e : Exclusion) : Except WeaveFailure Region := do
  let start ← regionPosition code e.start
  let stop ← regionPosition code e.stop
  .ok ⟨start, stop⟩

/-- the entries that remain of a table, in the order of the table -/
def splitRegions (code : List Insn) (table : List TryCatch) (exclusions : List Exclusion) :
    Except WeaveFailure (List TryCatch) := do
  let excluded ← exclusions.mapM (exclusionRegion code)
  collectEntries (splitRegion code excluded) table

end Resumable
