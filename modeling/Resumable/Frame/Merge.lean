import Resumable.Frame.Basic

/-!
# Joining frames

Where two paths meet, a slot keeps its category if both agree on it; two references join in their
common supertype, null joins any reference, and locals that do not agree become empty.  Operand
stacks must have one height and must agree in every entry up to the types of references.

* `mergeCategory` : the join of two categories;
* `Frame.merge` : the join of two frames.
-/

namespace Resumable

/-- the join of two categories, if there is one -/
def mergeCategory (p : Program) (a b : Category) : Option Category :=
  if a = b then some a
  else
    match a, b with
    | .null, .ref t => some (.ref t)
    | .ref t, .null => some (.ref t)
    | .ref s, .ref t => some (.ref (p.commonSupertype s t))
    | _, _ => none

theorem mergeCategory_self (p : Program) (a : Category) : mergeCategory p a a = some a := by
  simp [mergeCategory]

namespace Frame

/-- The join of two stacks of one height, from the bottom up: the lowest conflict is reported. -/
def mergeStack (p : Program) :
    List Category → List Category → Except AnalysisFailure (List Category)
  | a :: as, b :: bs => do
    let rest ← mergeStack p as bs
    match mergeCategory p a b with
    | some c => .ok (c :: rest)
    | none => .error (.mergeConflict a b)
  | _, _ => .ok []

/-- the join of two lists of locals; the longer one is followed by empty slots -/
def mergeLocals (p : Program) : List Category → List Category → List Category
  | a :: as, b :: bs => (mergeCategory p a b).getD .empty :: mergeLocals p as bs
  | [], bs => bs.map fun _ => .empty
  | as, [] => as.map fun _ => .empty

/-- the join of two frames that reach the same instruction -/
def merge (p : Program) (f g : Frame) : Except AnalysisFailure Frame :=
  if f.stack.length = g.stack.length then do
    let stack ← mergeStack p f.stack g.stack
    .ok { locals := mergeLocals p f.locals g.locals, stack }
  else .error (.stackHeightMismatch f.stack.length g.stack.length)

theorem mergeStack_self (p : Program) (s : List Category) : mergeStack p s s = .ok s := by
  induction s with
  | nil => rfl
  | cons c s ih => simp [mergeStack, ih, mergeCategory_self, bind, Except.bind]

theorem mergeLocals_self (p : Program) (l : List Category) : mergeLocals p l l = l := by
  induction l with
  | nil => rfl
  | cons c l ih => simp [mergeLocals, ih, mergeCategory_self]

/-- joining a frame with itself changes nothing -/
theorem merge_self (p : Program) (f : Frame) : merge p f f = .ok f := by
  simp [merge, mergeStack_self, mergeLocals_self, bind, Except.bind]

end Frame

end Resumable
