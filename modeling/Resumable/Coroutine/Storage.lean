import Resumable.Value

/-!
# Storage

What a suspended coroutine keeps: one stack of values for each kind.  The stacks grow and shrink
independently of one another; the depths of all five mark a point to which the storage can be cut
back.

* `Storage.push?`, `Storage.pop?` : one value on the stack of its kind;
* `Storage.depths` : the heights of all stacks;
* `Storage.above`, `Storage.below` : what lies above and below such depths;
* `Storage.stack` : the values of one kind, which is what the other operations are described by.
-/

namespace Resumable

/-- five stacks, the top of each first -/
structure Storage where
  refs : List (Option Ref)
  ints : List Int32
  longs : List Int64
  floats : List Float32
  doubles : List Float
deriving Repr, Inhabited

/-- a height of each stack -/
structure Depths where
  refs : Nat
  ints : Nat
  longs : Nat
  floats : Nat
  doubles : Nat
deriving DecidableEq, Repr, Inhabited

/-- the height of the stack of a kind -/
def Depths.get (d : Depths) : Kind → Nat
  | .ref => d.refs
  | .int => d.ints
  | .long => d.longs
  | .float => d.floats
  | .double => d.doubles

namespace Storage

def empty : Storage := ⟨[], [], [], [], []⟩

/-- the values of a kind, the top first -/
def stack (s : Storage) : Kind → List Value
  | .ref => s.refs.map .ref
  | .int => s.ints.map .int
  | .long => s.longs.map .long
  | .float => s.floats.map .float
  | .double => s.doubles.map .double

/-- a value on the stack of its kind; an empty slot has none -/
def push? (s : Storage) : Value → Option Storage
  | .top => none
  | .int v => some { s with ints := v :: s.ints }
  | .long v => some { s with longs := v :: s.longs }
  | .float v => some { s with floats := v :: s.floats }
  | .double v => some { s with doubles := v :: s.doubles }
  | .ref r => some { s with refs := r :: s.refs }

def pushRef (s : Storage) (r : Option Ref) : Storage := { s with refs := r :: s.refs }

/-- the top of the stack of a kind, and the storage without it -/
def pop? (s : Storage) : Kind → Option (Value × Storage)
  | .ref =>
    match s.refs with
    | [] => none
    | v :: refs => some (.ref v, { s with refs })
  | .int =>
    match s.ints with
    | [] => none
    | v :: ints => some (.int v, { s with ints })
  | .long =>
    match s.longs with
    | [] => none
    | v :: longs => some (.long v, { s with longs })
  | .float =>
    match s.floats with
    | [] => none
    | v :: floats => some (.float v, { s with floats })
  | .double =>
    match s.doubles with
    | [] => none
    | v :: doubles => some (.double v, { s with doubles })

/-- the heights of all stacks -/
def depths (s : Storage) : Depths :=
  ⟨s.refs.length, s.ints.length, s.longs.length, s.floats.length, s.doubles.length⟩

/-- all stacks are empty -/
def isEmpty (s : Storage) : Bool :=
  s.refs.isEmpty && s.ints.isEmpty && s.longs.isEmpty && s.floats.isEmpty && s.doubles.isEmpty

/-- the elements of a stack above a height -/
def aboveHeight {α : Type} (n : Nat) (xs : List α) : List α := xs.take (xs.length - n)

/-- the elements of a stack below a height -/
def belowHeight {α : Type} (n : Nat) (xs : List α) : List α := xs.drop (xs.length - n)

/-- what lies above the given heights -/
def above (s : Storage) (d : Depths) : Storage :=
  ⟨aboveHeight d.refs s.refs, aboveHeight d.ints s.ints, aboveHeight d.longs s.longs,
    aboveHeight d.floats s.floats, aboveHeight d.doubles s.doubles⟩

/-- what lies below the given heights -/
def below (s : Storage) (d : Depths) : Storage :=
  ⟨belowHeight d.refs s.refs, belowHeight d.ints s.ints, belowHeight d.longs s.longs,
    belowHeight d.floats s.floats, belowHeight d.doubles s.doubles⟩

/-- the stacks of one storage on top of those of another -/
def append (s t : Storage) : Storage :=
  ⟨s.refs ++ t.refs, s.ints ++ t.ints, s.longs ++ t.longs, s.floats ++ t.floats,
    s.doubles ++ t.doubles⟩

/-! ## by kind -/

theorem stack_empty (k : Kind) : empty.stack k = [] := by cases k <;> rfl

theorem stack_push?_self {s t : Storage} {v : Value} {k : Kind} (h : s.push? v = some t)
    (hk : v.kind? = some k) : t.stack k = v :: s.stack k := by
  cases v <;> simp_all [push?, Value.kind?] <;> subst hk <;> subst h <;> rfl

theorem stack_push?_of_ne {s t : Storage} {v : Value} {k : Kind} (h : s.push? v = some t)
    (hk : v.kind? ≠ some k) : t.stack k = s.stack k := by
  cases v <;> cases k <;> simp_all [push?, Value.kind?] <;> subst h <;> rfl

/-- exactly empty slots cannot be stored -/
theorem push?_eq_none_iff {s : Storage} {v : Value} : s.push? v = none ↔ v = .top := by
  cases v <;> simp [push?]

theorem stack_append (s t : Storage) (k : Kind) :
    (s.append t).stack k = s.stack k ++ t.stack k := by
  cases k <;> simp [append, stack]

theorem stack_above (s : Storage) (d : Depths) (k : Kind) :
    (s.above d).stack k = aboveHeight (d.get k) (s.stack k) := by
  cases k <;> simp [above, stack, aboveHeight, Depths.get, List.map_take]

theorem stack_below (s : Storage) (d : Depths) (k : Kind) :
    (s.below d).stack k = belowHeight (d.get k) (s.stack k) := by
  cases k <;> simp [below, stack, belowHeight, Depths.get, List.map_drop]

theorem depths_get (s : Storage) (k : Kind) : s.depths.get k = (s.stack k).length := by
  cases k <;> simp [depths, stack, Depths.get]

/-- cutting a storage in two loses nothing -/
theorem above_append_below (s : Storage) (d : Depths) : (s.above d).append (s.below d) = s := by
  simp [above, below, append, aboveHeight, belowHeight, List.take_append_drop]

end Storage

end Resumable
