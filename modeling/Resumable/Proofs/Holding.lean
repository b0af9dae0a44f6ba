import Mathlib.Logic.Function.Basic
import Resumable.Proofs.Deferral
import Resumable.Proofs.Stored

/-!
# What coroutines hold

A coroutine keeps the values of all staging frames in the same five stacks, with the heights at which the frames
begin.  To its code this looks like frames with stacks of their own, of which only the innermost one is used:
whatever storage operations are done, in whatever order, they give the same results.  Nor does it matter in what
form the values are kept, so a coroutine need not hold a reference to itself: a marker does as well.

* `Stacks`, `Holding` : stacks of entries, and what a coroutine holds;
* `Coding`, `Area` : how values are saved, and how staging frames are kept;
* `Holding.perform` : the storage operations;
* `Represents`, `Holding.perform_reform` : results do not depend on how values and frames are kept;
* `Marks.cut`, `Marks.Ascending`, `marks_represents` : the frames that heights in shared stacks stand for;
* `Saved`, `coding_represents` : a marker for the coroutine itself;
* `Coroutine.perform_holding` : the operations of a coroutine;
* `Thread.storage_refines` : all sequences of operations.
-/

namespace Resumable

/-! ## stacks -/

/-- a stack of entries for each kind, the top of each first -/
abbrev Stacks (ε : Type) := Kind → List ε

namespace Stacks

variable {ε ε' : Type} {s t : Stacks ε} {d : Kind → Nat}

def empty : Stacks ε := fun _ => []

/-- an entry on the stack of a kind -/
def put (s : Stacks ε) (k : Kind) (x : ε) : Stacks ε := Function.update s k (x :: s k)

/-- stacks on top of others -/
def append (s t : Stacks ε) : Stacks ε := fun k => s k ++ t k

def heights (s : Stacks ε) : Kind → Nat := fun k => (s k).length

/-- what lies above the given heights -/
def above (s : Stacks ε) (d : Kind → Nat) : Stacks ε := fun k => Storage.aboveHeight (d k) (s k)

/-- what lies below the given heights -/
def below (s : Stacks ε) (d : Kind → Nat) : Stacks ε := fun k => Storage.belowHeight (d k) (s k)

def map (f : ε → ε') (s : Stacks ε) : Stacks ε' := fun k => (s k).map f

theorem map_id (s : Stacks ε) : s.map id = s := funext fun k => List.map_id (s k)

theorem map_update (f : ε → ε') (s : Stacks ε) (k : Kind) (xs : List ε) :
    map f (Function.update s k xs) = Function.update (s.map f) k (xs.map f) :=
  funext fun n => Function.apply_update (fun _ => List.map f) s k xs n

theorem map_put (f : ε → ε') (s : Stacks ε) (k : Kind) (x : ε) : (s.put k x).map f = (s.map f).put k (f x) :=
  map_update f s k (x :: s k)

theorem map_append (f : ε → ε') (s t : Stacks ε) : (s.append t).map f = (s.map f).append (t.map f) :=
  funext fun _ => List.map_append

theorem map_above (f : ε → ε') (s : Stacks ε) (d : Kind → Nat) : (s.above d).map f = (s.map f).above d := by
  funext k
  simp only [map, above, Storage.aboveHeight, List.map_take, List.length_map]

theorem map_below (f : ε → ε') (s : Stacks ε) (d : Kind → Nat) : (s.below d).map f = (s.map f).below d := by
  funext k
  simp only [map, below, Storage.belowHeight, List.map_drop, List.length_map]

theorem heights_map (f : ε → ε') (s : Stacks ε) : (s.map f).heights = s.heights :=
  funext fun _ => List.length_map f

/-! ## stacks that are cut -/

theorem above_heights (s : Stacks ε) : s.above s.heights = empty := by
  funext k
  simp [above, heights, Storage.aboveHeight, empty]

theorem below_heights (s : Stacks ε) : s.below s.heights = s := by
  funext k
  simp [below, heights, Storage.belowHeight]

theorem heights_below (h : ∀ k, d k ≤ s.heights k) : (s.below d).heights = d := by
  funext k
  simp only [heights, below, Storage.belowHeight, List.length_drop]
  exact Nat.sub_sub_self (h k)

theorem heights_le_put (s : Stacks ε) (k : Kind) (x : ε) (n : Kind) : s.heights n ≤ (s.put k x).heights n := by
  simp only [heights, put, Function.update_apply]
  split
  · rename_i hn
    simp [hn]
  · exact Nat.le_refl _

theorem length_cons_sub (h : ∀ k, d k ≤ s.heights k) (k : Kind) (x : ε) :
    (x :: s k).length - d k = (s k).length - d k + 1 := Nat.succ_sub (h k)

/-- an entry that is put on top lies above any heights of the stacks -/
theorem above_put (h : ∀ k, d k ≤ s.heights k) (k : Kind) (x : ε) : (s.put k x).above d = (s.above d).put k x := by
  funext n
  simp only [above, put, Function.update_apply]
  split
  · rename_i hn
    rw [hn, Storage.aboveHeight, length_cons_sub h, List.take_succ_cons]
    rfl
  · rfl

theorem below_put (h : ∀ k, d k ≤ s.heights k) (k : Kind) (x : ε) : (s.put k x).below d = s.below d := by
  funext n
  simp only [below, put, Function.update_apply]
  split
  · rename_i hn
    rw [hn, Storage.belowHeight, length_cons_sub h, List.drop_succ_cons]
    rfl
  · rfl

end Stacks

/-! ## what is held -/

/-- how values are saved -/
structure Coding (ε : Type) where
  save : Value → ε
  load : ε → Value
  load_save : ∀ v, load (save v) = v

/-- values as they are -/
def Coding.plain : Coding Value := ⟨id, id, fun _ => rfl⟩

/-- how the entries of all staging frames are kept -/
structure Area (ε σ : Type) where
  /-- with one more frame, which is empty -/
  opened : σ → σ
  /-- the innermost frame -/
  top? : σ → Option (Stacks ε)
  /-- with an entry on top of a stack of the innermost frame -/
  put : σ → Kind → ε → σ
  /-- without the innermost frame -/
  closed : σ → σ

/-- saved positions, main stacks and staging frames -/
structure Holding (ε σ : Type) where
  states : List Int32
  main : Stacks ε
  area : σ
  /-- the last operation on the main stacks left the reference of a receiver -/
  companionOnTop : Bool

variable {ε ε' σ σ' : Type}

/-- an operation on what a coroutine holds, with the value it gives if it gives one -/
def Holding.perform (c : Coding ε) (A : Area ε σ) (a : Access) (h : Holding ε σ) :
    Except Violation (Option Value) × Holding ε σ :=
  match a with
  | .popState =>
    match h.states with
    | [] => (.ok (some (.int (-1))), h)
    | n :: states => (.ok (some (.int n)), { h with states })
  | .pushState n => (.ok none, { h with states := n :: h.states, companionOnTop := false })
  | .push v =>
    match v.kind? with
    | none => (.error .unstorable, h)
    | some k => (.ok none, { h with main := h.main.put k (c.save v), companionOnTop := false })
  | .pop k =>
    match h.main k with
    | [] => (.error (.storageUnderflow k), { h with companionOnTop := false })
    | x :: xs => (.ok (some (c.load x)), { h with main := Function.update h.main k xs, companionOnTop := false })
  | .pushCompanion r => (.ok none, { h with main := h.main.put .ref (c.save (.ref r)), companionOnTop := true })
  | .discardCompanion =>
    if h.companionOnTop then
      match h.main .ref with
      | [] => (.error (.storageUnderflow .ref), h)
      | _ :: xs => (.ok none, { h with main := Function.update h.main .ref xs, companionOnTop := false })
    else (.ok none, h)
  | .beginStaging => (.ok none, { h with area := A.opened h.area })
  | .stage v =>
    match A.top? h.area, v.kind? with
    | none, _ => (.error .noStagingFrame, h)
    | some _, none => (.error .unstorable, h)
    | some _, some k => (.ok none, { h with area := A.put h.area k (c.save v) })
  | .peekStaged k depth =>
    match A.top? h.area with
    | none => (.error .noStagingFrame, h)
    | some frame =>
      match (frame k)[depth]? with
      | some x => (.ok (some (c.load x)), h)
      | none => (.error (.stagingUnderflow k depth), h)
  | .commitStaging =>
    match A.top? h.area with
    | none => (.error .noStagingFrame, h)
    | some frame =>
      (.ok none, { h with main := frame.append h.main, area := A.closed h.area, companionOnTop := false })
  | .endStaging =>
    match A.top? h.area with
    | none => (.error .noStagingFrame, h)
    | some _ => (.ok none, { h with area := A.closed h.area })

/-- Entries stand for other entries, and frames for other frames: what is saved is loaded as the same value, and
what is done to frames is done to those that they stand for.  The condition on how frames are kept remains. -/
structure Represents (f : ε → ε') (p : σ → σ') (P : σ → Prop) (c : Coding ε) (c' : Coding ε') (A : Area ε σ)
    (B : Area ε' σ') : Prop where
  save : ∀ v, c'.save v = f (c.save v)
  load : ∀ x, c'.load (f x) = c.load x
  top? : ∀ s, P s → B.top? (p s) = (A.top? s).map (Stacks.map f)
  opened : ∀ s, P s → B.opened (p s) = p (A.opened s) ∧ P (A.opened s)
  put : ∀ s frame, P s → A.top? s = some frame → ∀ k x, B.put (p s) k (f x) = p (A.put s k x) ∧ P (A.put s k x)
  closed : ∀ s frame, P s → A.top? s = some frame → B.closed (p s) = p (A.closed s) ∧ P (A.closed s)

namespace Holding

/-- the same is held, in another form -/
def reform (f : ε → ε') (p : σ → σ') (h : Holding ε σ) : Holding ε' σ' :=
  ⟨h.states, h.main.map f, p h.area, h.companionOnTop⟩

theorem reform_id (p : σ → σ') (h : Holding ε σ) : h.reform id p = { h with area := p h.area } := by
  rw [reform, Stacks.map_id]

variable {f : ε → ε'} {p : σ → σ'} {P : σ → Prop} {c : Coding ε} {c' : Coding ε'} {A : Area ε σ} {B : Area ε' σ'}
  {h : Holding ε σ}

/-- **One operation** gives the same result in whatever form things are held -/
theorem perform_reform (hr : Represents f p P c c' A B) (a : Access) (hP : P h.area) :
    (h.reform f p).perform c' B a = ((h.perform c A a).1, (h.perform c A a).2.reform f p) ∧
      P (h.perform c A a).2.area := by
  obtain ⟨states, main, s, onTop⟩ := h
  have htop := hr.top? s hP
  cases a with
  | popState => cases states <;> exact ⟨rfl, hP⟩
  | pushState n => exact ⟨rfl, hP⟩
  | push v =>
    simp only [perform]
    cases v.kind? with
    | none => exact ⟨rfl, hP⟩
    | some k => exact ⟨by simp only [reform, hr.save, Stacks.map_put], hP⟩
  | pop k =>
    simp only [perform, reform, Stacks.map]
    cases main k with
    | nil => exact ⟨rfl, hP⟩
    | cons x xs => exact ⟨by simp only [List.map_cons, hr.load, Stacks.map_update], hP⟩
  | pushCompanion r => exact ⟨by simp only [perform, reform, hr.save, Stacks.map_put], hP⟩
  | discardCompanion =>
    cases onTop with
    | false => exact ⟨rfl, hP⟩
    | true =>
      simp only [perform, reform, Stacks.map, if_true]
      cases main .ref with
      | nil => exact ⟨rfl, hP⟩
      | cons x xs => exact ⟨by simp only [List.map_cons, Stacks.map_update], hP⟩
  | beginStaging =>
    obtain ⟨hopened, hP⟩ := hr.opened s hP
    exact ⟨by simp only [perform, reform, hopened], hP⟩
  | stage v =>
    simp only [perform, reform, htop]
    cases hframe : A.top? s with
    | none => exact ⟨rfl, hP⟩
    | some frame =>
      cases v.kind? with
      | none => exact ⟨rfl, hP⟩
      | some k =>
        obtain ⟨hput, hP⟩ := hr.put s frame hP hframe k (c.save v)
        exact ⟨by simp only [Option.map_some, hr.save, hput], hP⟩
  | peekStaged k depth =>
    simp only [perform, reform, htop]
    cases hframe : A.top? s with
    | none => exact ⟨rfl, hP⟩
    | some frame =>
      simp only [Option.map_some, Stacks.map, List.getElem?_map]
      cases (frame k)[depth]? with
      | none => exact ⟨rfl, hP⟩
      | some x => exact ⟨by simp only [Option.map_some, hr.load], hP⟩
  | commitStaging =>
    simp only [perform, reform, htop]
    cases hframe : A.top? s with
    | none => exact ⟨rfl, hP⟩
    | some frame =>
      obtain ⟨hclosed, hP⟩ := hr.closed s frame hP hframe
      exact ⟨by simp only [Option.map_some, Stacks.map_append, hclosed], hP⟩
  | endStaging =>
    simp only [perform, reform, htop]
    cases hframe : A.top? s with
    | none => exact ⟨rfl, hP⟩
    | some frame =>
      obtain ⟨hclosed, hP⟩ := hr.closed s frame hP hframe
      exact ⟨by simp only [Option.map_some, hclosed], hP⟩

end Holding

/-! ## frames -/

/-- each frame with stacks of its own, the innermost frame first -/
def Area.frames : Area ε (List (Stacks ε)) where
  opened fs := .empty :: fs
  top? fs := fs.head?
  put fs k x := fs.modifyHead fun frame => frame.put k x
  closed fs := fs.tail

/-- the stacks of all frames in one, and the heights at which the frames begin, the innermost first -/
structure Marks (ε : Type) where
  shared : Stacks ε
  floors : List (Kind → Nat)

/-- frames as heights in shared stacks -/
def Area.marks : Area ε (Marks ε) where
  opened m := { m with floors := m.shared.heights :: m.floors }
  top? m := m.floors.head?.map m.shared.above
  put m k x := { m with shared := m.shared.put k x }
  closed m :=
    match m.floors with
    | [] => m
    | floor :: floors => ⟨m.shared.below floor, floors⟩

namespace Marks

/-- stacks cut where the frames begin -/
def cut : List (Kind → Nat) → Stacks ε → List (Stacks ε)
  | [], _ => []
  | floor :: floors, s => s.above floor :: cut floors (s.below floor)

/-- the frames that the heights stand for -/
def frames (m : Marks ε) : List (Stacks ε) := cut m.floors m.shared

/-- no frame begins above the stacks or above a frame farther in -/
def Ascending (m : Marks ε) : Prop := (m.shared.heights :: m.floors).Pairwise fun f g => ∀ k, g k ≤ f k

def map (f : ε → ε') (m : Marks ε) : Marks ε' := ⟨m.shared.map f, m.floors⟩

end Marks

/-- **Heights stand for frames** if they ascend -/
theorem marks_represents (c : Coding ε) : Represents id Marks.frames Marks.Ascending c c .marks .frames where
  save _ := rfl
  load _ := rfl
  top? := by
    rintro ⟨s, floors⟩ -
    cases floors with
    | nil => rfl
    | cons floor floors => exact congrArg some (Stacks.map_id _).symm
  opened := by
    rintro ⟨s, floors⟩ hm
    refine ⟨?_, List.pairwise_cons.2 ⟨fun g hg => ?_, hm⟩⟩
    · show Stacks.empty :: Marks.cut floors s = s.above s.heights :: Marks.cut floors (s.below s.heights)
      rw [Stacks.above_heights, Stacks.below_heights]
    · rcases List.mem_cons.1 hg with rfl | hg
      · exact fun k => Nat.le_refl _
      · exact (List.pairwise_cons.1 hm).1 g hg
  put := by
    rintro ⟨s, floors⟩ frame hm hframe k x
    cases floors with
    | nil => exact absurd hframe (by simp [Area.marks])
    | cons floor floors =>
      obtain ⟨hle, hfloors⟩ := List.pairwise_cons.1 hm
      have hfloor := hle floor List.mem_cons_self
      refine ⟨?_, List.pairwise_cons.2 ⟨fun g hg n => (hle g hg n).trans (s.heights_le_put k x n), hfloors⟩⟩
      show (s.above floor).put k x :: Marks.cut floors (s.below floor) =
        (s.put k x).above floor :: Marks.cut floors ((s.put k x).below floor)
      rw [Stacks.above_put hfloor, Stacks.below_put hfloor]
  closed := by
    rintro ⟨s, floors⟩ frame hm hframe
    cases floors with
    | nil => exact absurd hframe (by simp [Area.marks])
    | cons floor floors =>
      obtain ⟨hle, hfloors⟩ := List.pairwise_cons.1 hm
      refine ⟨rfl, ?_⟩
      show ((s.below floor).heights :: floors).Pairwise _
      rw [Stacks.heights_below (hle floor List.mem_cons_self)]
      exact hfloors

/-! ## the coroutine itself -/

/-- a saved value; references to one coroutine are saved as a marker -/
inductive Saved where
  | own
  | value (v : Value)

namespace Saved

def save (id : Nat) (v : Value) : Saved :=
  match v with
  | .ref (some (.coroutine n)) => if n = id then .own else .value v
  | _ => .value v

def load (id : Nat) : Saved → Value
  | .own => .coroutine id
  | .value v => v

theorem load_save (id : Nat) (v : Value) : load id (save id v) = v := by
  unfold save
  split
  · rename_i n
    split
    · rename_i hn
      rw [hn]
      rfl
    · rfl
  · rfl

/-- only the marker refers to the coroutine -/
theorem save_ne (id : Nat) (v : Value) : save id v ≠ .value (.coroutine id) := by
  unfold save
  split
  · rename_i n
    split
    · simp
    · rename_i hn
      simp [Value.coroutine, hn]
  · rename_i hv
    exact fun h => hv id (Saved.value.inj h)

end Saved

/-- with a marker for the coroutine -/
def Coding.owning (id : Nat) : Coding Saved := ⟨Saved.save id, Saved.load id, Saved.load_save id⟩

/-- **Values in another form** do as well as the values -/
theorem coding_represents (c : Coding ε) :
    Represents c.save (Marks.map c.save) (fun _ => True) .plain c .marks .marks where
  save _ := rfl
  load := c.load_save
  top? := by
    rintro ⟨s, floors⟩ -
    cases floors with
    | nil => rfl
    | cons floor floors => exact congrArg some (Stacks.map_above c.save s floor).symm
  opened := by
    rintro ⟨s, floors⟩ -
    refine ⟨?_, trivial⟩
    exact congrArg (fun d => Marks.mk (s.map c.save) (d :: floors)) (Stacks.heights_map c.save s)
  put := by
    rintro ⟨s, floors⟩ frame - - k x
    refine ⟨?_, trivial⟩
    exact congrArg (fun s => Marks.mk s floors) (Stacks.map_put c.save s k x).symm
  closed := by
    rintro ⟨s, floors⟩ frame - -
    refine ⟨?_, trivial⟩
    cases floors with
    | nil => rfl
    | cons floor floors => exact congrArg (fun s => Marks.mk s floors) (Stacks.map_below c.save s floor).symm

/-! ## coroutines -/

namespace Storage

variable {s : Storage} {v : Value} {k : Kind} {vs : List Value}

theorem stack_eq_put (hk : v.kind? = some k) : (s.put v).stack = Stacks.put s.stack k v := by
  funext n
  rw [stack_put, hk, Stacks.put, Function.update_apply]
  by_cases hn : n = k
  · rw [if_pos hn, if_pos (congrArg some hn.symm), hn]
  · rw [if_neg hn, if_neg fun h => hn (Option.some.inj h).symm]

theorem push?_of_kind (hk : v.kind? = none) : s.push? v = none := by
  cases v <;> first | rfl | exact absurd hk (by simp [Value.kind?])

theorem pop?_of_nil (h : s.stack k = []) : s.pop? k = none := by
  cases k <;> simp_all [stack, pop?]

theorem stack_append_eq (s t : Storage) : (s.append t).stack = Stacks.append s.stack t.stack :=
  funext (stack_append s t)

theorem stack_above_eq (s : Storage) (d : Depths) : (s.above d).stack = Stacks.above s.stack d.get :=
  funext (stack_above s d)

theorem stack_below_eq (s : Storage) (d : Depths) : (s.below d).stack = Stacks.below s.stack d.get :=
  funext (stack_below s d)

theorem get_depths (s : Storage) : s.depths.get = Stacks.heights s.stack := funext s.depths_get

/-- what lies on top of a stack was put there last -/
theorem exists_put (h : s.stack k = v :: vs) : ∃ t : Storage, s = t.put v ∧ v.kind? = some k := by
  obtain ⟨refs, ints, longs, floats, doubles⟩ := s
  cases k with
  | ref =>
    obtain ⟨r, refs, rfl, rfl, -⟩ := List.map_eq_cons_iff.1 h
    exact ⟨⟨refs, ints, longs, floats, doubles⟩, rfl, rfl⟩
  | int =>
    obtain ⟨n, ints, rfl, rfl, -⟩ := List.map_eq_cons_iff.1 h
    exact ⟨⟨refs, ints, longs, floats, doubles⟩, rfl, rfl⟩
  | long =>
    obtain ⟨n, longs, rfl, rfl, -⟩ := List.map_eq_cons_iff.1 h
    exact ⟨⟨refs, ints, longs, floats, doubles⟩, rfl, rfl⟩
  | float =>
    obtain ⟨x, floats, rfl, rfl, -⟩ := List.map_eq_cons_iff.1 h
    exact ⟨⟨refs, ints, longs, floats, doubles⟩, rfl, rfl⟩
  | double =>
    obtain ⟨x, doubles, rfl, rfl, -⟩ := List.map_eq_cons_iff.1 h
    exact ⟨⟨refs, ints, longs, floats, doubles⟩, rfl, rfl⟩

theorem pop?_of_cons (h : s.stack k = v :: vs) :
    ∃ t, s.pop? k = some (v, t) ∧ t.stack = Function.update s.stack k vs := by
  obtain ⟨t, rfl, hk⟩ := exists_put h
  refine ⟨t, pop?_put hk, ?_⟩
  rw [stack_eq_put hk, Stacks.put, Function.update_self] at h
  rw [stack_eq_put hk, Stacks.put, Function.update_idem, ← (List.cons.inj h).2, Function.update_eq_self]

end Storage

namespace Coroutine

variable {β κ : Type}

/-- what a coroutine holds -/
def holding (c : Coroutine β κ) : Holding Value (Marks Value) :=
  ⟨c.states, c.storage.stack, ⟨c.staging.stack, c.floors.map Depths.get⟩, c.companionOnTop⟩

/-- **What the operations of a coroutine do** to what it holds -/
theorem perform_holding (a : Access) (c : Coroutine β κ) :
    (a.perform c).1 = (c.holding.perform .plain .marks a).1 ∧
      (a.perform c).2.holding = (c.holding.perform .plain .marks a).2 := by
  obtain ⟨id, body, status, states, storage, staging, floors, yielding, yieldPending, onTop, deferred⟩ := c
  cases a with
  | popState => cases states <;> exact ⟨rfl, rfl⟩
  | pushState n => exact ⟨rfl, rfl⟩
  | push v =>
    simp only [Access.perform, push, Holding.perform]
    cases hk : v.kind? with
    | none =>
      rw [Storage.push?_of_kind hk]
      exact ⟨rfl, rfl⟩
    | some k =>
      rw [Storage.push?_eq_put hk]
      simp only [holding, Storage.stack_eq_put hk]
      exact ⟨rfl, rfl⟩
  | pop k =>
    simp only [Access.perform, pop, Holding.perform, holding]
    cases hstack : storage.stack k with
    | nil =>
      rw [Storage.pop?_of_nil hstack]
      exact ⟨rfl, rfl⟩
    | cons v vs =>
      obtain ⟨storage', hpop, hstorage⟩ := Storage.pop?_of_cons hstack
      rw [hpop]
      refine ⟨rfl, ?_⟩
      simp only [hstorage]
  | pushCompanion r =>
    refine ⟨rfl, ?_⟩
    simp only [Access.perform, pushCompanion, Holding.perform, holding, ← Storage.put_ref,
      Storage.stack_eq_put (show (Value.ref r).kind? = some .ref from rfl)]
    rfl
  | discardCompanion =>
    cases onTop with
    | false => exact ⟨rfl, rfl⟩
    | true =>
      simp only [Access.perform, discardCompanion, Holding.perform, holding, if_true]
      cases hstack : storage.stack .ref with
      | nil =>
        rw [Storage.pop?_of_nil hstack]
        exact ⟨rfl, rfl⟩
      | cons v vs =>
        obtain ⟨storage', hpop, hstorage⟩ := Storage.pop?_of_cons hstack
        rw [hpop]
        refine ⟨rfl, ?_⟩
        simp only [hstorage]
  | beginStaging =>
    refine ⟨rfl, ?_⟩
    simp only [Access.perform, beginStaging, Holding.perform, holding, Area.marks, List.map_cons,
      Storage.get_depths]
  | stage v =>
    cases floors with
    | nil => exact ⟨rfl, rfl⟩
    | cons floor floors =>
      simp only [Access.perform, stage, Holding.perform, holding, Area.marks, List.map_cons, List.head?_cons,
        Option.map_some]
      cases hk : v.kind? with
      | none =>
        rw [Storage.push?_of_kind hk]
        exact ⟨rfl, rfl⟩
      | some k =>
        rw [Storage.push?_eq_put hk]
        simp only [Storage.stack_eq_put hk]
        exact ⟨rfl, rfl⟩
  | peekStaged k depth =>
    cases floors with
    | nil => exact ⟨rfl, rfl⟩
    | cons floor floors =>
      simp only [Access.perform, peekStaged, Holding.perform, holding, Area.marks, List.map_cons, List.head?_cons,
        Option.map_some, ← Storage.stack_above_eq]
      cases ((staging.above floor).stack k)[depth]? <;> exact ⟨rfl, rfl⟩
  | commitStaging =>
    cases floors with
    | nil => exact ⟨rfl, rfl⟩
    | cons floor floors =>
      refine ⟨rfl, ?_⟩
      simp only [Access.perform, commitStaging, Holding.perform, holding, Area.marks, List.map_cons, List.head?_cons,
        Option.map_some, Storage.stack_append_eq, Storage.stack_above_eq, Storage.stack_below_eq]
  | endStaging =>
    cases floors with
    | nil => exact ⟨rfl, rfl⟩
    | cons floor floors =>
      refine ⟨rfl, ?_⟩
      simp only [Access.perform, endStaging, Holding.perform, holding, Area.marks, List.map_cons, List.head?_cons,
        Option.map_some, Storage.stack_below_eq]

/-- what it holds, with each frame on its own -/
def framed (c : Coroutine β κ) : Holding Value (List (Stacks Value)) :=
  { c.holding with area := c.holding.area.frames }

theorem framed_create (n : Nat) (body : β) : (create n body : Coroutine β κ).framed = ⟨[], .empty, [], false⟩ :=
  congrArg (Holding.mk [] · [] false) (funext Storage.stack_empty)

/-- what it holds, with a marker for itself -/
def saved (c : Coroutine β κ) : Holding Saved (Marks Saved) :=
  c.holding.reform (Saved.save c.id) (Marks.map (Saved.save c.id))

/-- the operation on frames that stand on their own; the heights ascend as before -/
theorem perform_framed {c : Coroutine β κ} (h : c.holding.area.Ascending) (a : Access) :
    c.framed.perform .plain .frames a = ((a.perform c).1, (a.perform c).2.framed) ∧
      (a.perform c).2.holding.area.Ascending := by
  obtain ⟨hresult, hholding⟩ := perform_holding a c
  rw [framed, framed, ← Holding.reform_id, ← Holding.reform_id, hresult, hholding]
  exact Holding.perform_reform (marks_represents .plain) a h

/-- the operation where the coroutine is saved as a marker -/
theorem perform_saved (c : Coroutine β κ) (a : Access) :
    c.saved.perform (.owning c.id) .marks a = ((a.perform c).1, (a.perform c).2.saved) := by
  obtain ⟨hresult, hholding⟩ := perform_holding a c
  rw [saved, saved, hresult, hholding, (same_perform a c).id]
  exact (Holding.perform_reform (coding_represents (.owning c.id)) a trivial).1

/-- an event leaves the heights of every coroutine in order -/
theorem ascending_change {s : Thread β κ} {n : Nat} {c d : Coroutine β κ} {e : Event β κ}
    (hchange : s.Change n c e d) (h : c.holding.area.Ascending) : d.holding.area.Ascending := by
  cases hchange with
  | same => exact h
  | access a _ => exact (perform_framed h a).2
  | yield deferred => rcases c.yield_cases deferred with heq | heq | ⟨-, heq⟩ <;> rw [heq] <;> exact h
  | resume => exact h
  | leave _ finished =>
    unfold endRun
    split <;> exact h

end Coroutine

namespace Thread

variable {β κ : Type} {s t : Thread β κ} {c : Coroutine β κ} {e : Event β κ} {es : List (Event β κ)} {id : Nat}

/-- the heights of all coroutines ascend -/
def Ascending (t : Thread β κ) : Prop := ∀ id c, t.engine.get? id = some c → c.holding.area.Ascending

theorem Ascending.act (h : s.Ascending) (hs : s.Orderly) (hact : s.act e = some t) : t.Ascending := by
  intro id d hd
  cases hc : s.engine.get? id with
  | none =>
    obtain ⟨body, rfl⟩ := created hact hc hd
    exact List.pairwise_singleton _ _
  | some c =>
    obtain ⟨d', hd', hchange⟩ := hs.change hact hc
    obtain rfl := Option.some.inj (hd.symm.trans hd')
    exact Coroutine.ascending_change hchange (h id c hc)

theorem Ascending.run (h : s.Ascending) (hs : s.Orderly) (hrun : s.run es = some t) : t.Ascending := by
  induction es generalizing s with
  | nil =>
    rw [← Option.some.inj hrun]
    exact h
  | cons e es ih =>
    obtain ⟨s₁, hact, hrest⟩ := Option.bind_eq_some_iff.1 hrun
    exact ih (h.act hs hact) (hs.act hact) hrest

theorem Reachable.ascending (h : t.Reachable) : t.Ascending := by
  obtain ⟨es, hrun⟩ := h
  refine Ascending.run (s := fresh) (fun id c hc => ?_) orderly_fresh hrun
  cases id <;> exact absurd hc (by simp [fresh, Engine.empty, Engine.get?])

end Thread

/-! ## sequences of operations -/

/-- operations one after another: their results, and the state after the last one -/
def outcomes {ρ : Type} (op : Access → σ → ρ × σ) : List Access → σ → List ρ × σ
  | [], s => ([], s)
  | a :: as, s => ((op a s).1 :: (outcomes op as (op a s).2).1, (outcomes op as (op a s).2).2)

/-- What holds of the states and is kept by one operation is kept by all; if one operation on what the states
stand for does the same, then so do all. -/
theorem outcomes_map {ρ : Type} {op : Access → σ → ρ × σ} {op' : Access → σ' → ρ × σ'} {p : σ → σ'} {P : σ → Prop}
    (hstep : ∀ a s, P s → op' a (p s) = ((op a s).1, p (op a s).2) ∧ P (op a s).2) (as : List Access) {s : σ}
    (h : P s) : outcomes op' as (p s) = ((outcomes op as s).1, p (outcomes op as s).2) ∧ P (outcomes op as s).2 := by
  induction as generalizing s with
  | nil => exact ⟨rfl, h⟩
  | cons a as ih =>
    obtain ⟨hop, hP⟩ := hstep a s h
    obtain ⟨has, hP⟩ := ih hP
    exact ⟨by rw [outcomes, hop, has]; rfl, hP⟩

/-- no entry but the marker refers to the coroutine -/
def Holding.Unreferring (id : Nat) (h : Holding Saved (Marks Saved)) : Prop :=
  ∀ k, Saved.value (.coroutine id) ∉ h.main k ++ h.area.shared k

theorem Coroutine.unreferring_saved {β κ : Type} (c : Coroutine β κ) : c.saved.Unreferring c.id := by
  intro k hmem
  have hmap : ∃ v ∈ c.storage.stack k ++ c.staging.stack k, Saved.save c.id v = .value (.coroutine c.id) := by
    rw [← List.mem_map, List.map_append]
    exact hmem
  obtain ⟨v, -, hv⟩ := hmap
  exact Saved.save_ne c.id v hv

namespace Thread

variable {β κ : Type} {t : Thread β κ} {c : Coroutine β κ} {id : Nat}

/-- **What coroutines hold.**  Any operations on a coroutine, one after another, give what they give on stacks and
frames that all stand on their own, and on storage in which a marker stands for the coroutine; afterwards the
coroutine, the frames and the storage still agree.  The heights at which its frames begin ascend, and in the
storage only the marker refers to the coroutine. -/
theorem storage_refines (h : t.Reachable) (hc : t.engine.get? id = some c) (as : List Access) :
    ∃ results d, outcomes Access.perform as c = (results, d) ∧
      outcomes (Holding.perform .plain .frames) as c.framed = (results, d.framed) ∧
      outcomes (Holding.perform (.owning id) .marks) as c.saved = (results, d.saved) ∧
      d.holding.area.Ascending ∧ d.saved.Unreferring id := by
  have hid : c.id = id := h.orderly.engine.numbered id c hc
  obtain ⟨hframed, hascending⟩ := outcomes_map (P := fun d : Coroutine β κ => d.holding.area.Ascending)
    (fun a d hd => Coroutine.perform_framed hd a) as (h.ascending id c hc)
  have hstep (a : Access) (d : Coroutine β κ) (hd : d.id = id) :
      d.saved.perform (.owning id) .marks a = ((a.perform d).1, (a.perform d).2.saved) ∧ (a.perform d).2.id = id :=
    ⟨hd ▸ d.perform_saved a, (Coroutine.same_perform a d).id.trans hd⟩
  obtain ⟨hsaved, hid'⟩ := outcomes_map (P := fun d : Coroutine β κ => d.id = id) hstep as hid
  exact ⟨_, _, rfl, hframed, hsaved, hascending, hid' ▸ Coroutine.unreferring_saved _⟩

/-- A frame inside another one is moved to the main stacks with a reference to the coroutine, and the outer frame is
used again. -/
def inside : List Access :=
  [.beginStaging, .stage (.int 1), .beginStaging, .stage (.coroutine 2), .peekStaged .int 0, .peekStaged .ref 0,
    .commitStaging, .peekStaged .int 0, .pushCompanion none, .discardCompanion, .pop .ref, .endStaging, .endStaging]

theorem storage_refines_inside : resumer.Reachable ∧ ∃ c, resumer.engine.get? 2 = some c ∧ ∃ results d,
    outcomes Access.perform inside c = (results, d) ∧
    outcomes (Holding.perform .plain .frames) inside ⟨[], .empty, [], false⟩ = (results, d.framed) ∧
    outcomes (Holding.perform (.owning 2) .marks) inside c.saved = (results, d.saved) ∧
    d.holding.area.Ascending ∧ d.saved.Unreferring 2 ∧
    results = [.ok none, .ok none, .ok none, .ok none, .error (.stagingUnderflow .int 0),
      .ok (some (.coroutine 2)), .ok none, .ok (some (.int 1)), .ok none, .ok none, .ok (some (.coroutine 2)),
      .ok none, .error .noStagingFrame] := by
  obtain ⟨results, d, hrun, hframed, hsaved, hascending, hown⟩ :=
    storage_refines (c := .create 2 ()) reachable_resumer (show resumer.engine.get? 2 = _ from rfl) inside
  rw [Coroutine.framed_create] at hframed
  exact ⟨reachable_resumer, _, rfl, results, d, hrun, hframed, hsaved, hascending, hown,
    (congrArg Prod.fst hrun).symm⟩

end Thread

end Resumable
