import Resumable.Code.Insn
import Resumable.Descriptor

/-!
# Programs

A program is a set of classes that are woven and run together.  Classes are kept sorted by the
key they are found under; the methods of a class keep their order.

* `Program.insert`, `Program.class?`, `Program.method?` : building a program and finding its parts;
* `Program.Sorted` : classes in the order of their keys, as `Program.insertAt` keeps them;
* `Method.nextLabel` : the first label number that a method leaves free;
* `Method.requiredLocals` : the locals that its parameters and its code need.
-/

namespace Resumable

/-- a protected range `[start, stop)`; no catch type catches everything -/
structure TryCatch where
  start : Label
  stop : Label
  handler : Label
  catchType : Option String
deriving DecidableEq, Repr, Inhabited

/-- a hint: the slot holds a value of the descriptor within `[start, stop)` -/
structure LocalVar where
  slot : UInt16
  name : String
  desc : String
  start : Label
  stop : Label
deriving DecidableEq, Repr, Inhabited

structure Method where
  name : String
  desc : String
  isStatic : Bool
  maxLocals : UInt16
  code : List Insn
  tryCatches : List TryCatch
  localVars : List LocalVar
deriving BEq, Repr, Inhabited

structure Field where
  name : String
  desc : String
  isStatic : Bool
deriving DecidableEq, Repr, Inhabited

structure ClassDef where
  name : String
  superName : Option String
  interfaces : List String
  fields : List Field
  methods : List Method
deriving BEq, Repr, Inhabited

/-- classes by the key they are found under, in increasing order of keys -/
structure Program where
  classes : List (String × ClassDef)
deriving BEq, Repr, Inhabited

/-! ## methods -/

namespace Method

/-- identity of the method in a class -/
def id (m : Method) (owner : String) : MethodId := ⟨owner, m.name, m.desc⟩

/-- every label mentioned by the code, the exception table or the hints -/
def labels (m : Method) : List Label :=
  m.code.flatMap Insn.labels ++
    m.tryCatches.flatMap (fun t => [t.start, t.stop, t.handler]) ++
    m.localVars.flatMap (fun v => [v.start, v.stop])

/-- the first label number after every mentioned one, in arithmetic of 32 bits -/
def nextLabel (m : Method) : UInt32 :=
  m.labels.foldl (fun n l => max n (l.number + 1)) 0

/-- locals that one instruction needs -/
def localsOf : Insn → Nat
  | .load k slot | .store k slot => slot.toNat + k.width
  | .increment slot _ | .returnSubroutine slot => slot.toNat + 1
  | _ => 0

/-- slots of the parameters, the receiver included; a bad descriptor has none -/
def parameterSlots (m : Method) : Nat :=
  ((MethodDesc.parse? m.desc).map MethodDesc.paramSlots).getD 0 + (if m.isStatic then 0 else 1)

/-- the least number of locals for the parameters and every local access, in 16 bits -/
def requiredLocals (m : Method) : UInt16 :=
  UInt16.ofNat (m.code.foldl (fun n i => max n (localsOf i)) m.parameterSlots)

end Method

/-! ## classes and programs -/

/-- the first method of that name and descriptor -/
def ClassDef.method? (c : ClassDef) (name desc : String) : Option Method :=
  c.methods.find? fun m => m.name == name && m.desc == desc

namespace Program

def empty : Program := ⟨[]⟩

/-- the entry put into a sorted list in place of any entry of its key -/
def insertEntry (key : String) (c : ClassDef) : List (String × ClassDef) → List (String × ClassDef)
  | [] => [(key, c)]
  | (k, d) :: rest =>
    if key < k then (key, c) :: (k, d) :: rest
    else if key = k then (key, c) :: rest
    else (k, d) :: insertEntry key c rest

/-- add a class under a key -/
def insertAt (p : Program) (key : String) (c : ClassDef) : Program :=
  ⟨insertEntry key c p.classes⟩

/-- add a class under its own name -/
def insert (p : Program) (c : ClassDef) : Program := p.insertAt c.name c

def class? (p : Program) (name : String) : Option ClassDef :=
  (p.classes.find? fun e => e.1 == name).map Prod.snd

def method? (p : Program) (id : MethodId) : Option Method :=
  (p.class? id.owner).bind fun c => c.method? id.name id.desc

/-- every method with its identity, in order of classes -/
def methods (p : Program) : List (MethodId × Method) :=
  p.classes.flatMap fun e => e.2.methods.map fun m => (m.id e.2.name, m)

theorem class?_empty (name : String) : empty.class? name = none := rfl

/-! ## order of classes -/

section
variable {p : Program} {key : String} {c : ClassDef} {e : String × ClassDef} {es : List (String × ClassDef)}

theorem mem_of_mem_insertEntry (h : e ∈ insertEntry key c es) : e = (key, c) ∨ e ∈ es := by
  induction es with
  | nil => exact .inl (List.mem_singleton.1 h)
  | cons entry es ih =>
    obtain ⟨k, d⟩ := entry
    unfold insertEntry at h
    split at h
    · exact List.mem_cons.1 h
    split at h
    · rcases List.mem_cons.1 h with rfl | h
      · exact .inl rfl
      · exact .inr (List.mem_cons_of_mem _ h)
    · rcases List.mem_cons.1 h with rfl | h
      · exact .inr List.mem_cons_self
      · exact (ih h).imp_right (List.mem_cons_of_mem _)

/-- a class behind all others is put behind them -/
theorem insertEntry_last (h : ∀ e ∈ es, e.1 < key) : insertEntry key c es = es ++ [(key, c)] := by
  induction es with
  | nil => rfl
  | cons e es ih =>
    obtain ⟨k, d⟩ := e
    have hk : k < key := h (k, d) List.mem_cons_self
    rw [insertEntry, if_neg (String.lt_asymm hk), if_neg, ih fun e he =>
      h e (List.mem_cons_of_mem _ he)]
    · rfl
    · rintro rfl
      exact String.lt_irrefl _ hk

/-- classes stand in increasing order of their keys -/
def Sorted (p : Program) : Prop := p.classes.Pairwise fun a b => a.1 < b.1

theorem sorted_empty : empty.Sorted := .nil

/-- a class that is added stands in its place -/
theorem Sorted.insertAt (h : p.Sorted) (key : String) (c : ClassDef) : (p.insertAt key c).Sorted := by
  obtain ⟨es⟩ := p
  show (insertEntry key c es).Pairwise fun a b => a.1 < b.1
  induction es with
  | nil => exact List.pairwise_singleton _ _
  | cons entry es ih =>
    obtain ⟨k, d⟩ := entry
    obtain ⟨hhead, htail⟩ := List.pairwise_cons.1 h
    unfold insertEntry
    split
    · rename_i hlt
      refine List.pairwise_cons.2 ⟨?_, h⟩
      intro e he
      rcases List.mem_cons.1 he with rfl | he
      · exact hlt
      · exact String.lt_trans hlt (hhead e he)
    split
    · rename_i heq
      subst heq
      exact List.pairwise_cons.2 ⟨hhead, htail⟩
    · rename_i hge hne
      refine List.pairwise_cons.2 ⟨?_, ih htail⟩
      intro e he
      rcases mem_of_mem_insertEntry he with rfl | he
      · exact String.not_le.1 fun hle => hne (String.le_antisymm hle (String.not_lt.1 hge))
      · exact hhead e he

end

end Program

end Resumable
