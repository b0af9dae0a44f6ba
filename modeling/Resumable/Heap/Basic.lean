import Resumable.Value
import Resumable.Hierarchy

/-!
# The heap

Objects by their addresses.  An object is an instance with the fields that were written, a string,
or an array.  Nothing is ever removed, so an address stays valid and keeps its class.

* `Bindings` : values by names, for fields and for statics;
* `Heap.alloc` : a new object and its address;
* `Heap.className` : the class of what a reference names;
* `Heap.field?`, `Heap.putField?` : the fields of an instance.
-/

namespace Resumable

/-! ## bindings -/

/-- values by names, each name once -/
abbrev Bindings := List (String × Value)

namespace Bindings

/-- the value of a name -/
def find? (b : Bindings) (name : String) : Option Value :=
  match b with
  | [] => none
  | (n, v) :: rest => if n = name then some v else find? rest name

/-- a value put in the place of any value of its name -/
def put (b : Bindings) (name : String) (v : Value) : Bindings :=
  match b with
  | [] => [(name, v)]
  | (n, w) :: rest => if n = name then (n, v) :: rest else (n, w) :: put rest name v

theorem find?_put_self (b : Bindings) (name : String) (v : Value) :
    (b.put name v).find? name = some v := by
  induction b with
  | nil => simp [put, find?]
  | cons e rest ih =>
    obtain ⟨n, w⟩ := e
    by_cases h : n = name <;> simp [put, find?, h, ih]

theorem find?_put_of_ne (b : Bindings) {name other : String} (v : Value) (h : other ≠ name) :
    (b.put name v).find? other = b.find? other := by
  induction b with
  | nil => simp [put, find?, h.symm]
  | cons e rest ih =>
    obtain ⟨n, w⟩ := e
    by_cases hn : n = name
    · simp [put, find?, hn, h.symm]
    · simp only [put, if_neg hn, find?, ih]

end Bindings

/-! ## objects -/

/-- an object -/
inductive Object where
  /-- an instance of a class with the fields written so far -/
  | instance (type : String) (fields : Bindings)
  | string (s : String)
  /-- an array by its descriptor -/
  | array (desc : String) (elems : Array Value)
deriving Repr, Inhabited

/-- the class of an object; arrays have their descriptor -/
def Object.className : Object → String
  | .instance type _ => type
  | .string _ => stringType
  | .array desc _ => desc

/-- objects by their addresses -/
structure Heap where
  objects : Array Object
deriving Repr, Inhabited

namespace Heap

def empty : Heap := ⟨#[]⟩

/-- a new object and its address -/
def alloc (h : Heap) (o : Object) : Nat × Heap := (h.objects.size, ⟨h.objects.push o⟩)

/-- a new object as a value -/
def make (h : Heap) (o : Object) : Value × Heap :=
  let (a, h) := h.alloc o
  (.object a, h)

def object? (h : Heap) (address : Nat) : Option Object := h.objects[address]?

/-- the object that a reference names; a coroutine is none -/
def get? (h : Heap) : Ref → Option Object
  | .object a => h.object? a
  | .coroutine _ => none

/-- an object put in place of the one at an address -/
def put (h : Heap) (address : Nat) (o : Object) : Heap := ⟨h.objects.setIfInBounds address o⟩

theorem object?_alloc (h : Heap) (o : Object) :
    (h.alloc o).2.object? (h.alloc o).1 = some o := by
  simp [alloc, object?]

theorem object?_alloc_of_some {h : Heap} {o p : Object} {a : Nat} (ha : h.object? a = some p) :
    (h.alloc o).2.object? a = some p := by
  simp only [object?] at ha
  have hlt : a < h.objects.size := (Array.getElem?_eq_some_iff.1 ha).1
  simp only [alloc, object?, Array.getElem?_push]
  rw [if_neg (by omega)]
  exact ha

/-! ## what references name -/

/-- the class of what a reference names -/
def className (h : Heap) : Ref → String
  | .object a => ((h.object? a).map Object.className).getD objectType
  | .coroutine _ => coroutineType

def string? (h : Heap) (r : Ref) : Option String :=
  match h.get? r with
  | some (.string s) => some s
  | _ => none

/-- the value of a field of an instance, and the default of its descriptor before it is written -/
def field? (h : Heap) (r : Ref) (name desc : String) : Option Value :=
  match h.get? r with
  | some (.instance _ fields) => some ((fields.find? name).getD (Value.default desc))
  | _ => none

/-- a field of an instance written; other things have no fields -/
def putField? (h : Heap) (r : Ref) (name : String) (v : Value) : Option Heap :=
  match r, h.get? r with
  | .object a, some (.instance type fields) => some (h.put a (.instance type (fields.put name v)))
  | _, _ => none

def elems? (h : Heap) (r : Ref) : Option (Array Value) :=
  match h.get? r with
  | some (.array _ elems) => some elems
  | _ => none

/-- the element of an array written; the index must be in it -/
def putElem? (h : Heap) (r : Ref) (i : Nat) (v : Value) : Option Heap :=
  match r, h.get? r with
  | .object a, some (.array desc elems) =>
    if i < elems.size then some (h.put a (.array desc (elems.setIfInBounds i v))) else none
  | _, _ => none

/-! ## new objects -/

/-- an instance whose fields were never written -/
def makeInstance (h : Heap) (type : String) : Value × Heap := h.make (.instance type [])

def makeString (h : Heap) (s : String) : Value × Heap := h.make (.string s)

/-- an array of default elements -/
def makeArray (h : Heap) (elem : String) (n : Nat) : Value × Heap :=
  h.make (.array ("[" ++ elem) (Array.replicate n (Value.default elem)))

/-- an instance with a message -/
def makeThrowable (h : Heap) (type message : String) : Ref × Heap :=
  let (m, h) := h.makeString message
  let (a, h) := h.alloc (.instance type [("message", m)])
  (.object a, h)

end Heap

end Resumable
