import Resumable.Heap.Basic

/-!
# Literals

Values as they are written outside of a program: numbers, strings and new objects, and the names of
values that were given before.

* `Literal.build` : the value of a literal on a heap, or the name that is unknown.
-/

namespace Resumable

/-- a value as it is written -/
inductive Literal where
  | null
  | top
  | int (v : Int32)
  | long (v : Int64)
  | float (v : Float32)
  | double (v : Float)
  | string (s : String)
  /-- a new instance, not initialized -/
  | instance (type : String)
  /-- a new array of elements, whose kinds are not checked -/
  | array (elem : String) (elems : List Literal)
  /-- a value given before, by its name -/
  | named (name : String)
deriving Repr, Inhabited

namespace Literal

/-- an array of values on the heap -/
def makeArrayOf (elem : String) (vs : List Value) (h : Heap) : Value × Heap :=
  h.make (.array ("[" ++ elem) vs.toArray)

mutual

/-- the value of a literal -/
def build (given : String → Option Value) : Literal → Heap → Except String (Value × Heap)
  | .null, h => .ok (.null, h)
  | .top, h => .ok (.top, h)
  | .int v, h => .ok (.int v, h)
  | .long v, h => .ok (.long v, h)
  | .float v, h => .ok (.float v, h)
  | .double v, h => .ok (.double v, h)
  | .string s, h => .ok (h.makeString s)
  | .instance t, h => .ok (h.makeInstance t)
  | .array elem ls, h =>
    match buildAll given ls h with
    | .ok (vs, h) => .ok (makeArrayOf elem vs h)
    | .error n => .error n
  | .named n, h =>
    match given n with
    | some v => .ok (v, h)
    | none => .error n

/-- the values of literals in order -/
def buildAll (given : String → Option Value) :
    List Literal → Heap → Except String (List Value × Heap)
  | [], h => .ok ([], h)
  | l :: ls, h =>
    match build given l h with
    | .error n => .error n
    | .ok (v, h) =>
      match buildAll given ls h with
      | .ok (vs, h) => .ok (v :: vs, h)
      | .error n => .error n

end

end Literal

end Resumable
