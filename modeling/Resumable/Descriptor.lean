import Resumable.Code.Kind

/-!
# Descriptors

A field descriptor is one letter for a primitive type, a class name between a letter and a
semicolon, or a bracket before the descriptor of the elements.  A method descriptor is the
parameters between parentheses and the result, where a letter stands for no result.  The small
integer types are the same as integers.

* `FieldType.read?` : a field descriptor at the head of a text, with the text it takes;
* `FieldType.parse?`, `MethodDesc.parse?` : whole descriptors;
* `MethodDesc.paramSlots` : local slots of the parameters.
-/

namespace Resumable

/-- type of a field, a parameter or a result -/
inductive FieldType where
  | int | long | float | double
  /-- a class by its name, or an array by its descriptor -/
  | ref (name : String)
deriving DecidableEq, Repr, Inhabited

namespace FieldType

def kind : FieldType → Kind
  | .int => .int
  | .long => .long
  | .float => .float
  | .double => .double
  | .ref _ => .ref

def width (t : FieldType) : Nat := t.kind.width

/-- a type read from the head of a text -/
structure Read where
  type : FieldType
  /-- the characters it takes -/
  text : List Char
  /-- the characters after it -/
  rest : List Char
deriving DecidableEq, Repr

/-- the field descriptor at the head of a text -/
def read? : List Char → Option Read
  | [] => none
  | c :: r =>
    match c with
    | 'Z' | 'B' | 'C' | 'S' | 'I' => some ⟨.int, [c], r⟩
    | 'J' => some ⟨.long, [c], r⟩
    | 'F' => some ⟨.float, [c], r⟩
    | 'D' => some ⟨.double, [c], r⟩
    | 'L' =>
      let name := r.takeWhile (· != ';')
      match r.dropWhile (· != ';') with
      | _ :: rest =>
        if name.isEmpty then none
        else some ⟨.ref (String.ofList name), 'L' :: name ++ [';'], rest⟩
      | [] => none
    | '[' =>
      match read? r with
      | some elem => some ⟨.ref (String.ofList ('[' :: elem.text)), '[' :: elem.text, elem.rest⟩
      | none => none
    | _ => none

/-- the type of a whole descriptor -/
def parse? (desc : String) : Option FieldType :=
  match read? desc.toList with
  | some ⟨t, _, []⟩ => some t
  | _ => none

/-- the descriptor of a reference type -/
def refDescriptor (name : String) : String :=
  if name.startsWith "[" then name else "L" ++ name ++ ";"

theorem read?_nil : read? [] = none := rfl

end FieldType

/-- parameters and result of a method -/
structure MethodDesc where
  params : List FieldType
  /-- none when the method gives no result -/
  ret : Option FieldType
deriving DecidableEq, Repr, Inhabited

namespace MethodDesc

/-- the parameters up to the closing parenthesis and what follows it; each takes a character, so
`fuel` need not exceed the length of the text -/
def params? : Nat → List Char → Option (List FieldType × List Char)
  | _, ')' :: r => some ([], r)
  | 0, _ => none
  | fuel + 1, cs =>
    match FieldType.read? cs with
    | some t => (params? fuel t.rest).map fun p => (t.type :: p.1, p.2)
    | none => none

/-- the result after the parameters -/
def result? (cs : List Char) : Option (Option FieldType) :=
  if cs = ['V'] then some none
  else
    match FieldType.read? cs with
    | some ⟨t, _, []⟩ => some (some t)
    | _ => none

/-- the parts of a whole method descriptor -/
def parse? (desc : String) : Option MethodDesc :=
  match desc.toList with
  | '(' :: r =>
    match params? r.length r with
    | some (ps, rest) => (result? rest).map fun ret => ⟨ps, ret⟩
    | none => none
  | _ => none

/-- local slots of the parameters, without the receiver -/
def paramSlots (d : MethodDesc) : Nat := d.params.foldr (fun t n => t.width + n) 0

end MethodDesc

end Resumable
