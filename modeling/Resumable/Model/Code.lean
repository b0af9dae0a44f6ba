import Resumable.Code.Program
import Resumable.Json.Decode

/-!
# Programs as JSON

The form in which programs are stored: an instruction is an object with the name of its operation
and its arguments, absent where there are none; a class leaves out a missing superclass and an empty
list of interfaces.  Floating constants that are not finite have no number and are written as null.

* `Program.toJson`, `Program.ofJson?` : the stored form of a program and back;
* `Insn.toJson`, `Insn.ofJson?` : the same for one instruction.
-/

namespace Resumable

open Json

/-! ## small parts -/

/-- the name of a kind in stored programs -/
def Kind.key : Kind → String
  | .ref => "ref"
  | k => k.name

def Kind.ofKey? (s : String) : Option Kind := Kind.all.find? fun k => k.key == s

theorem Kind.ofKey?_key (k : Kind) : Kind.ofKey? k.key = some k := by cases k <;> decide

def Kind.toJson (k : Kind) : Json := .str k.key
def Kind.ofJson? (held : Bool) : Json → Option Kind := constant? held Kind.ofKey?

def Cond.ofJson? (held : Bool) : Json → Option Cond := constant? held Cond.ofName?
def ArithOp.ofJson? (held : Bool) : Json → Option ArithOp := constant? held ArithOp.ofName?
def CompareOp.ofJson? (held : Bool) : Json → Option CompareOp := constant? held CompareOp.ofName?
def InvokeKind.ofJson? (held : Bool) : Json → Option InvokeKind := constant? held InvokeKind.ofName?

def Label.toJson (l : Label) : Json := .ofNat l.number.toNat
def Label.ofJson? (j : Json) : Option Label := j.uint32?.map Label.mk

def MethodId.toJson (m : MethodId) : Json :=
  .obj [("owner", .str m.owner), ("name", .str m.name), ("desc", .str m.desc)]

def MethodId.ofJson? (j : Json) : Option MethodId :=
  match record? ["owner", "name", "desc"] j with
  | some [owner, name, desc] => do
    some ⟨← required? str? owner, ← required? str? name, ← required? str? desc⟩
  | _ => none

def FieldRef.toJson (f : FieldRef) : Json :=
  .obj [("owner", .str f.owner), ("name", .str f.name), ("desc", .str f.desc)]

def FieldRef.ofJson? (j : Json) : Option FieldRef :=
  (MethodId.ofJson? j).map fun m => ⟨m.owner, m.name, m.desc⟩

/-! ## instructions -/

namespace Insn

/-- an operation without arguments -/
def bare (op : String) : Json := .obj [("op", .str op)]

/-- an operation with its argument, or the array of its arguments -/
def withArgs (op : String) (args : Json) : Json := .obj [("op", .str op), ("args", args)]

/-- a slot -/
def slotJson (slot : UInt16) : Json := .ofNat slot.toNat

/-- a floating constant by the text of its number -/
def floatJson : Option String → Json
  | some t => .num t
  | none => .null

def toJson : Insn → Json
  | .label l => withArgs "label" l.toJson
  | .nop => bare "nop"
  | .nullConst => bare "a_const_null"
  | .intConst v => withArgs "i_const" (.ofInt v.toInt)
  | .longConst v => withArgs "l_const" (.ofInt v.toInt)
  | .floatConst v => withArgs "f_const" (floatJson (Decimal.jsonSingle? v))
  | .doubleConst v => withArgs "d_const" (floatJson (Decimal.jsonDouble? v))
  | .stringConst s => withArgs "ldc" (.str s)
  | .load k slot => withArgs "load" (.arr [k.toJson, slotJson slot])
  | .store k slot => withArgs "store" (.arr [k.toJson, slotJson slot])
  | .increment slot d => withArgs "iinc" (.arr [slotJson slot, .ofInt d.toInt])
  | .arith op k => withArgs "arith" (.arr [.str op.name, k.toJson])
  | .neg k => withArgs "neg" k.toJson
  | .convert s t => withArgs "convert" (.arr [s.toJson, t.toJson])
  | .compare op => withArgs "compare" (.str op.name)
  | .branch c l => withArgs "if" (.arr [.str c.name, l.toJson])
  | .branchCompare c l => withArgs "if_i_cmp" (.arr [.str c.name, l.toJson])
  | .branchSame l => withArgs "if_a_cmp_eq" l.toJson
  | .branchDistinct l => withArgs "if_a_cmp_ne" l.toJson
  | .branchNull l => withArgs "if_null" l.toJson
  | .branchNonNull l => withArgs "if_non_null" l.toJson
  | .jump l => withArgs "goto" l.toJson
  | .jumpSubroutine l => withArgs "jsr" l.toJson
  | .returnSubroutine slot => withArgs "ret" (slotJson slot)
  | .tableSwitch low d ts =>
    withArgs "table_switch" (.obj [("low", .ofInt low.toInt), ("default", d.toJson),
      ("targets", .arr (ts.map Label.toJson))])
  | .lookupSwitch d cs =>
    withArgs "lookup_switch" (.obj [("default", d.toJson),
      ("pairs", .arr (cs.map fun c => .arr [.ofInt c.1.toInt, c.2.toJson]))])
  | .ret none => withArgs "return" .null
  | .ret (some k) => withArgs "return" k.toJson
  | .throw => bare "a_throw"
  | .getStatic f => withArgs "get_static" f.toJson
  | .putStatic f => withArgs "put_static" f.toJson
  | .getField f => withArgs "get_field" f.toJson
  | .putField f => withArgs "put_field" f.toJson
  | .invoke k m => withArgs "invoke" (.arr [.str k.name, m.toJson])
  | .new t => withArgs "new" (.str t)
  | .newArray t => withArgs "new_array" (.str t)
  | .arrayLength => bare "array_length"
  | .arrayLoad k => withArgs "array_load" k.toJson
  | .arrayStore k => withArgs "array_store" k.toJson
  | .checkCast t => withArgs "check_cast" (.str t)
  | .instanceOf t => withArgs "instance_of" (.str t)
  | .pop => bare "pop"
  | .pop2 => bare "pop2"
  | .dup => bare "dup"
  | .dupX1 => bare "dup_x1"
  | .dup2 => bare "dup2"
  | .swap => bare "swap"

/-- operations without arguments -/
def bareOps : List (String × Insn) := [
  ("nop", .nop), ("a_const_null", .nullConst), ("a_throw", .throw),
  ("array_length", .arrayLength), ("pop", .pop), ("pop2", .pop2), ("dup", .dup),
  ("dup_x1", .dupX1), ("dup2", .dup2), ("swap", .swap)]

def tableSwitchOfJson? : Json → Option Insn
  | .obj ms =>
    match record? ["low", "default", "targets"] (.obj ms) with
    | some [low, d, ts] => do
      some (.tableSwitch (← required? int32? low) (← required? Label.ofJson? d)
        (← required? (list? Label.ofJson?) ts))
    | _ => none
  | _ => none

def lookupSwitchOfJson? : Json → Option Insn
  | .obj ms =>
    match record? ["default", "pairs"] (.obj ms) with
    | some [d, cs] => do
      some (.lookupSwitch (← required? Label.ofJson? d)
        (← required? (list? (pair? int32? Label.ofJson?)) cs))
    | _ => none
  | _ => none

/-- An operation with its arguments.  They are `held` if they were read before the operation. -/
def ofArgs? (held : Bool) (op : String) (args : Json) : Option Insn :=
  match op with
  | "label" => (Label.ofJson? args).map .label
  | "i_const" => args.int32?.map .intConst
  | "l_const" => args.int64?.map .longConst
  | "f_const" => args.single?.map .floatConst
  | "d_const" => args.double?.map .doubleConst
  | "ldc" => args.str?.map .stringConst
  | "load" => (pair? (Kind.ofJson? held) uint16? args).map fun a => .load a.1 a.2
  | "store" => (pair? (Kind.ofJson? held) uint16? args).map fun a => .store a.1 a.2
  | "iinc" => (pair? uint16? int32? args).map fun a => .increment a.1 a.2
  | "arith" =>
    (pair? (ArithOp.ofJson? held) (Kind.ofJson? held) args).map fun a => .arith a.1 a.2
  | "neg" => (Kind.ofJson? held args).map .neg
  | "convert" => (pair? (Kind.ofJson? held) (Kind.ofJson? held) args).map fun a => .convert a.1 a.2
  | "compare" => (CompareOp.ofJson? held args).map .compare
  | "if" => (pair? (Cond.ofJson? held) Label.ofJson? args).map fun a => .branch a.1 a.2
  | "if_i_cmp" =>
    (pair? (Cond.ofJson? held) Label.ofJson? args).map fun a => .branchCompare a.1 a.2
  | "if_a_cmp_eq" => (Label.ofJson? args).map .branchSame
  | "if_a_cmp_ne" => (Label.ofJson? args).map .branchDistinct
  | "if_null" => (Label.ofJson? args).map .branchNull
  | "if_non_null" => (Label.ofJson? args).map .branchNonNull
  | "goto" => (Label.ofJson? args).map .jump
  | "jsr" => (Label.ofJson? args).map .jumpSubroutine
  | "ret" => args.uint16?.map .returnSubroutine
  | "table_switch" => tableSwitchOfJson? args
  | "lookup_switch" => lookupSwitchOfJson? args
  | "return" => (nullable? (Kind.ofJson? held) args).map .ret
  | "get_static" => (FieldRef.ofJson? args).map .getStatic
  | "put_static" => (FieldRef.ofJson? args).map .putStatic
  | "get_field" => (FieldRef.ofJson? args).map .getField
  | "put_field" => (FieldRef.ofJson? args).map .putField
  | "invoke" =>
    (pair? (InvokeKind.ofJson? held) MethodId.ofJson? args).map fun a => .invoke a.1 a.2
  | "new" => args.str?.map .new
  | "new_array" => args.str?.map .newArray
  | "array_load" => (Kind.ofJson? held args).map .arrayLoad
  | "array_store" => (Kind.ofJson? held args).map .arrayStore
  | "check_cast" => args.str?.map .checkCast
  | "instance_of" => args.str?.map .instanceOf
  | _ => none

/-- An operation that takes no arguments may be given null; a return without arguments returns no
value. -/
def ofOp? (held : Bool) (op : String) (args : Option Json) : Option Insn :=
  match bareOps.lookup op, args with
  | some i, none => some i
  | some i, some .null => some i
  | some _, some _ => none
  | none, some a => ofArgs? held op a
  | none, none => if op == "return" then some (.ret none) else none

/-- the name of an operation -/
def opName? : Json → Option String := constant? false some

/-- The members of an instruction.  Arguments that stand before the operation have to be held until
it is known. -/
def ofMembers? (ms : List (String × Json)) : Option Insn :=
  match record? ["op", "args"] (.obj ms) with
  | some [op, args] => do
    let name ← required? opName? op
    if (ms.find? fun m => m.1 == "op" || m.1 == "args").any fun m => m.1 == "args" then
      if args.all isHeld then ofOp? true name args else none
    else ofOp? false name args
  | _ => none

/-- an object with the operation and its arguments, or an array of just these two -/
def ofJson? : Json → Option Insn
  | .arr [op, args] => do ofOp? false (← opName? op) (some args)
  | .obj ms => ofMembers? ms
  | _ => none

end Insn

/-! ## methods, classes, programs -/

/-- a member that is left out where there is no value -/
def memberIf (key : String) : Option Json → List (String × Json)
  | some j => [(key, j)]
  | none => []

def TryCatch.toJson (t : TryCatch) : Json :=
  .obj ([("start", t.start.toJson), ("end", t.stop.toJson), ("handler", t.handler.toJson)] ++
    memberIf "catch_type" (t.catchType.map .str))

def TryCatch.ofJson? (j : Json) : Option TryCatch :=
  match record? ["start", "end", "handler", "catch_type"] j with
  | some [start, stop, handler, type] => do
    some ⟨← required? Label.ofJson? start, ← required? Label.ofJson? stop,
      ← required? Label.ofJson? handler, ← optional? str? type⟩
  | _ => none

def LocalVar.toJson (v : LocalVar) : Json :=
  .obj [("slot", .ofNat v.slot.toNat), ("name", .str v.name), ("desc", .str v.desc),
    ("start", v.start.toJson), ("end", v.stop.toJson)]

def LocalVar.ofJson? (j : Json) : Option LocalVar :=
  match record? ["slot", "name", "desc", "start", "end"] j with
  | some [slot, name, desc, start, stop] => do
    some ⟨← required? uint16? slot, ← required? str? name, ← required? str? desc,
      ← required? Label.ofJson? start, ← required? Label.ofJson? stop⟩
  | _ => none

def Method.toJson (m : Method) : Json :=
  .obj [("name", .str m.name), ("desc", .str m.desc), ("is_static", .bool m.isStatic),
    ("max_locals", .ofNat m.maxLocals.toNat), ("code", .arr (m.code.map Insn.toJson)),
    ("try_catches", .arr (m.tryCatches.map TryCatch.toJson)),
    ("local_vars", .arr (m.localVars.map LocalVar.toJson))]

def Method.ofJson? (j : Json) : Option Method :=
  match record? ["name", "desc", "is_static", "max_locals", "code", "try_catches", "local_vars"] j
  with
  | some [name, desc, isStatic, maxLocals, code, tryCatches, localVars] => do
    some ⟨← required? str? name, ← required? str? desc, ← defaulted? false bool? isStatic,
      ← required? uint16? maxLocals, ← required? (list? Insn.ofJson?) code,
      ← defaulted? [] (list? TryCatch.ofJson?) tryCatches,
      ← defaulted? [] (list? LocalVar.ofJson?) localVars⟩
  | _ => none

def Field.toJson (f : Field) : Json :=
  .obj [("name", .str f.name), ("desc", .str f.desc), ("is_static", .bool f.isStatic)]

def Field.ofJson? (j : Json) : Option Field :=
  match record? ["name", "desc", "is_static"] j with
  | some [name, desc, isStatic] => do
    some ⟨← required? str? name, ← required? str? desc, ← defaulted? false bool? isStatic⟩
  | _ => none

def ClassDef.toJson (c : ClassDef) : Json :=
  .obj ([("name", .str c.name)] ++ memberIf "super_name" (c.superName.map .str) ++
    memberIf "interfaces" (if c.interfaces.isEmpty then none else some (.strings c.interfaces)) ++
    [("fields", .arr (c.fields.map Field.toJson)),
      ("methods", .arr (c.methods.map Method.toJson))])

def ClassDef.ofJson? (j : Json) : Option ClassDef :=
  match record? ["name", "super_name", "interfaces", "fields", "methods"] j with
  | some [name, super, interfaces, fields, methods] => do
    some ⟨← required? str? name, ← optional? str? super, ← defaulted? [] (list? str?) interfaces,
      ← defaulted? [] (list? Field.ofJson?) fields,
      ← defaulted? [] (list? Method.ofJson?) methods⟩
  | _ => none

def Program.toJson (p : Program) : Json :=
  .obj [("classes", .obj (p.classes.map fun e => (e.1, e.2.toJson)))]

/-- classes by their keys; of one key the last counts -/
def Program.classesOfJson? : Json → Option Program
  | .obj ms =>
    ms.foldlM (fun p m => (ClassDef.ofJson? m.2).map fun c => p.insertAt m.1 c) Program.empty
  | _ => none

def Program.ofJson? (j : Json) : Option Program :=
  match record? ["classes"] j with
  | some [classes] => required? classesOfJson? classes
  | _ => none

end Resumable
