import Resumable.Frame.Basic

/-!
# The effect of an instruction on a frame

`Frame.apply` gives the frame after an instruction on every path that goes on from it, or says why
the instruction cannot stand here.  Operands are taken in the order in which they were pushed last.
-/

namespace Resumable

namespace Frame

/-- the category of a declared field -/
def fieldCategory (desc : String) : Except AnalysisFailure Category :=
  match FieldType.parse? desc with
  | some t => .ok (.ofType t)
  | none => .error (.badDescriptor desc)

/-- the category of an element of an array; an array of unknown type holds just its kind -/
def componentOf (array : Category) (k : Kind) : Category :=
  match k, array.typeName? with
  | .ref, some name =>
    match name.toList with
    | '[' :: elem =>
      match FieldType.parse? (String.ofList elem) with
      | some t => .ofType t
      | none => .ref objectType
    | _ => .ofKind k
  | _, _ => .ofKind k

/-- take operands of the given kinds, the first one from the top -/
def popKinds (f : Frame) : List Kind → Except AnalysisFailure Frame
  | [] => .ok f
  | k :: ks => do
    let (_, f) ← f.popKind k
    f.popKinds ks

/-- take operands of the given kinds and push a result -/
def replace (f : Frame) (ks : List Kind) (c : Category) : Except AnalysisFailure Frame := do
  let f ← f.popKinds ks
  .ok (f.push c)

/-- the frame after an instruction -/
def apply (f : Frame) : Insn → Except AnalysisFailure Frame
  | .label _ | .nop | .jump _ => .ok f
  | .nullConst => .ok (f.push .null)
  | .intConst _ => .ok (f.push .int)
  | .longConst _ => .ok (f.push .long)
  | .floatConst _ => .ok (f.push .float)
  | .doubleConst _ => .ok (f.push .double)
  | .stringConst _ => .ok (f.push (.ref stringType))
  | .load k slot => do
    let c ← f.getLocal slot
    if c.kind? = some k then .ok (f.push c) else .error (.typeMismatch (.kind k) c)
  | .store k slot => do
    let (c, f) ← f.popKind k
    f.setLocal slot c
  | .increment slot _ => do
    let c ← f.getLocal slot
    if c = .int then .ok f else .error (.typeMismatch (.kind .int) c)
  | .arith _ k => f.replace [k, k] (.ofKind k)
  | .neg k => f.replace [k] (.ofKind k)
  | .convert s t => f.replace [s] (.ofKind t)
  | .compare op => f.replace [op.operand, op.operand] .int
  | .branch _ _ | .tableSwitch .. | .lookupSwitch .. => f.popKinds [.int]
  | .branchCompare _ _ => f.popKinds [.int, .int]
  | .branchSame _ | .branchDistinct _ => f.popKinds [.ref, .ref]
  | .branchNull _ | .branchNonNull _ => f.popKinds [.ref]
  | .jumpSubroutine _ | .returnSubroutine _ => .error .subroutine
  | .ret none => .ok f
  | .ret (some k) => f.popKinds [k]
  | .throw => f.popKinds [.ref]
  | .getStatic r => do
    let c ← fieldCategory r.desc
    .ok (f.push c)
  | .putStatic r => do
    let c ← fieldCategory r.desc
    f.popKinds [c.kind?.getD .ref]
  | .getField r => do
    let f ← f.popKinds [.ref]
    let c ← fieldCategory r.desc
    .ok (f.push c)
  | .putField r => do
    let c ← fieldCategory r.desc
    f.popKinds [c.kind?.getD .ref, .ref]
  | .invoke kind m =>
    match MethodDesc.parse? m.desc with
    | none => .error (.badDescriptor m.desc)
    | some d => do
      let f ← f.popKinds (d.params.reverse.map FieldType.kind)
      let f ← if kind.hasReceiver then f.popKinds [.ref] else .ok f
      match d.ret with
      | some t => .ok (f.push (.ofType t))
      | none => .ok f
  | .new t => .ok (f.push (.ref t))
  | .newArray t => do
    let _ ← fieldCategory t
    f.replace [.int] (.ref ("[" ++ t))
  | .arrayLength => f.replace [.ref] .int
  | .arrayLoad k => do
    let f ← f.popKinds [.int]
    let (array, f) ← f.popKind .ref
    .ok (f.push (componentOf array k))
  | .arrayStore k => f.popKinds [k, .int, .ref]
  | .checkCast t => do
    let (c, f) ← f.popKind .ref
    .ok (f.push (if c = .null then .null else .ref t))
  | .instanceOf _ => f.replace [.ref] .int
  | .pop => do
    let (_, f) ← f.popNarrow
    .ok f
  | .pop2 => do
    let top ← f.peek
    if top.width = 2 then
      let (_, f) ← f.pop
      .ok f
    else
      let (_, f) ← f.popNarrow
      let (_, f) ← f.popNarrow
      .ok f
  | .dup => do
    let (a, f) ← f.popNarrow
    .ok ((f.push a).push a)
  | .dupX1 => do
    let (a, f) ← f.popNarrow
    let (b, f) ← f.popNarrow
    .ok (((f.push a).push b).push a)
  | .dup2 => do
    let top ← f.peek
    if top.width = 2 then
      .ok (f.push top)
    else
      let (a, f) ← f.popNarrow
      let (b, f) ← f.popNarrow
      .ok ((((f.push b).push a).push b).push a)
  | .swap => do
    let (a, f) ← f.popNarrow
    let (b, f) ← f.popNarrow
    .ok ((f.push a).push b)

theorem apply_label (f : Frame) (l : Label) : f.apply (.label l) = .ok f := rfl

end Frame

end Resumable
