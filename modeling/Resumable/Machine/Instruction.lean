import Resumable.Hierarchy
import Resumable.Machine.Activation
import Resumable.Machine.Arithmetic

/-!
# Instructions

What an instruction does in the scope of its activation, and where control goes after it.

* `After` : where control goes;
* `Insn.exec` : one instruction.
-/

namespace Resumable

/-- where control goes after an instruction -/
inductive After where
  /-- to the next entry -/
  | next
  | jump (l : Label)
  /-- out of the method -/
  | finish (v : Option Value)
  /-- into a method, and then to the next entry -/
  | call (c : Call)

/-- a jump that is taken or not -/
def After.jumpIf (taken : Bool) (l : Label) : After := if taken then .jump l else .next

/-- the name under which a static is kept -/
def FieldRef.key (f : FieldRef) : String := f.owner ++ "." ++ f.name

/-- the target of a key among the cases of a table that starts at `low` -/
def tableTarget (low key : Int32) (otherwise : Label) (targets : List Label) : Label :=
  let index := key.toInt - low.toInt
  if 0 ≤ index then (targets[index.toNat]?).getD otherwise else otherwise

/-- the target of a key among listed cases; the first one counts -/
def lookupTarget (key : Int32) (otherwise : Label) (cases : List (Int32 × Label)) : Label :=
  ((cases.find? fun c => c.1 == key).map Prod.snd).getD otherwise

namespace Insn

open Exec

/-- an operation of two operands of a kind -/
def execArith (op : ArithOp) (k : Kind) : Exec Unit := do
  let b ← Exec.pop
  let a ← Exec.pop
  match Value.arith op k a b with
  | .ok v => push v
  | .error .illTyped => illTyped k a
  | .error .divideByZero => throwNew "java/lang/ArithmeticException" "/ by zero"

/-- a call with its arguments taken from the stack -/
def execInvoke (k : InvokeKind) (m : MethodId) : Exec Call := do
  match MethodDesc.parse? m.desc with
  | none => fault (.badDescriptor m.desc)
  | some d =>
    let args ← popArgs (d.params.length + if k.hasReceiver then 1 else 0)
    return ⟨k, m, args⟩

/-- an instruction that is followed by the next entry, unless it throws -/
def execPlain (p : Program) : Insn → Exec Unit
  | .nullConst => push .null
  | .intConst v => push (.int v)
  | .longConst v => push (.long v)
  | .floatConst v => push (.float v)
  | .doubleConst v => push (.double v)
  | .stringConst s => pushNew fun h => h.makeString s
  | .load k slot => do
    let v ← getLocal slot
    if v.kind? = some k then push v else illTyped k v
  | .store k slot => do setLocal slot (← popKind k)
  | .increment slot d => do
    match ← getLocal slot with
    | .int v => setLocal slot (.int (v + d))
    | v => illTyped .int v
  | .arith op k => execArith op k
  | .neg k => do
    let v ← Exec.pop
    push (← orElse (v.neg? k) (illTyped k v))
  | .convert s t => do
    let v ← Exec.pop
    push (← orElse (v.convert? s t) (do fault (.inconvertible ((← heap).shown v) s t)))
  | .compare op => do
    let b ← Exec.pop
    let a ← Exec.pop
    push (.int (← orElse (Value.compare? op a b) (illTyped op.operand a)))
  | .getStatic f => do
    push (((← get).statics.find? f.key).getD (Value.default f.desc))
  | .putStatic f => do
    let v ← Exec.pop
    modify fun s => { s with statics := s.statics.put f.key v }
  | .getField f => do
    let r ← popNonNull ("cannot read field " ++ f.name)
    push (← orElse ((← heap).field? r f.name f.desc) (do fault (.noFields (← className r))))
  | .putField f => do
    let v ← Exec.pop
    let r ← popNonNull ("cannot write field " ++ f.name)
    setHeap (← orElse ((← heap).putField? r f.name v) (do fault (.noFields (← className r))))
  | .new t => pushNew fun h => h.makeInstance t
  | .newArray t => do
    let n ← popInt
    if n < 0 then throwNew "java/lang/NegativeArraySizeException" (toString n.toInt)
    else pushNew fun h => h.makeArray t n.toInt.toNat
  | .arrayLength => do
    let r ← popNonNull "cannot read the length of null"
    let elems ← orElse ((← heap).elems? r) (do fault (.notArray (← className r)))
    push (.int (Int32.ofNat elems.size))
  | .arrayLoad _ => do
    let i ← popInt
    let r ← popNonNull "cannot load from null array"
    let elems ← orElse ((← heap).elems? r) (do fault (.notArray (← className r)))
    if i < 0 then outOfBounds i
    else push (← orElse elems[i.toInt.toNat]? (outOfBounds i))
  | .arrayStore _ => do
    let v ← Exec.pop
    let i ← popInt
    let r ← popNonNull "cannot store to null array"
    let _ ← orElse ((← heap).elems? r) (do fault (.notArray (← className r)))
    if i < 0 then outOfBounds i
    else setHeap (← orElse ((← heap).putElem? r i.toInt.toNat v) (outOfBounds i))
  | .checkCast t => do
    let v ← popRef
    match v with
    | none => push (.ref v)
    | some r =>
      let c ← className r
      if p.isAssignable c t then push (.ref v)
      else throwNew "java/lang/ClassCastException" (c ++ " cannot be cast to " ++ t)
  | .instanceOf t => do
    match ← popRef with
    | none => push (.ofBool false)
    | some r => push (.ofBool (p.isAssignable (← className r) t))
  | .pop => do
    let _ ← Exec.pop
  | .pop2 => do
    let v ← Exec.pop
    if v.width = 1 then
      let _ ← Exec.pop
  | .dup => do
    let a ← Exec.pop
    push a
    push a
  | .dupX1 => do
    let a ← Exec.pop
    let b ← Exec.pop
    push a
    push b
    push a
  | .dup2 => do
    let a ← Exec.pop
    if a.width = 2 then
      push a
      push a
    else
      let b ← Exec.pop
      push b
      push a
      push b
      push a
  | .swap => do
    let a ← Exec.pop
    let b ← Exec.pop
    push a
    push b
  | .jumpSubroutine _ | .returnSubroutine _ => fault .subroutine
  | _ => return

/-- one instruction -/
def exec (p : Program) : Insn → Exec After
  | .branch c l => do return .jumpIf (c.test (← popInt) 0) l
  | .branchCompare c l => do
    let b ← popInt
    let a ← popInt
    return .jumpIf (c.test a b) l
  | .branchSame l => do
    let b ← popRef
    let a ← popRef
    return .jumpIf (a == b) l
  | .branchDistinct l => do
    let b ← popRef
    let a ← popRef
    return .jumpIf (a != b) l
  | .branchNull l => do return .jumpIf (← popRef).isNone l
  | .branchNonNull l => do return .jumpIf (← popRef).isSome l
  | .jump l => return .jump l
  | .tableSwitch low d ts => do return .jump (tableTarget low (← popInt) d ts)
  | .lookupSwitch d cs => do return .jump (lookupTarget (← popInt) d cs)
  | .ret none => return .finish none
  | .ret (some k) => do return .finish (some (← popKind k))
  | .throw => do MonadExcept.throw (Throw.exception (← popNonNull "cannot throw null"))
  | .invoke k m => return .call (← execInvoke k m)
  | i => do
    execPlain p i
    return .next

end Insn

end Resumable
