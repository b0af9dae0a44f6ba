import Resumable.Intrinsics
import Resumable.Frame.Basic

/-!
# Moving one value

The code that moves a single value between the operand stack, a local and the storage of the
running coroutine.  Storage hands references back as values of the root type, so a restored
reference is cast to the type it had.
-/

namespace Resumable

namespace Kind

/-- push the zero of the kind -/
def zeroInsn : Kind → Insn
  | .int => .intConst 0
  | .long => .longConst 0
  | .float => .floatConst 0.0
  | .double => .doubleConst 0.0
  | .ref => .nullConst

/-- drop a value of the kind from the operand stack -/
def discardInsn (k : Kind) : Insn := if k.width = 2 then .pop2 else .pop

/-- move the top of the operand stack into storage -/
def pushCode (k : Kind) : List Insn := [(Intrinsic.push k).call]

/-- copy the top of the operand stack into the open staging frame -/
def stageCode (k : Kind) : List Insn := [(Intrinsic.stage k).call]

end Kind

/-- the cast of a restored reference; the root type needs none -/
def castTo : Category → List Insn
  | .ref t => if t = objectType then [] else [.checkCast t]
  | _ => []

/-- the cast after a value of the kind comes back -/
def Kind.castCode (k : Kind) (c : Category) : List Insn :=
  match k with
  | .ref => castTo c
  | _ => []

/-- move the top of storage onto the operand stack -/
def Kind.popCode (k : Kind) (c : Category) : List Insn :=
  (Intrinsic.pop k).call :: k.castCode c

/-- copy a staged value onto the operand stack, counted from the top of its kind -/
def Kind.peekCode (k : Kind) (depth : Nat) (c : Category) : List Insn :=
  [.intConst (Int32.ofNat depth), (Intrinsic.peekStaged k).call] ++ k.castCode c

end Resumable
