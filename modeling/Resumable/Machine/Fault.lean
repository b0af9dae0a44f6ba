import Resumable.Coroutine.Basic
import Resumable.Heap.Text

/-!
# What can be thrown

A program throws objects, which its handlers may catch.  A fault is a failure of the machine itself:
it ends every activation and cannot be caught.

* `Fault`, `Throw` : the causes and their texts.
-/

namespace Resumable

/-- why the machine cannot go on; values are given by their texts -/
inductive Fault where
  /-- a rule of coroutines -/
  | violation (v : Violation)
  -- operands and locals
  | stackUnderflow
  | illTyped (expected : Kind) (found : String)
  | localOutOfRange (slot : UInt16)
  | inconvertible (value : String) (source target : Kind)
  -- control
  | fellOffEnd (method : String)
  | undefinedLabel (l : Label)
  | subroutine
  -- objects
  | noFields (type : String)
  | notArray (type : String)
  -- calls
  | badDescriptor (desc : String)
  | missingReceiver (m : MethodId)
  | kindMismatch (k : InvokeKind) (m : MethodId)
  | noMethod (m : MethodId)
  | noEntry (m : MethodId)
  | entryWithParameters (m : MethodId)
  -- arguments of built-in methods
  | missingArgument (index : Nat)
  | notInt (found : String)
  | notReference (found : String)
  | notCoroutine (type : String)
  | notString (type : String)
  /-- a text without end -/
  | endlessText
  /-- a failure outside of the machine, by its text -/
  | host (message : String)
deriving DecidableEq, Repr

namespace Fault

/-- what the fault is, without its class -/
def cause : Fault → String
  | .violation v => v.message
  | .stackUnderflow => "operand stack underflow"
  | .illTyped k v => "expected " ++ k.name ++ " operand, found " ++ v
  | .localOutOfRange slot => "local " ++ toString slot.toNat ++ " is outside the frame"
  | .inconvertible v s t => "cannot convert " ++ v ++ " from " ++ s.name ++ " to " ++ t.name
  | .fellOffEnd m => "control fell off the end of " ++ m
  | .undefinedLabel l => "undefined label " ++ l.text
  | .subroutine => "subroutines are not supported"
  | .noFields t => t ++ " has no fields"
  | .notArray t => t ++ " is not an array"
  | .badDescriptor d => d
  | .missingReceiver m => "missing receiver for " ++ m.text
  | .kindMismatch k m => k.mnemonic ++ " does not match the kind of " ++ m.text
  | .noMethod m => "no method " ++ m.text
  | .noEntry m => "no entry method " ++ m.text
  | .entryWithParameters m => "entry " ++ m.text ++ " must not take arguments"
  | .missingArgument i => "missing argument " ++ toString i
  | .notInt v => "expected int argument, found " ++ v
  | .notReference v => "expected reference argument, found " ++ v
  | .notCoroutine t => t ++ " is not a coroutine"
  | .notString t => t ++ " is not a string"
  | .endlessText => "a message that contains itself has no text"
  | .host m => m

def message (f : Fault) : String :=
  match f with
  | .violation _ => "coroutine invariant violated: " ++ f.cause
  | _ => "execution fault: " ++ f.cause

end Fault

/-- what ends an activation without a result -/
inductive Throw where
  /-- an object that the program threw -/
  | exception (r : Ref)
  | fault (f : Fault)
deriving DecidableEq, Repr

/-- the text that reports it when nothing caught it -/
def Throw.text? (h : Heap) : Throw → Option String
  | .exception r => (h.refText? r).map fun t => "uncaught exception " ++ t
  | .fault f => some f.message

/-- the same as the text of a fault -/
def Throw.faultText? (h : Heap) (t : Throw) : Option String :=
  match t with
  | .exception _ => (t.text? h).map fun s => (Fault.host s).message
  | .fault f => some f.message

end Resumable
