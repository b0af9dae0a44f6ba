import Resumable.Heap.Literal
import Resumable.Intrinsics
import Resumable.Machine.Fault

/-!
# Built-in methods

The methods that programs may call without defining them: those of coroutines, a small library of
objects, throwables, strings and the console, and host methods, which stand for code outside of the
program and are described by what they do.

* `LibraryMethod` : the library, by its methods;
* `HostMethod` : a host method;
* `Native.find?` : the built-in method of an identity.
-/

namespace Resumable

/-! ## the library -/

/-- what can be printed -/
inductive Printable where
  | string | object | int | long | float | double | boolean
deriving DecidableEq, Repr

namespace Printable

def all : List Printable := [.string, .object, .int, .long, .float, .double, .boolean]

def desc : Printable → String
  | .string => "Ljava/lang/String;"
  | .object => "Ljava/lang/Object;"
  | .int => "I"
  | .long => "J"
  | .float => "F"
  | .double => "D"
  | .boolean => "Z"

/-- the text of a value; an integer that stands for a truth value is printed as one -/
def text? (p : Printable) (h : Heap) (v : Value) : Option String :=
  match p, v with
  | .boolean, .int v => some (if v = 0 then "false" else "true")
  | _, _ => h.text? v

end Printable

/-- a method of the library -/
inductive LibraryMethod where
  | objectInit
  | objectToString
  | throwableInit
  | throwableInitMessage
  | throwableGetMessage
  | println (p : Printable)
  | valueOf (p : Printable)
  | concat
  | equals
  | length
deriving DecidableEq, Repr

namespace LibraryMethod

def id : LibraryMethod → MethodId
  | .objectInit => ⟨objectType, "<init>", "()V"⟩
  | .objectToString => ⟨objectType, "toString", "()Ljava/lang/String;"⟩
  | .throwableInit => ⟨throwableType, "<init>", "()V"⟩
  | .throwableInitMessage => ⟨throwableType, "<init>", "(Ljava/lang/String;)V"⟩
  | .throwableGetMessage => ⟨throwableType, "getMessage", "()Ljava/lang/String;"⟩
  | .println p => ⟨consoleType, "println", "(" ++ p.desc ++ ")V"⟩
  | .valueOf p => ⟨stringType, "valueOf", "(" ++ p.desc ++ ")Ljava/lang/String;"⟩
  | .concat => ⟨stringType, "concat", "(Ljava/lang/String;)Ljava/lang/String;"⟩
  | .equals => ⟨stringType, "equals", "(Ljava/lang/Object;)Z"⟩
  | .length => ⟨stringType, "length", "()I"⟩

/-- the whole library; strings are not converted to strings -/
def all : List LibraryMethod :=
  [.objectInit, .objectToString, .throwableInit, .throwableInitMessage, .throwableGetMessage,
    .concat, .equals, .length] ++
  Printable.all.map .println ++ (Printable.all.filter fun p => p != .string).map .valueOf

def ofId? (m : MethodId) : Option LibraryMethod := all.find? fun l => l.id == m

end LibraryMethod

/-! ## host methods -/

/-- how a host method ends -/
inductive Reply where
  | throws (type message : String)
  | fault (message : String)
  /-- the argument of an index, the receiver counted, or no result if there is none -/
  | echo (index : Nat)
  | returns (l : Literal)
  | nothing
deriving Repr, Inhabited

/-- a method outside of the program -/
structure HostMethod where
  method : MethodId
  /-- it first asks the running coroutine, if there is one, to suspend -/
  yields : Bool
  reply : Reply
deriving Repr, Inhabited

/-! ## all of them -/

/-- a built-in method -/
inductive Native where
  | intrinsic (i : Intrinsic)
  | library (l : LibraryMethod)
  | host (h : HostMethod)

/-- The built-in method of an identity.  Host methods come first, and of two of one identity the
later one counts. -/
def Native.find? (hosts : List HostMethod) (m : MethodId) : Option Native :=
  match hosts.reverse.find? fun h => h.method == m with
  | some h => some (.host h)
  | none =>
    match Intrinsic.ofId? m with
    | some i => some (.intrinsic i)
    | none => (LibraryMethod.ofId? m).map .library

end Resumable
