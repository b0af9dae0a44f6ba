import Resumable.Code.Program

/-!
# The type hierarchy

Which type is a supertype of which, for the classes of a program and a few types that every program
may use without declaring them.  Ancestry that cannot be resolved ends in the root type.

* `Program.superOf?`, `Program.superclassChain` : the superclasses of a type, nearest first;
* `Program.isAssignable` : a value of one type may stand where another type is expected;
* `Program.commonSupertype` : the type given to a value that comes from two sides of a join.
-/

namespace Resumable

/-- the root of the hierarchy -/
def objectType : String := "java/lang/Object"

/-- the root of what can be thrown -/
def throwableType : String := "java/lang/Throwable"

def stringType : String := "java/lang/String"

/-- the type whose `run` method a coroutine calls -/
def runnableType : String := "java/lang/Runnable"

/-- the type of coroutines -/
def coroutineType : String := "corofy/Coro"

/-- the type that prints lines -/
def consoleType : String := "corofy/Console"

/-- superclasses of the types that every program may use -/
def builtinSupers : List (String × Option String) := [
  (objectType, none),
  (stringType, some objectType),
  (runnableType, some objectType),
  (throwableType, some objectType),
  ("java/lang/Exception", some throwableType),
  ("java/lang/Error", some throwableType),
  ("java/lang/RuntimeException", some "java/lang/Exception"),
  ("java/lang/IllegalArgumentException", some "java/lang/RuntimeException"),
  ("java/lang/IllegalStateException", some "java/lang/RuntimeException"),
  ("java/lang/NullPointerException", some "java/lang/RuntimeException"),
  ("java/lang/ArithmeticException", some "java/lang/RuntimeException"),
  ("java/lang/ClassCastException", some "java/lang/RuntimeException"),
  ("java/lang/IndexOutOfBoundsException", some "java/lang/RuntimeException"),
  ("java/lang/ArrayIndexOutOfBoundsException", some "java/lang/IndexOutOfBoundsException"),
  ("java/lang/NegativeArraySizeException", some "java/lang/RuntimeException"),
  (coroutineType, some objectType),
  (consoleType, some objectType)]

/-- array types are written with a leading bracket -/
def isArrayType (name : String) : Bool :=
  match name.toList with
  | '[' :: _ => true
  | _ => false

/-- a type that everything may implement and that is no superclass of a class -/
def isBuiltinInterface (name : String) : Bool := name == runnableType

namespace Program

/-- the superclass of a type; the root and unknown types have none -/
def superOf? (p : Program) (name : String) : Option String :=
  if isArrayType name then some objectType
  else
    match p.class? name with
    | some c => c.superName
    | none => (builtinSupers.find? fun e => e.1 == name).bind Prod.snd

def isKnownType (p : Program) (name : String) : Bool :=
  isArrayType name || (p.class? name).isSome || builtinSupers.any fun e => e.1 == name

/-- every name that is the superclass of something -/
def superNames (p : Program) : List String :=
  objectType :: p.classes.filterMap (fun e => e.2.superName) ++ builtinSupers.filterMap Prod.snd

/-- The superclasses above a type, up to the first one already seen.  Each of them is a new member
of `superNames`, whose length therefore bounds their number. -/
def superclassesFrom (p : Program) : Nat → List String → String → List String
  | 0, _, _ => []
  | fuel + 1, seen, name =>
    match p.superOf? name with
    | none => []
    | some s => if s ∈ seen then [] else s :: superclassesFrom p fuel (s :: seen) s

/-- a type followed by its superclasses, nearest first -/
def superclassChain (p : Program) (name : String) : List String :=
  name :: p.superclassesFrom p.superNames.length [name] name

/-- the interfaces that a class of the program names -/
def interfacesOf (p : Program) (name : String) : List String :=
  ((p.class? name).map ClassDef.interfaces).getD []

/-- Some type reachable from the pending ones through interfaces is `target`.  A type adds its
interfaces once, so the pending types and all interface lists together bound the steps. -/
def reachesFrom (p : Program) (target : String) : Nat → List String → List String → Bool
  | _, _, [] => false
  | 0, _, _ => false
  | fuel + 1, seen, t :: rest =>
    t == target ||
      (if t ∈ seen then reachesFrom p target fuel seen rest
        else reachesFrom p target fuel (t :: seen) (p.interfacesOf t ++ rest))

/-- interfaces listed in the whole program -/
def interfaceCount (p : Program) : Nat :=
  p.classes.foldr (fun e n => e.2.interfaces.length + n) 0

/-- a value of type `source` may be used where `target` is expected -/
def isAssignable (p : Program) (source target : String) : Bool :=
  source == target || target == objectType ||
    (!isArrayType source && !isArrayType target &&
      let chain := p.superclassChain source
      p.reachesFrom target (chain.length + p.interfaceCount) [] chain)

/-- the type of a value that is an `a` on one side and a `b` on the other -/
def commonSupertype (p : Program) (a b : String) : String :=
  if a == b then a
  else if isBuiltinInterface a || isBuiltinInterface b then objectType
  else
    let ancestors := p.superclassChain a
    ((p.superclassChain b).find? fun t => t ∈ ancestors).getD objectType

theorem superclassChain_head (p : Program) (name : String) :
    (p.superclassChain name).head? = some name := rfl

theorem isAssignable_self (p : Program) (t : String) : p.isAssignable t t = true := by
  simp [isAssignable]

theorem isAssignable_object (p : Program) (t : String) : p.isAssignable t objectType = true := by
  simp [isAssignable]

theorem commonSupertype_self (p : Program) (t : String) : p.commonSupertype t t = t := by
  simp [commonSupertype]

end Program

end Resumable
