import Resumable.Decimal.Reading

/-!
# Arguments of a command

A command takes options, at most one operand, and perhaps the name of another command that ends its
own arguments.  An option has a long name after two hyphens and may have a letter after one; its
value is attached to it or is the next argument.  Two hyphens alone say that only operands follow.

A value that stands for itself is checked when the next argument is understood, so that an argument
that is not known is reported before a value that is not accepted.

* `Signature.read` : what the arguments of a command give, and the command that ends them.
-/

namespace Resumable.CommandLine

/-- why arguments are refused, or not acted on -/
inductive UsageError where
  /-- help is asked for -/
  | help
  /-- there are no arguments at all -/
  | nothing
  | missingCommand
  | unknownCommand
  | unknownArgument
  /-- an option without a value, or a path that is empty -/
  | missingValue
  /-- a value for an option that takes none -/
  | surplusValue
  /-- an option that may stand once stands again -/
  | repeated
  /-- a value that is no number -/
  | badValue
  | missingArgument
deriving DecidableEq, Repr

/-! ## what a command takes -/

/-- what a value must be -/
inductive ValueSort where
  | path
  | text
  | count
deriving DecidableEq, Repr

/-- the greatest count -/
def maxCount : Nat := 18446744073709551615

/-- a value is accepted -/
def ValueSort.check (s : ValueSort) (value : String) : Except UsageError Unit :=
  match s with
  | .path => if value.isEmpty then .error .missingValue else .ok ()
  | .text => .ok ()
  | .count => if (Decimal.readNat? maxCount value).isSome then .ok () else .error .badValue

/-- an option or an operand -/
structure Parameter where
  name : String
  letter : Option Char
  /-- what its value must be; an option without a value is a flag -/
  value : Option ValueSort
  repeatable : Bool
deriving DecidableEq, Repr

/-- what a command takes -/
structure Signature where
  options : List Parameter
  operand : Option Parameter
  /-- names of commands that may follow -/
  commands : List String

/-- the options of a command, with the one that asks for help -/
def Signature.allOptions (x : Signature) : List Parameter :=
  ⟨"help", some 'h', none, false⟩ :: x.options

/-! ## reading -/

/-- what was understood so far -/
structure Understood where
  /-- options and operands with their values, in order; a flag has an empty one -/
  given : List (String × String)
  /-- the parameter read last, with its value or still without one -/
  pending : Option (Parameter × Option String)
  /-- only operands follow -/
  operandsOnly : Bool
  operandGiven : Bool

namespace Understood

def start : Understood := ⟨[], none, false, false⟩

def has (u : Understood) (name : String) : Bool := (u.given.lookup name).isSome

/-- the values of a parameter in order -/
def values (u : Understood) (name : String) : List String :=
  (u.given.filter fun e => e.1 == name).map Prod.snd

def value? (u : Understood) (name : String) : Option String := (u.values name).getLast?

/-- a parameter taken with its value -/
def take (u : Understood) (p : Parameter) (value : String) : Except UsageError Understood :=
  if !p.repeatable && u.has p.name then .error .repeated
  else do
    if let some sort := p.value then sort.check value
    .ok { u with given := u.given ++ [(p.name, value)] }

/-- the parameter read last taken -/
def settle (u : Understood) : Except UsageError Understood :=
  match u.pending with
  | none => .ok u
  | some (_, none) => .error .missingValue
  | some (p, some v) => { u with pending := none }.take p v

/-- The last option still needs its value. -/
def isWaiting (u : Understood) : Bool :=
  match u.pending with
  | some (_, none) => true
  | _ => false

/-- an option, with the value attached to it if there is one -/
def option (u : Understood) (p : Parameter) (attached : Option String) :
    Except UsageError Understood :=
  match p.value, attached with
  | none, some _ => .error .surplusValue
  | none, none => do
    let u ← u.settle
    if p.name = "help" then .error .help else u.take p ""
  | some _, some v => do (← u.settle).take p v
  | some _, none => do .ok { ← u.settle with pending := some (p, none) }

/-- an argument that is no option -/
def word (u : Understood) (x : Signature) (a : String) : Except UsageError Understood :=
  match u.pending, u.operandsOnly with
  | some (p, none), false => .ok { u with pending := some (p, some a) }
  | _, _ =>
    match x.operand, u.operandGiven with
    | some p, false => do
      .ok { ← u.settle with pending := some (p, some a), operandGiven := true }
    | _, _ =>
      if x.commands.isEmpty || x.commands.contains a then .error .unknownArgument
      else .error .unknownCommand

end Understood

/-- the name of an option and the value that a sign of equality attaches to it -/
def splitEquals (cs : List Char) : String × Option String :=
  let name := cs.takeWhile (· != '=')
  match cs.dropWhile (· != '=') with
  | [] => (String.ofList name, none)
  | _ :: v => (String.ofList name, some (String.ofList v))

/-- the value attached to a letter; a sign of equality may stand between them -/
def afterLetter : List Char → Option String
  | [] => none
  | '=' :: v => some (String.ofList v)
  | v => some (String.ofList v)

namespace Signature

/-- one argument that names no command -/
def understand (x : Signature) (u : Understood) (a : String) : Except UsageError Understood :=
  if u.operandsOnly then u.word x a
  else
    match a.toList with
    | ['-', '-'] => .ok { u with operandsOnly := true }
    | '-' :: '-' :: cs =>
      let (name, attached) := splitEquals cs
      match x.allOptions.find? fun p => p.name == name with
      | some p => u.option p attached
      | none => .error .unknownArgument
    | '-' :: c :: cs =>
      match x.allOptions.find? fun p => p.letter == some c with
      | some p => u.option p (if p.value.isSome then afterLetter cs else none)
      | none => .error .unknownArgument
    | _ => u.word x a

/-- All arguments up to the name of a command, which is given with those after it.  The parameter
before it is not taken yet. -/
def read (x : Signature) (u : Understood) :
    List String → Except UsageError (Understood × Option (String × List String))
  | [] => u.settle.map fun u => (u, none)
  | a :: r =>
    if !u.operandsOnly && !u.isWaiting && x.commands.contains a then .ok (u, some (a, r))
    else (x.understand u a).bind fun u => x.read u r

end Signature

end Resumable.CommandLine
