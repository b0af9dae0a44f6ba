import Resumable.CommandLine.Arguments

/-!
# Invocations

* `Invocation` : a command with its arguments, and the options that all commands share;
* `Invocation.parse` : the invocation that arguments ask for;
* `usage` : how the commands are called.

Options shared by all commands may stand before the name of the command or behind it, where they
take the place of those before it.
-/

namespace Resumable.CommandLine

/-- what is to be done -/
inductive Command where
  /-- reports what is found in the methods of a program -/
  | analyze (file : String) (frames json : Bool)
  /-- instruments a program -/
  | instrument (file : String) (output : Option String) (json : Bool)
  /-- runs a method as a coroutine; at most one more resume than `maxResumes` -/
  | run (file entry : String) (asWritten : Bool) (maxResumes : Nat)
deriving DecidableEq, Repr

/-- the file with the program -/
def Command.file : Command → String
  | .analyze f _ _ => f
  | .instrument f _ _ => f
  | .run f _ _ _ => f

structure Invocation where
  /-- the file of settings -/
  config : Option String
  /-- files with tables of restore points -/
  specs : List String
  /-- the filter of the log -/
  log : Option String
  command : Command
deriving DecidableEq, Repr

/-! ## signatures -/

/-- the options that all commands share -/
def sharedOptions : List Parameter :=
  [⟨"config", none, some .path, false⟩, ⟨"specs", none, some .path, true⟩,
    ⟨"log", none, some .text, false⟩]

/-- a flag -/
def flagOption (name : String) : Parameter := ⟨name, none, none, false⟩

/-- the operand of all commands -/
def fileOperand : Parameter := ⟨"file", none, some .path, false⟩

/-- the options of each command, by its name -/
def commandOptions : List (String × List Parameter) :=
  [("analyze", [flagOption "frames", flagOption "json"]),
    ("instrument", [⟨"output", some 'o', some .path, false⟩, flagOption "json"]),
    ("run", [⟨"entry", none, some .text, false⟩, flagOption "no-instrument",
      ⟨"max-resumes", none, some .count, false⟩])]

def commandNames : List String := commandOptions.map Prod.fst

/-- the name that asks for help -/
def helpCommand : String := "help"

/-- what stands before the name of a command -/
def outerSignature : Signature := ⟨sharedOptions, none, commandNames ++ [helpCommand]⟩

/-- what stands behind the name of a command -/
def innerSignature (name : String) : Signature :=
  ⟨((commandOptions.lookup name).getD []) ++ sharedOptions, some fileOperand, []⟩

/-- how the commands are called -/
def usage : String :=
  "usage: corofy [--config FILE] [--specs FILE]... [--log FILTER] COMMAND\n" ++
  "  analyze FILE [--frames] [--json]\n" ++
  "  instrument FILE [-o, --output FILE] [--json]\n" ++
  "  run FILE --entry METHOD [--no-instrument] [--max-resumes N]\n"

/-! ## reading -/

/-- an argument that has to be given -/
def needed (u : Understood) (name : String) : Except UsageError String :=
  match u.value? name with
  | some v => .ok v
  | none => .error .missingArgument

/-- resumes where none are asked for -/
def defaultResumes : Nat := 100

/-- the command of a name with its arguments -/
def Command.ofArguments (name : String) (u : Understood) : Except UsageError Command := do
  let file ← needed u "file"
  match name with
  | "analyze" => .ok (.analyze file (u.has "frames") (u.has "json"))
  | "instrument" => .ok (.instrument file (u.value? "output") (u.has "json"))
  | "run" =>
    let resumes := (u.value? "max-resumes").bind (Decimal.readNat? maxCount)
    .ok (.run file (← needed u "entry") (u.has "no-instrument") (resumes.getD defaultResumes))
  | _ => .error .unknownCommand

/-- what is said to a request for help about some commands -/
def helpError : List String → UsageError
  | [] => .help
  | [name] => if outerSignature.commands.contains name then .help else .unknownCommand
  | _ => .unknownCommand

/-- the invocation that arguments ask for -/
def Invocation.parse (args : List String) : Except UsageError Invocation := do
  match ← outerSignature.read .start args with
  | (outer, none) => .error (if outer.given.isEmpty then .nothing else .missingCommand)
  | (outer, some (name, rest)) =>
    if name = helpCommand then .error (helpError rest)
    else
      let (inner, _) ← (innerSignature name).read .start rest
      let command ← Command.ofArguments name inner
      let outer ← outer.settle
      let specs := inner.values "specs"
      .ok {
        config := inner.value? "config" <|> outer.value? "config"
        specs := if specs.isEmpty then outer.values "specs" else specs
        log := inner.value? "log" <|> outer.value? "log"
        command }

end Resumable.CommandLine
