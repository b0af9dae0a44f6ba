import Resumable.CommandLine.Run

/-!
# The program

The files that an invocation reads and the variables that it looks at are gathered first; what comes
of it is then printed and written.
-/

namespace Resumable.CommandLine

/-- those of the files that can be read -/
def readFiles (paths : List String) : IO Directory := do
  let read (path : String) : IO (Option (String × String)) := do
    try return some (path, ← IO.FS.readFile path) catch _ => return none
  return ⟨(← paths.mapM read).filterMap id⟩

/-- the variables that settings are read from -/
def readEnvironment : IO Environment := do
  let read (name : String) : IO (Option (String × String)) := do
    return (← IO.getEnv name).map fun v => (name, v)
  return (← Settings.variableNames.mapM read).filterMap id

/-- a text written to a file -/
def writeFile (path text : String) : IO Bool := do
  try
    IO.FS.writeFile path text
    return true
  catch _ => return false

/-- the files that an invocation reads -/
def gather (v : Invocation) (env : Environment) : IO Directory := do
  let own ← readFiles [Settings.variablesFile]
  let env := Settings.environment own env
  let settings ← readFiles (Settings.inputs env v.overrides)
  let d : Directory := ⟨own.files ++ settings.files⟩
  match Settings.load d env v.overrides with
  | .error _ => return d
  | .ok s => return ⟨d.files ++ (← readFiles (v.inputs s)).files⟩

/-- the steps that a program may take -/
def fuel : Nat := 1000000000000000000

/-- an invocation acted on -/
def act (v : Invocation) : IO UInt32 := do
  let env ← readEnvironment
  let o := v.run (← gather v env) env fuel
  IO.print o.stdout
  let success ← match o.file with
    | some (path, text) => writeFile path text
    | none => pure true
  let o := o.written success
  IO.eprint o.stderr
  match o.failure with
  | none => return 0
  | some f =>
    IO.eprintln ("Error: " ++ f.message)
    return 1

end Resumable.CommandLine

open Resumable.CommandLine in
def main (args : List String) : IO UInt32 := do
  match Invocation.parse args with
  | .ok v => act v
  | .error .help =>
    IO.print usage
    return 0
  | .error _ =>
    IO.eprint usage
    return 2
