import Resumable.Assembly.Build
import Resumable.Assembly.Listing
import Resumable.CommandLine.Invocation
import Resumable.CommandLine.Outcome
import Resumable.Json.Printer
import Resumable.Machine.Step
import Resumable.Model.Report

/-!
# Acting on an invocation

Settings come first, then the program with its table of restore points, then the command.

* `Invocation.run` : what comes of an invocation in a directory;
* `Invocation.inputs` : the files that it reads under some settings.
-/

namespace Resumable.CommandLine

/-! ## programs -/

/-- a program with the table of its restore points -/
structure Loaded where
  program : Program
  table : RestoreTable

/-- The program of a file.  What an assembly declares follows the declarations of the table. -/
def programOf (path text : String) (t : RestoreTable) : Except Failure Loaded :=
  if Path.isJson path then
    match (Json.read? text).bind Program.ofJson? with
    | some p => .ok ⟨p, t⟩
    | none => .error (.invalidModel path)
  else
    match Assembly.assemble text with
    | .ok a => .ok ⟨a.program, { t with declarations := t.declarations ++ a.table.declarations }⟩
    | .error e => .error (.source path e)

/-- The program of an invocation.  The tables of the settings come before what the program declares,
those of the arguments behind it. -/
def load (d : Directory) (s : Settings) (v : Invocation) : Except Failure Loaded := do
  let path := v.command.file
  let text ← match d.read? path with
    | some text => .ok text
    | none => .error (.unreadable path)
  let t ← (s.table d).mapError .table
  let l ← programOf path text t
  let t ← (RestoreTable.readAll d l.table v.specs).mapError .table
  .ok { l with table := t }

/-! ## analyze -/

/-- blanks after a text up to a width -/
def padRight (width : Nat) (s : String) : String := s ++ "".pushn ' ' (width - s.length)

/-- blanks before a text up to a width -/
def padLeft (width : Nat) (s : String) : String := "".pushn ' ' (width - s.length) ++ s

/-- a frame on a line, its stack from the bottom up -/
def frameText : Option Frame → String
  | none => "unreachable"
  | some f =>
    let joined (cs : List Category) : String := ", ".intercalate (cs.map Category.text)
    "locals=[" ++ joined f.locals ++ "] stack=[" ++ joined f.stack.reverse ++ "]"

/-- an instruction with its place and the frame before it -/
def frameLine (index : Nat) (i : Insn) (f : Option Frame) : String :=
  "  " ++ padLeft 4 (toString index) ++ "  " ++ padRight 48 i.text ++ " " ++ frameText f

/-- what was found in a method -/
def analysisLines (a : Analysis) (frames : Bool) : List String :=
  let head := a.method.text ++ (if a.rootEntry then " (entry)" else "") ++ ": " ++
    toString a.calls ++ " restore point call(s)"
  let callee (m : MethodId) : String :=
    "  -> " ++ m.text ++ (if a.unpatchable.contains m then " [unpatchable]" else "")
  let table := if frames then
      (a.insns.zip a.frames).zipIdx.map fun e => frameLine e.2 e.1.1 e.1.2
    else []
  head :: a.restorePoints.map callee ++ table

/-- the analyses of all methods that the table declares -/
def analyses (l : Loaded) : List (Except AnalysisError Analysis) :=
  l.program.methods.filterMap fun e =>
    match Analysis.ofTable? l.program l.table e.1.owner e.2 with
    | .ok (some a) => some (.ok a)
    | .ok none => none
    | .error e => some (.error e)

def analyze (l : Loaded) (frames json : Bool) : Outcome :=
  let results := analyses l
  let found := results.filterMap Except.toOption
  let errors := results.filterMap fun r =>
    match r with
    | .error e => some e.message
    | .ok _ => none
  { stdout :=
      if json then (Json.arr (found.map fun a => a.toJson frames)).pretty ++ "\n"
      else Outcome.lines (found.flatMap fun a => analysisLines a frames)
    stderr := Outcome.lines errors
    file := none
    failure := if errors.isEmpty then none else some (.methods errors.length) }

/-! ## instrument -/

/-- what became of a class, where there is something to be said -/
def reportLine? (r : ClassReport) : Option String :=
  match r.error with
  | some e => some (r.name ++ ": skipped (" ++ e ++ ")")
  | none => if r.modified then some (r.name ++ ": rewritten") else none

/-- a program in the format that the name of its file asks for -/
def programText (path : String) (p : Program) (t : RestoreTable) : String :=
  if Path.isJson path then p.toJson.pretty else Assembly.listing p t

def instrumentLoaded (l : Loaded) (failFast : Bool) (output : Option String) (json : Bool) :
    Outcome :=
  match instrument l.program l.table failFast with
  | .error e => .failed (.instrument e)
  | .ok (p, rs) =>
    { stdout :=
        if json then (ClassReport.listToJson rs).pretty ++ "\n"
        else if output.isNone then Assembly.listing p l.table
        else ""
      stderr := if json then "" else Outcome.lines (rs.filterMap reportLine?)
      file := output.map fun path => (path, programText path p l.table)
      failure := none }

/-! ## run -/

/-- a text at its last dot -/
def splitLastDot? (text : String) : Option (String × String) :=
  match (text.splitOn ".").reverse with
  | name :: owner@(_ :: _) => some (".".intercalate owner.reverse, name)
  | _ => none

/-- The method that a text names: with its descriptor, or as the only one of its name that has no
parameters. -/
def entryOf (p : Program) (text : String) : Except EntryError MethodId :=
  match MethodId.parse? text, splitLastDot? text with
  | some id, _ => .ok id
  | none, none => .error (.notMember text)
  | none, some (owner, name) =>
    match p.class? owner with
    | none => .error (.noClass owner)
    | some c =>
      match c.methods.filter fun m => m.name == name && m.desc.startsWith "()" with
      | [] => .error (.noMethod name owner)
      | [m] => .ok (m.id owner)
      | _ => .error (.ambiguous text)

/-- how a run ends: with what is said of a throw, or well -/
abbrev Ended := Except Failure Unit × Machine

/-- what is said of a throw -/
def thrownBy (m : Machine) (t : Throw) : Failure :=
  match t.faultText? m.heap with
  | some s => .thrown s
  | none => .endless

/-- a coroutine resumed until it is done, at most a number of times -/
def drive (w : World) (fuel : Nat) (id : Nat) : Nat → Machine → Ended
  | 0, m => (.ok (), m)
  | n + 1, m =>
    if (m.engine.get? id).all Coroutine.isDone then (.ok (), m)
    else
      match m.resume? w fuel id with
      | some (.ok _, m) => drive w fuel id n m
      | some (.error t, m) => (.error (thrownBy m t), m)
      | none => (.error .endless, m)

/-- a method run as a coroutine -/
def start (p : Program) (fuel : Nat) (entry : MethodId) (maxResumes : Nat) : Ended :=
  let w : World := ⟨p, []⟩
  match Machine.empty.spawn? w fuel entry with
  | some (.ok id, m) => drive w fuel id (maxResumes + 1) m
  | some (.error t, m) => (.error (thrownBy m t), m)
  | none => (.error .endless, .empty)

/-- The outcome of a run.  Lines that are not printed as they come are printed at a good end. -/
def Ended.outcome (e : Ended) (echo : Bool) : Outcome :=
  let printed := Outcome.lines e.2.lines
  match e.1 with
  | .ok () => ⟨printed, "", none, none⟩
  | .error f => ⟨if echo then printed else "", "", none, some f⟩

/-- the program that is run -/
def programToRun (l : Loaded) (asWritten failFast : Bool) : Except Failure Program :=
  if asWritten then .ok l.program
  else
    match instrument l.program l.table failFast with
    | .ok (p, _) => .ok p
    | .error e => .error (.instrument e)

def runEntry (l : Loaded) (s : Settings) (fuel : Nat) (entry : String) (asWritten : Bool)
    (maxResumes : Nat) : Outcome :=
  match programToRun l asWritten s.failFast with
  | .error f => .failed f
  | .ok p =>
    match entryOf p entry with
    | .error e => .failed (.entry e)
    | .ok id => (start p fuel id maxResumes).outcome s.echoConsole

/-! ## invocations -/

/-- what an invocation sets over all other settings -/
def Invocation.overrides (v : Invocation) : Overrides := ⟨v.config, v.log, none⟩

/-- what comes of a command under some settings; `fuel` bounds the steps of a program that runs -/
def Invocation.runWith (v : Invocation) (d : Directory) (s : Settings) (fuel : Nat) : Outcome :=
  match load d s v with
  | .error f => .failed f
  | .ok l =>
    match v.command with
    | .analyze _ frames json => analyze l frames json
    | .instrument _ output json => instrumentLoaded l s.failFast output json
    | .run _ entry asWritten maxResumes => runEntry l s fuel entry asWritten maxResumes

/-- what comes of an invocation in a directory and an environment -/
def Invocation.run (v : Invocation) (d : Directory) (env : Environment) (fuel : Nat) : Outcome :=
  match Settings.load d env v.overrides with
  | .error e => .failed (.settings e)
  | .ok s => v.runWith d s fuel

/-- the files that an invocation reads under some settings -/
def Invocation.inputs (v : Invocation) (s : Settings) : List String :=
  v.command.file :: s.specFiles ++ v.specs

end Resumable.CommandLine
