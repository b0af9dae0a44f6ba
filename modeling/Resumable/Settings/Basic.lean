import Resumable.Directory
import Resumable.Model.Table
import Resumable.Settings.Format
import Resumable.Settings.Layer

/-!
# Settings

Settings are gathered from layers, the lowest first: what is built in, a file, the environment, and
what the caller sets.  The file is the one that the caller names, else the one that the environment
names, else a file of a fixed name if there is one.  A file named `.env` is loaded into the
environment before.

* `Settings.load` : the settings in a directory;
* `Settings.table` : the table of restore points that settings name.
-/

namespace Resumable

structure Settings where
  logFilter : String
  /-- the first class that cannot be instrumented ends the work -/
  failFast : Bool
  /-- names of methods that start a coroutine -/
  entryNames : List String
  /-- files with tables of restore points -/
  specFiles : List String
  /-- lines are printed while a program runs -/
  echoConsole : Bool
deriving DecidableEq, Repr

/-- what the caller sets -/
structure Overrides where
  path : Option String
  logFilter : Option String
  failFast : Option Bool

/-- what the caller sets as a layer -/
def Overrides.layer (o : Overrides) : List (String × Setting) :=
  (o.logFilter.map fun s => ("log.filter", Setting.text s)).toList ++
    (o.failFast.map fun b => ("instrument.fail_fast", Setting.bool b)).toList

/-- why there are no settings -/
inductive SettingsError where
  /-- the layers cannot be read; the path is that of a file that was asked for -/
  | unreadable (path : Option String)
  /-- a name of methods is blank -/
  | blankEntryName
deriving DecidableEq, Repr

def SettingsError.message : SettingsError → String
  | .unreadable none => "Failed to load configuration"
  | .unreadable (some path) => "Failed to load configuration from " ++ path
  | .blankEntryName => "instrument.entry_names must not contain empty names"

namespace Settings

/-! ## files -/

/-- the file of settings where none is asked for -/
def defaultFile : String := "corofy.toml"

/-- the file of variables that is loaded into the environment -/
def variablesFile : String := ".env"

/-- the variable that names the file of settings -/
def pathVariable : String := "COROFY_CONFIG_PATH"

/-- variables that settings are read from, where not all can be listed -/
def variableNames : List String :=
  [pathVariable, "COROFY__LOG__FILTER", "COROFY__INSTRUMENT__FAIL_FAST",
    "COROFY__INSTRUMENT__ENTRY_NAMES", "COROFY__INSTRUMENT__SPEC_FILES",
    "COROFY__RUNTIME__ECHO_CONSOLE"]

/-- the formats of files by their extensions -/
def formats : List (String × SettingFormat) :=
  [("toml", .toml), ("json", .json), ("yaml", .yaml), ("yml", .yaml), ("ini", .ini), ("ron", .ron),
    ("json5", .json5)]

/-- files that a name may stand for, with their formats: the file of the name itself, or one with an
extension behind it -/
def candidates (path : String) : List (String × Option SettingFormat) :=
  let extended := match Path.stem? path with
    | some stem => formats.map fun f => (stem ++ "." ++ f.1, some f.2)
    | none => []
  (path, (Path.extension? path).bind fun e => formats.lookup e) :: extended

/-- the file that a name stands for -/
def find? (d : Directory) (path : String) : Option (String × Option SettingFormat) :=
  (candidates path).find? fun c => d.has c.1

/-- the layer of the file that was asked for -/
def namedLayer? (d : Directory) (path : String) : Option (List (String × Setting)) := do
  match ← find? d path with
  | (file, some f) => f.entries? (← d.read? file)
  | (_, none) => none

/-- the layer of the file that is read where none is asked for; it may be missing -/
def defaultLayer? (d : Directory) : Option (List (String × Setting)) :=
  match find? d defaultFile with
  | some (file, some f) => (d.read? file).bind f.entries?
  | _ => some []

/-! ## layers -/

/-- what is built in -/
def builtin : Setting :=
  .table [("log", .table [("filter", .text "info")]),
    ("instrument", .table [("fail_fast", .bool false),
      ("entry_names", .list (RestoreTable.builtinEntryNames.map .text)), ("spec_files", .list [])]),
    ("runtime", .table [("echo_console", .bool true)])]

/-- settings read out of all layers -/
def ofSetting? (s : Setting) : Option Settings := do
  let some [some log, some weaving, some running] := s.fields? ["log", "instrument", "runtime"]
    | none
  let some [some filter] := log.fields? ["filter"] | none
  let some [some failFast, some names, some files] :=
    weaving.fields? ["fail_fast", "entry_names", "spec_files"] | none
  let some [some echo] := running.fields? ["echo_console"] | none
  some ⟨← filter.text?, ← failFast.bool?, ← names.texts?, ← files.texts?, ← echo.bool?⟩

/-- the environment with the file of variables -/
def environment (d : Directory) (env : Environment) : Environment :=
  match d.read? variablesFile with
  | some text => EnvFile.load env text
  | none => env

/-- the file of settings that is asked for -/
def path? (env : Environment) (o : Overrides) : Option String :=
  o.path <|> env.lookup pathVariable

/-- files that may be read for settings -/
def inputs (env : Environment) (o : Overrides) : List String :=
  (candidates ((path? env o).getD defaultFile)).map Prod.fst

/-- All layers, one over another.  The file and the environment are one layer between what is built
in and what the caller sets. -/
def gather? (d : Directory) (env : Environment) (o : Overrides) : Option Setting := do
  let file ← match path? env o with
    | some path => namedLayer? d path
    | none => defaultLayer? d
  let given := (Setting.empty.putLayer file).putLayer (environmentLayer env)
  some ((builtin.putLayer given.entries).putLayer o.layer)

/-- the settings in a directory -/
def load (d : Directory) (env : Environment) (o : Overrides) : Except SettingsError Settings :=
  let env := environment d env
  match (gather? d env o).bind ofSetting? with
  | none => .error (.unreadable (path? env o))
  | some s => if s.entryNames.any Text.isAllWhite then .error .blankEntryName else .ok s

end Settings

/-! ## tables of restore points -/

/-- why a file gives no table -/
inductive TableError where
  | missing (path : String)
  | invalid (path : String)
deriving DecidableEq, Repr

def TableError.message : TableError → String
  | .missing path => "failed to read " ++ path
  | .invalid path => "in " ++ path

/-- the format of a file by its name -/
def TableFormat.ofPath (path : String) : TableFormat :=
  if Path.isJson path then .json else .toml

/-- the table of a file -/
def RestoreTable.read (d : Directory) (path : String) : Except TableError RestoreTable :=
  match d.read? path with
  | none => .error (.missing path)
  | some text =>
    match parse? (.ofPath path) text with
    | some t => .ok t
    | none => .error (.invalid path)

/-- a table extended by the tables of some files -/
def RestoreTable.readAll (d : Directory) (t : RestoreTable) (paths : List String) :
    Except TableError RestoreTable :=
  paths.foldlM (fun t path => (RestoreTable.read d path).map t.extend) t

/-- the table with the entry names of the settings and the files that they name -/
def Settings.table (s : Settings) (d : Directory) : Except TableError RestoreTable :=
  RestoreTable.readAll d { RestoreTable.empty with entryNames := some s.entryNames } s.specFiles

end Resumable
