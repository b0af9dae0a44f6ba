import Resumable.Assembly.Failure
import Resumable.Instrument
import Resumable.Settings.Basic
import Resumable.Text.Quoted

/-!
# What comes of an invocation

* `Failure`, `Failure.message` : why an invocation fails, and what is said of it;
* `Outcome` : what is printed, and the file that is to be written;
* `Outcome.written` : the outcome once the file was written, or could not be.
-/

namespace Resumable.CommandLine

/-- why a method to be run cannot be told -/
inductive EntryError where
  | notMember (text : String)
  | noClass (name : String)
  | noMethod (name owner : String)
  | ambiguous (text : String)
deriving DecidableEq, Repr

def EntryError.message : EntryError → String
  | .notMember t => "Entry must be Owner.name, got " ++ Text.Quoted.encode t
  | .noClass n => "No class " ++ n
  | .noMethod n o => "No argument-less method " ++ n ++ " in " ++ o
  | .ambiguous t => "Entry " ++ t ++ " is ambiguous; give a descriptor"

/-- why an invocation fails -/
inductive Failure where
  | settings (e : SettingsError)
  /-- the file with the program cannot be read -/
  | unreadable (path : String)
  | table (e : TableError)
  /-- a file named as JSON holds no program -/
  | invalidModel (path : String)
  | source (path : String) (e : Assembly.SourceError)
  /-- some methods could not be analyzed -/
  | methods (count : Nat)
  | instrument (e : InstrumentError)
  | entry (e : EntryError)
  | unwritable (path : String)
  /-- the program threw; this is what is said of it -/
  | thrown (message : String)
  /-- the program did not end -/
  | endless
deriving DecidableEq, Repr

/-- a source refused, with the place in front -/
def sourceMessage : Assembly.SourceError → String
  | .grammar p => Assembly.placed p "syntax error"
  | .build p f => Assembly.placed p f.message

def Failure.message : Failure → String
  | .settings e => e.message
  | .unreadable path => "Failed to read " ++ path
  | .table e => e.message
  | .invalidModel path => "Invalid program model in " ++ path
  | .source path e => path ++ ":" ++ sourceMessage e
  | .methods n => toString n ++ " method(s) failed analysis"
  | .instrument e => e.message
  | .entry e => e.message
  | .unwritable path => "Failed to write " ++ path
  | .thrown m => m
  | .endless => "the program does not end"

/-- what an invocation prints and writes, and why it failed if it did -/
structure Outcome where
  stdout : String
  stderr : String
  /-- a path and a text that is to be written there -/
  file : Option (String × String)
  failure : Option Failure
deriving DecidableEq, Repr

namespace Outcome

/-- nothing but a failure -/
def failed (f : Failure) : Outcome := ⟨"", "", none, some f⟩

/-- texts as lines -/
def lines (ls : List String) : String := String.join (ls.map (· ++ "\n"))

/-- the outcome once its file was written, or could not be -/
def written (o : Outcome) (success : Bool) : Outcome :=
  match o.file with
  | none => o
  | some (path, _) =>
    if success then { o with stderr := o.stderr ++ lines ["Wrote " ++ path] }
    else { o with failure := some (.unwritable path) }

end Outcome

end Resumable.CommandLine
