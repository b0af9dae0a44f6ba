import Resumable.RestorePoint
import Resumable.Hierarchy

/-!
# Listings

A program printed as assembly text, together with the restore points that a table declares for its
methods.  Labels are printed by their numbers; assembling a listing gives the same program up to
these numbers.

* `listing` : the text of a program.
-/

namespace Resumable.Assembly

/-- one line with its end -/
def lineText (indent : Nat) (parts : String) : String := "".pushn ' ' indent ++ parts ++ "\n"

/-- a word that stands only where it applies -/
def wordIf (b : Bool) (w : String) : String := if b then w else ""

/-- a restore point -/
def awaitText (r : RestorePoint) : String :=
  ".await " ++ r.name ++ wordIf (!r.owner.isEmpty) (" owner=" ++ r.owner) ++
    wordIf (!r.desc.isEmpty) (" desc=" ++ r.desc) ++ wordIf (!r.patchable) " unpatchable"

/-- the directives of a declaration -/
def declarationLines (d : Declaration) : List String :=
  (match d.entry with
    | some true => [".entry"]
    | some false => [".entry false"]
    | none => []) ++
  d.restorePoints.map awaitText

def catchText (t : TryCatch) : String :=
  ".catch " ++ t.catchType.getD "any" ++ " from " ++ t.start.text ++ " to " ++ t.stop.text ++
    " using " ++ t.handler.text

def varText (v : LocalVar) : String :=
  ".var " ++ toString v.slot.toNat ++ " " ++ v.name ++ " " ++ v.desc ++ " from " ++ v.start.text ++
    " to " ++ v.stop.text

/-- an instruction; labels stand further out -/
def insnLineText (i : Insn) : String := lineText (if i.isLabel then 6 else 8) i.text

/-- a method with its directives -/
def methodText (t : RestoreTable) (owner : String) (m : Method) : String :=
  let declared := t.declarations.filter fun d => d.appliesTo (m.id owner)
  lineText 4 ("method" ++ wordIf m.isStatic " static" ++ " " ++ m.name ++ " " ++ m.desc ++
    " locals " ++ toString m.maxLocals.toNat ++ " \x7b") ++
  String.join ((declared.flatMap declarationLines).map (lineText 8)) ++
  String.join (m.tryCatches.map fun t => lineText 8 (catchText t)) ++
  String.join (m.localVars.map fun v => lineText 8 (varText v)) ++
  String.join (m.code.map insnLineText) ++
  lineText 4 "\x7d"

def fieldText (f : Field) : String :=
  lineText 4 ("field" ++ wordIf f.isStatic " static" ++ " " ++ f.name ++ " " ++ f.desc)

/-- the head of a class; the root type is not named as a superclass -/
def classHead (c : ClassDef) : String :=
  "class " ++ c.name ++
    (match c.superName with
      | some s => wordIf (s != objectType) (" extends " ++ s)
      | none => "") ++
    wordIf (!c.interfaces.isEmpty) (" implements " ++ " ".intercalate c.interfaces) ++ " \x7b"

/-- a class; an empty line stands before each method but a leading one -/
def classText (t : RestoreTable) (c : ClassDef) : String :=
  let methods := "\n".intercalate (c.methods.map (methodText t c.name))
  let gap := wordIf (!c.fields.isEmpty && !c.methods.isEmpty) "\n"
  lineText 0 (classHead c) ++ String.join (c.fields.map fieldText) ++ gap ++ methods ++
    lineText 0 "\x7d"

/-- the text of a program -/
def listing (p : Program) (t : RestoreTable) : String :=
  "\n".intercalate (p.classes.map fun e => classText t e.2)

end Resumable.Assembly
