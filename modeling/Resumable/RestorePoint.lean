import Resumable.Code.Program

/-!
# Restore points

A restore point is a call that may suspend the running coroutine.  A pattern names the callee and
may pin down its owner and its descriptor; a declaration attaches patterns to the methods it
applies to; a table is a list of declarations together with the names of methods that start a
coroutine.

* `RestorePoint.select?` : the pattern that decides how a callee is treated;
* `SpecProvider` : who says which methods have restore points;
* `RestoreTable.restorePoints?`, `RestoreTable.isEntry` : what a table says about a method;
* `RestoreTable.extend` : two tables in one.
-/

namespace Resumable

/-! ## patterns -/

/-- a pattern of callees; an empty descriptor or owner matches any -/
structure RestorePoint where
  name : String
  desc : String
  owner : String
  /-- the body of the callee is woven too -/
  patchable : Bool
deriving DecidableEq, Repr, Inhabited

namespace RestorePoint

/-- every callee of a name -/
def ofName (name : String) : RestorePoint := ⟨name, "", "", true⟩

def «matches» (r : RestorePoint) (callee : MethodId) : Bool :=
  r.name == callee.name &&
    (r.desc.isEmpty || r.desc == callee.desc) && (r.owner.isEmpty || r.owner == callee.owner)

/-- how many of owner and descriptor the pattern pins down -/
def specificity (r : RestorePoint) : Nat :=
  (if r.owner.isEmpty then 0 else 1) + (if r.desc.isEmpty then 0 else 1)

/-- the better of two patterns with their places: the more specific one, the first of two equals -/
def better (best : Option (Nat × RestorePoint)) (next : Nat × RestorePoint) :
    Option (Nat × RestorePoint) :=
  match best with
  | some b => if next.2.specificity ≤ b.2.specificity then some b else some next
  | none => some next

/-- patterns with their places -/
def numbered (specs : List RestorePoint) : List (Nat × RestorePoint) :=
  specs.zipIdx.map fun e => (e.2, e.1)

/-- the place and the pattern that decide: the most specific match, the first of equals -/
def selectAt? (specs : List RestorePoint) (callee : MethodId) : Option (Nat × RestorePoint) :=
  ((numbered specs).filter fun e => e.2.matches callee).foldl better none

/-- the pattern that decides how a callee is treated -/
def select? (specs : List RestorePoint) (callee : MethodId) : Option RestorePoint :=
  (selectAt? specs callee).map Prod.snd

end RestorePoint

/-- what says which methods have restore points, and which of them start a coroutine -/
structure SpecProvider where
  /-- the patterns of a method, if it is declared -/
  restorePoints? : MethodId → Option (List RestorePoint)
  isEntry : MethodId → Bool

/-! ## tables -/

/-- patterns for the methods of an owner and a name; an empty descriptor means every overload -/
structure Declaration where
  owner : String
  name : String
  desc : String
  /-- whether the method starts a coroutine, against the rule of the table -/
  entry : Option Bool
  restorePoints : List RestorePoint
deriving DecidableEq, Repr, Inhabited

def Declaration.appliesTo (d : Declaration) (m : MethodId) : Bool :=
  d.owner == m.owner && d.name == m.name && (d.desc.isEmpty || d.desc == m.desc)

structure RestoreTable where
  /-- names of methods that start a coroutine; none listed means the built-in ones -/
  entryNames : Option (List String)
  declarations : List Declaration
deriving DecidableEq, Repr, Inhabited

namespace RestoreTable

def empty : RestoreTable := ⟨none, []⟩

/-- the method that starts a coroutine unless a table lists others -/
def builtinEntryNames : List String := ["run"]

/-- entry names in effect -/
def effectiveEntryNames (t : RestoreTable) : List String := t.entryNames.getD builtinEntryNames

/-- the patterns of all declarations for the method, if there is any declaration -/
def restorePoints? (t : RestoreTable) (m : MethodId) : Option (List RestorePoint) :=
  match t.declarations.filter fun d => d.appliesTo m with
  | [] => none
  | ds => some (ds.flatMap Declaration.restorePoints)

/-- the method starts a coroutine: the first declaration that says so decides, else its name -/
def isEntry (t : RestoreTable) (m : MethodId) : Bool :=
  (((t.declarations.filter fun d => d.appliesTo m).findSome? Declaration.entry).getD
    (t.effectiveEntryNames.contains m.name))

/-- a table says it by its declarations -/
def provider (t : RestoreTable) : SpecProvider where
  restorePoints? := t.restorePoints?
  isEntry := t.isEntry

/-- names put behind others, each once -/
def addNames (own names : List String) : List String :=
  names.foldl (fun own n => if own.contains n then own else own ++ [n]) own

/-- Declarations of the second table follow those of the first.  Entry names are joined only when
the second table lists some. -/
def extend (t u : RestoreTable) : RestoreTable :=
  { entryNames :=
      match u.entryNames with
      | none => t.entryNames
      | some names => some (addNames t.effectiveEntryNames names)
    declarations := t.declarations ++ u.declarations }

theorem declarations_extend (t u : RestoreTable) :
    (t.extend u).declarations = t.declarations ++ u.declarations := rfl

end RestoreTable

end Resumable
