import Resumable.Weave.Method

/-!
# Instrumenting a program

Every declared method is analyzed, and those with calls of restore points are woven.  A class is
woven as a whole or not at all: when one of its methods fails, it stays as it was and its report
names the failure, unless the first failure is asked to end everything.

* `instrumentClass`, `instrumentWith` : a class, a program, with their reports;
* `instrument` : a program by a table.
-/

namespace Resumable

/-- why a method could not be instrumented -/
inductive InstrumentError where
  | analysis (e : AnalysisError)
  | weave (e : WeaveError)
deriving DecidableEq, Repr

namespace InstrumentError

def message : InstrumentError → String
  | .analysis e => e.message
  | .weave e => e.message

/-- A region that ends before it starts is no property of one class to be reported: it ends the
whole run. -/
def isFatal : InstrumentError → Bool
  | .weave ⟨_, .reversedRegion _ _⟩ => true
  | _ => false

end InstrumentError

/-- what was found in a method -/
structure MethodReport where
  method : String
  calls : Nat
  restorePoints : List String
  unpatchable : List String
  rootEntry : Bool
deriving DecidableEq, Repr

def MethodReport.ofAnalysis (a : Analysis) : MethodReport :=
  { method := a.method.text
    calls := a.calls
    restorePoints := a.restorePoints.map MethodId.text
    unpatchable := a.unpatchable.map MethodId.text
    rootEntry := a.rootEntry }

/-- what became of a class -/
structure ClassReport where
  name : String
  modified : Bool
  methods : List MethodReport
  /-- the failure that kept it as it was -/
  error : Option String
deriving DecidableEq, Repr

/-- a method after its analysis -/
def instrumentMethod (m : Method) (a : Option Analysis) : Except InstrumentError Method :=
  match a with
  | none => .ok m
  | some a =>
    if a.needsWeaving then
      match weaveMethod a m with
      | .ok m => .ok m
      | .error e => .error (.weave e)
    else .ok m

/-- the analyses of all methods of a class -/
def analyzeClass (p : Program) (s : SpecProvider) (owner : String) :
    List Method → Except InstrumentError (List (Method × Option Analysis))
  | [] => .ok []
  | m :: ms =>
    match Analysis.ofProvider? p s owner m with
    | .error e => .error (.analysis e)
    | .ok a => do
      let rest ← analyzeClass p s owner ms
      .ok ((m, a) :: rest)

/-- all methods after their analyses -/
def instrumentMethods : List (Method × Option Analysis) → Except InstrumentError (List Method)
  | [] => .ok []
  | (m, a) :: rest => do
    let m ← instrumentMethod m a
    let ms ← instrumentMethods rest
    .ok (m :: ms)

/-- a class with its methods woven, and its report -/
def instrumentClass (p : Program) (s : SpecProvider) (c : ClassDef) :
    Except InstrumentError (ClassDef × ClassReport) := do
  let analyzed ← analyzeClass p s c.name c.methods
  let methods ← instrumentMethods analyzed
  let analyses := analyzed.filterMap Prod.snd
  .ok ({ c with methods },
    { name := c.name
      modified := analyses.any Analysis.needsWeaving
      methods := analyses.map MethodReport.ofAnalysis
      error := none })

/-- a class and its report, where a failure is only reported unless it has to end the run -/
def instrumentOrKeep (p : Program) (s : SpecProvider) (failFast : Bool) (c : ClassDef) :
    Except InstrumentError (ClassDef × ClassReport) :=
  match instrumentClass p s c with
  | .ok r => .ok r
  | .error e =>
    if failFast || e.isFatal then .error e
    else .ok (c, ⟨c.name, false, [], some e.message⟩)

/-- classes in order, added to what was instrumented before -/
def instrumentClasses (p : Program) (s : SpecProvider) (failFast : Bool) :
    List ClassDef → Program × List ClassReport → Except InstrumentError (Program × List ClassReport)
  | [], done => .ok done
  | c :: cs, done => do
    let (c, report) ← instrumentOrKeep p s failFast c
    instrumentClasses p s failFast cs (done.1.insert c, done.2 ++ [report])

/-- a program with every class woven that can be, and the reports in order -/
def instrumentWith (p : Program) (s : SpecProvider) (failFast : Bool) :
    Except InstrumentError (Program × List ClassReport) :=
  instrumentClasses p s failFast (p.classes.map Prod.snd) (.empty, [])

/-- what a table declares is woven -/
def instrument (p : Program) (t : RestoreTable) (failFast : Bool) :
    Except InstrumentError (Program × List ClassReport) := instrumentWith p t.provider failFast

end Resumable
