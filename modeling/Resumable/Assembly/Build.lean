import Resumable.Assembly.Body
import Resumable.Hierarchy

/-!
# Programs from assembly text

* `assemble` : the program of a source with the restore points that its methods declare, or why it
  is refused.

Classes are built in the order of the text; the first failure is reported.
-/

namespace Resumable.Assembly

/-- a program with the declarations found in its source -/
structure Assembled where
  program : Program
  table : RestoreTable
deriving Repr

namespace Assembled

def empty : Assembled := ⟨.empty, .empty⟩

end Assembled

/-- the number of locals that a clause gives -/
def localsCount (c : LocalsClause) : Except BuildError UInt16 :=
  match Decimal.readUInt16? c.count with
  | some n => .ok n
  | none => .error ⟨c.offset, .badLocals c.count⟩

/-- a method and its declaration; without a clause it has the locals it needs -/
def buildMethod (owner : String) (d : MethodDecl) :
    Except BuildError (Method × Option Declaration) := do
  let id : MethodId := ⟨owner, d.name, d.desc⟩
  let given ← d.locals.mapM localsCount
  let b ← Body.ofLines id d.offset d.body
  let m : Method :=
    { name := d.name, desc := d.desc, isStatic := d.isStatic, maxLocals := 0, code := b.code
      tryCatches := b.tryCatches, localVars := b.localVars }
  .ok ({ m with maxLocals := given.getD m.requiredLocals }, b.declaration)

/-- the members of a class in order, with the declarations of its methods -/
def buildMembers (c : ClassDef) (ds : List Declaration) :
    List Member → Except BuildError (ClassDef × List Declaration)
  | [] => .ok (c, ds)
  | .field f :: ms =>
    buildMembers { c with fields := c.fields ++ [⟨f.name, f.desc, f.isStatic⟩] } ds ms
  | .method d :: ms => do
    let (m, declared) ← buildMethod c.name d
    if (c.method? m.name m.desc).isSome then
      .error ⟨d.offset, .methodTwice (m.id c.name)⟩
    else
      buildMembers { c with methods := c.methods ++ [m] } (ds ++ declared.toList) ms

/-- The class of a declaration.  Without a clause its superclass is the root type, and the root type
itself has none. -/
def buildClass (d : ClassDecl) : Except BuildError (ClassDef × List Declaration) :=
  let implied := if d.name = objectType then none else some objectType
  let superName := match d.superName with
    | some s => some s
    | none => implied
  buildMembers ⟨d.name, superName, d.interfaces, [], []⟩ [] d.members

/-- classes in order, added to those built before -/
def buildClasses (a : Assembled) : List ClassDecl → Except BuildError Assembled
  | [] => .ok a
  | d :: ds => do
    let (c, declared) ← buildClass d
    if (a.program.class? c.name).isSome then .error ⟨d.offset, .classTwice c.name⟩
    else
      buildClasses
        { program := a.program.insert c
          table := { a.table with declarations := a.table.declarations ++ declared } } ds

/-- the program of a source, or why it is refused -/
def assemble (text : String) : Except SourceError Assembled :=
  match Source.parse text with
  | .error offset => .error (.grammar (.ofOffset text.toList offset))
  | .ok classes =>
    match buildClasses .empty classes with
    | .ok a => .ok a
    | .error e => .error (.build (.ofOffset text.toList e.offset) e.failure)

end Resumable.Assembly
