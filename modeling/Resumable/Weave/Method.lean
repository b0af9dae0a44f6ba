import Resumable.Weave.Blocks

/-!
# Weaving a method

Weaving puts code between the instructions of a method, which keeps them with its labels and its
locals.  At each reachable call of a restore point a woven method can unwind and be re-entered;
calls that nothing reaches are left as they are.

* `weaveCode` : the woven code as the method's own instructions and code put in;
* `weaveMethod` : the woven method, or why there is none.
-/

namespace Resumable

/-- woven code with its new handlers and the ranges that the method's own handlers must leave out -/
structure Woven where
  pieces : List Piece
  handlers : List TryCatch
  exclusions : List Exclusion

namespace Woven

def empty : Woven := ⟨[], [], []⟩

/-- one after another -/
def append (a b : Woven) : Woven :=
  ⟨a.pieces ++ b.pieces, a.handlers ++ b.handlers, a.exclusions ++ b.exclusions⟩

def code (r : Woven) : List Insn := Piece.codeOf r.pieces

theorem code_append (a b : Woven) : (a.append b).code = a.code ++ b.code :=
  Piece.codeOf_append _ _

end Woven

/-- an instruction as it was -/
def keepInsn (i : Insn) : Woven := ⟨[.own i], [], []⟩

/-- the call of a site with everything around it -/
def weaveSite (a : Analysis) (ret : Option Kind) (site : Site) (f : Frame) (base : UInt32)
    (i : Insn) : Except WeaveFailure Woven :=
  match MethodDesc.parse? site.callee.desc with
  | none => .error (.badDescriptor site.callee.desc)
  | some desc =>
    match CallShape.of? site.kind desc f with
    | none => .error .staleAnalysis
    | some s =>
      let l := SiteLabels.ofBase base
      .ok
        { pieces := [.injected (beforeCall site f s l), .own i,
            .injected (afterCall a ret site f s l)]
          handlers := siteHandlers site l
          exclusions := siteExclusions l }

/-- labels around one site -/
def labelsPerSite : Nat := 10

/-- the code from a position on, where `base` is the next free label -/
def weaveFrom (a : Analysis) (ret : Option Kind) (sites : List Site) :
    Nat → UInt32 → List Insn → Except WeaveFailure Woven
  | _, _, [] => .ok .empty
  | position, base, i :: is =>
    match sites.find? fun s => s.position == position with
    | some site =>
      match site.frame with
      | some f => do
        let head ← weaveSite a ret site f base i
        let rest ← weaveFrom a ret sites (position + 1)
          (base + UInt32.ofNat labelsPerSite) is
        .ok (head.append rest)
      | none => do
        let rest ← weaveFrom a ret sites (position + 1) base is
        .ok ((keepInsn i).append rest)
    | none => do
      let rest ← weaveFrom a ret sites (position + 1) base is
      .ok ((keepInsn i).append rest)

/-- the whole code of an analyzed method whose labels end before `base` -/
def weaveCode (a : Analysis) (ret : Option Kind) (base : UInt32) :
    Except WeaveFailure Woven := do
  let sites := sitesOf a base
  let l := PrologueLabels.ofSites base sites
  let rest ← weaveFrom a ret sites 0 (base + UInt32.ofNat (labelsBeforeSites sites)) a.insns
  let start : Woven := ⟨[.injected (prologue a.method.text ret sites l)], [], []⟩
  .ok (start.append rest)

/-- the analysis was made of this very method -/
def describes (a : Analysis) (m : Method) : Bool :=
  a.insns == m.code && a.frames.length == m.code.length && a.method.name == m.name &&
    a.method.desc == m.desc && a.isStatic == m.isStatic

/-- an analysis with the instructions of a method: those that it was made of may differ from them in constants
that compare as equal -/
def Analysis.on (a : Analysis) (m : Method) : Analysis := { a with insns := m.code }

theorem Analysis.on_eq {a : Analysis} {m : Method} (h : a.insns = m.code) : a.on m = a := by
  unfold Analysis.on
  rw [← h]

/-- the woven method -/
def weaveBody (a : Analysis) (m : Method) : Except WeaveFailure Method :=
  if !a.needsWeaving then .error .nothingToInstrument
  else if !describes a m then .error .staleAnalysis
  else
    match MethodDesc.parse? m.desc with
    | none => .error (.badDescriptor m.desc)
    | some desc => do
      let r ← weaveCode (a.on m) (desc.ret.map FieldType.kind) m.nextLabel
      let table ← splitRegions r.code m.tryCatches r.exclusions
      .ok { m with code := r.code, tryCatches := r.handlers ++ table }

/-! ## failures -/

def WeaveFailure.message : WeaveFailure → String
  | .regionInsideInjectedCode a b =>
    "exception region [" ++ a.text ++ ", " ++ b.text ++ ") lies entirely inside injected code"
  | .nothingToInstrument => "method has no restore point calls"
  | .staleAnalysis => "analysis result does not describe this method body"
  | .unknownLabel l => "exception region refers to undefined label " ++ l.text
  | .badDescriptor d => malformedDescriptor d
  | .reversedRegion a b =>
    "exception region [" ++ a.text ++ ", " ++ b.text ++ ") ends before it starts"

/-- weaving that failed -/
structure WeaveError where
  method : MethodId
  failure : WeaveFailure
deriving DecidableEq, Repr

def WeaveError.message (e : WeaveError) : String :=
  "cannot transform " ++ e.method.text ++ ": " ++ e.failure.message

/-- the woven method, or why there is none -/
def weaveMethod (a : Analysis) (m : Method) : Except WeaveError Method :=
  match weaveBody a m with
  | .ok m => .ok m
  | .error failure => .error ⟨a.method, failure⟩

end Resumable
