import Resumable.Weave.Access
import Resumable.Weave.Region
import Resumable.Weave.Site

/-!
# Injected code

The code that is put around the instructions of a method:

* `prologue` : at the start, back to the call that the activation was suspended in;
* `restoreCode` : the frame of a call out of storage, up to the operands of the call;
* `stageCode` : the operands of a call copied aside and put back, for a callee that is not
  woven and so cannot be re-entered by calling it with other arguments;
* `saveCode` : the frame of a call into storage, when the callee has been suspended;
* `beforeCall`, `afterCall` : all of it around one call.

Storage is a stack for each kind: restoring takes values in exactly the opposite order in which
saving puts them there.  Exact nulls are never stored; they are pushed again as constants.
-/

namespace Resumable

/-- a piece of woven code: an instruction of the method, or code put in -/
inductive Piece where
  | own (i : Insn)
  | injected (is : List Insn)

namespace Piece

def code : Piece → List Insn
  | .own i => [i]
  | .injected is => is

/-- the method's own instruction of a piece -/
def kept : Piece → List Insn
  | .own i => [i]
  | .injected _ => []

/-- the code of pieces in order -/
def codeOf (ps : List Piece) : List Insn := ps.flatMap Piece.code

/-- the method's own instructions of pieces in order -/
def keptOf (ps : List Piece) : List Insn := ps.flatMap Piece.kept

theorem codeOf_nil : codeOf [] = [] := rfl
theorem codeOf_cons (p : Piece) (ps : List Piece) : codeOf (p :: ps) = p.code ++ codeOf ps := rfl
theorem codeOf_append (ps qs : List Piece) : codeOf (ps ++ qs) = codeOf ps ++ codeOf qs := by
  simp [codeOf, List.flatMap_append]

theorem keptOf_nil : keptOf [] = [] := rfl
theorem keptOf_cons (p : Piece) (ps : List Piece) : keptOf (p :: ps) = p.kept ++ keptOf ps := rfl
theorem keptOf_append (ps qs : List Piece) : keptOf (ps ++ qs) = keptOf ps ++ keptOf qs := by
  simp [keptOf, List.flatMap_append]

end Piece

/-! ## returning early -/

/-- return the zero of the result -/
def defaultReturn : Option Kind → List Insn
  | none => [.ret none]
  | some k => [k.zeroInsn, .ret (some k)]

/-! ## prologue -/

/-- from a saved number to the place where its site is re-entered -/
def dispatchCode (sites : List Site) (l : PrologueLabels) : List Insn :=
  match sites, l.invalid with
  | [only], _ => [.pop, .jump only.resume]
  | _, some invalid => [.tableSwitch 0 invalid (sites.map Site.resume)]
  | _, none => [.jump l.noState]

/-- a number without a reachable site is reported -/
def invalidCode (method : String) (ret : Option Kind) (sites : List Site) (invalid : Label) :
    List Insn :=
  .label invalid ::
    (sites.filter fun s => s.frame.isNone).map (fun s => Insn.label s.resume) ++
    [.stringConst method, Intrinsic.invalidDispatch.call] ++ defaultReturn ret

/-- the start of a woven method -/
def prologue (method : String) (ret : Option Kind) (sites : List Site) (l : PrologueLabels) :
    List Insn :=
  [Intrinsic.exists.call, .branch .eq l.body, Intrinsic.popState.call, .dup,
    .branch .lt l.noState] ++
  dispatchCode sites l ++
  (match l.invalid with
    | some invalid => invalidCode method ret sites invalid
    | none => []) ++
  [.label l.noState, .pop, .label l.body]

/-! ## restoring -/

/-- push a stored value, or null for an exact null -/
def restoreValue : Category → List Insn
  | .null => [.nullConst]
  | c =>
    match c.kind? with
    | some k => k.popCode c
    | none => []

/-- a local out of storage -/
def restoreLocal (slot : UInt16) (c : Category) : List Insn :=
  match c.kind? with
  | some k => k.popCode c ++ [.store k slot]
  | none => []

/-- an argument of the call that is made again: the stored one if the callee is not woven,
else a zero, since the callee restores its own -/
def restoreArg (unpatchable : Bool) (c : Category) : List Insn :=
  if unpatchable then restoreValue c
  else
    match c.kind? with
    | some k => [k.zeroInsn]
    | none => []

/-- locals from the last to the first, then operands from the bottom up -/
def restoreCode (unpatchable : Bool) (f : Frame) (s : CallShape) : List Insn :=
  (slotted f.locals).reverse.flatMap (fun e => restoreLocal e.1 e.2) ++
  s.below.reverse.flatMap restoreValue ++
  s.receiver.toList.flatMap restoreValue ++
  s.args.flatMap (restoreArg unpatchable)

/-! ## staging -/

/-- a value is stored among those of its kind; exact nulls are not -/
def isStored (k : Kind) (c : Category) : Bool := c.kind? = some k && c != .null

/-- move an operand aside -/
def stageValue (c : Category) : List Insn :=
  match c.kind? with
  | some k => if c = .null then [.pop] else k.stageCode
  | none => []

/-- push back a staged operand that has the given operands before it -/
def unstageValue (before : List Category) (c : Category) : List Insn :=
  match c.kind? with
  | some k =>
    if c = .null then [.nullConst] else k.peekCode (before.countP (isStored k)) c
  | none => []

/-- push back the operands of a window, after those already pushed -/
def unstageFrom (before : List Category) : List Category → List Insn
  | [] => []
  | c :: cs => unstageValue before c ++ unstageFrom (before ++ [c]) cs

/-- copy the operands of a call into a new staging frame, when a coroutine runs -/
def stageCode (window : List Category) (staged : Label) : List Insn :=
  [Intrinsic.exists.call, .branch .eq staged, Intrinsic.beginStaging.call] ++
  window.reverse.flatMap stageValue ++ unstageFrom [] window ++ [.label staged]

/-- drop the staging frame, when a coroutine runs -/
def endStagingCode (skip : Label) : List Insn :=
  [Intrinsic.exists.call, .branch .eq skip, Intrinsic.endStaging.call, .label skip]

/-! ## saving -/

/-- an operand into storage -/
def saveValue (c : Category) : List Insn :=
  match c.kind? with
  | some k => if c = .null then [.pop] else k.pushCode
  | none => []

/-- a local into storage -/
def saveLocal (slot : UInt16) (c : Category) : List Insn :=
  match c.kind? with
  | some k => .load k slot :: k.pushCode
  | none => []

/-- The reference left for whoever calls the method again: its receiver; a static method that
starts a coroutine leaves null, another static method nothing. -/
def companionCode (isStatic rootEntry : Bool) : List Insn :=
  if isStatic then
    if rootEntry then [.nullConst, Intrinsic.pushCompanion.call] else []
  else [.load .ref 0, Intrinsic.pushCompanion.call]

/-- what the call returned, the staged operands, operands from the top down, locals, the number of
the site, the companion -/
def saveCode (a : Analysis) (ret : Option Kind) (site : Site) (f : Frame) (s : CallShape) :
    List Insn :=
  (s.result.map Kind.discardInsn).toList ++
  (if site.unpatchable then [Intrinsic.discardCompanion.call, Intrinsic.commitStaging.call]
    else []) ++
  s.below.flatMap saveValue ++
  (slotted f.locals).flatMap (fun e => saveLocal e.1 e.2) ++
  [.intConst (Int32.ofNat site.index), Intrinsic.pushState.call] ++
  companionCode a.isStatic a.rootEntry ++
  defaultReturn ret

/-! ## one call -/

/-- up to the call: the way in from the prologue, and the operands staged -/
def beforeCall (site : Site) (f : Frame) (s : CallShape) (l : SiteLabels) : List Insn :=
  [.label l.pre, .jump l.call, .label site.resume] ++ restoreCode site.unpatchable f s ++
  [.label l.call] ++ (if site.unpatchable then stageCode s.window l.staged else []) ++
  [.label l.invoke]

/-- an exception out of a callee that is not woven drops the staging frame -/
def rethrowCode (site : Site) (l : SiteLabels) : List Insn :=
  if site.unpatchable then
    [.jump l.after, .label l.handler] ++ endStagingCode l.rethrow ++ [.throw]
  else []

/-- after the call: save and return when the coroutine is being suspended, else go on -/
def afterCall (a : Analysis) (ret : Option Kind) (site : Site) (f : Frame) (s : CallShape)
    (l : SiteLabels) : List Insn :=
  [.label l.invokeEnd] ++ rethrowCode site l ++
  [.label l.after, Intrinsic.isYielding.call, .branch .eq l.noYield] ++
  saveCode a ret site f s ++ [.label l.noYield] ++
  (if site.unpatchable then endStagingCode l.post else [.label l.post])

/-- the handler of exactly the call, for a callee that is not woven -/
def siteHandlers (site : Site) (l : SiteLabels) : List TryCatch :=
  if site.unpatchable then [⟨l.invoke, l.invokeEnd, l.handler, none⟩] else []

/-- the two ranges of injected code around the call -/
def siteExclusions (l : SiteLabels) : List Exclusion := [⟨l.pre, l.invoke⟩, ⟨l.after, l.post⟩]

end Resumable
