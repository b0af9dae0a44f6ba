import Resumable.Proofs.Agreement
import Resumable.Proofs.Following
import Resumable.Proofs.Instrumented

/-!
# An activation and its twin

While a program and the rewritten one run side by side, each activation of the first has a twin in the
second: of the same method, or of the woven one.  The twin of a woven method stands where the block of
the instruction starts or, while the instruction is under way, at the instruction within its block.

* `Exec.Framed`, `Insn.framed_exec` : instructions see of an activation its locals and operands;
* `Akin`, `Insn.exec_akin` : locals that are the same, or the same as far as a frame goes;
* `WovenMethod` : a method, its analysis and its layout;
* `Level`, `Owns`, `Waits` : an activation and its twin, before an instruction and within it;
* `Level.reaches_own` : from the start of the block to the instruction.
-/

namespace Resumable

/-! ## locals and operands -/

namespace Exec

open Effect

variable {α β : Type}

/-- what a computation gives that works on locals, too -/
abbrev Worked (α : Type) := Except Throw α × Heap × Bindings × List Value × List Value

/-- the computation sees of an activation its locals and its operands, and changes nothing else -/
def Framed (x : Exec α) : Prop :=
  ∃ f : Heap → Bindings → List Value → List Value → Worked α, ∀ (h : Heap) (g : Bindings)
    (a : Activation), x.run ⟨h, g, a⟩ = ((f h g a.locals a.stack).1,
      ⟨(f h g a.locals a.stack).2.1, (f h g a.locals a.stack).2.2.1,
        { a with locals := (f h g a.locals a.stack).2.2.2.1
                 stack := (f h g a.locals a.stack).2.2.2.2 }⟩)

theorem Local.framed {x : Exec α} (hx : Local x) : Framed x := by
  obtain ⟨f, hf⟩ := hx
  exact ⟨fun h g ls s => ((f h g s).1, (f h g s).2.1, (f h g s).2.2.1, ls, (f h g s).2.2.2), hf⟩

theorem Framed.bind {x : Exec α} {k : α → Exec β} (hx : Framed x) (hk : ∀ v, Framed (k v)) :
    Framed (x >>= k) := by
  obtain ⟨f, hf⟩ := hx
  refine ⟨fun h g ls s => match (f h g ls s).1 with
    | .ok v => (hk v).choose (f h g ls s).2.1 (f h g ls s).2.2.1 (f h g ls s).2.2.2.1
        (f h g ls s).2.2.2.2
    | .error t => (.error t, (f h g ls s).2), fun h g a => ?_⟩
  rw [run_bind, hf]
  dsimp only
  cases hr : (f h g a.locals a.stack).1 with
  | error t => rfl
  | ok v => exact (hk v).choose_spec _ _ { a with
      locals := (f h g a.locals a.stack).2.2.2.1, stack := (f h g a.locals a.stack).2.2.2.2 }

theorem framed_getLocal (slot : UInt16) : Framed (getLocal slot) := by
  refine ⟨fun h g ls s => (ls[slot.toNat]?.elim (.error (.fault (.localOutOfRange slot))) .ok, h, g,
    ls, s), fun h g a => ?_⟩
  unfold getLocal
  rw [run_bind_ok (run_get _)]
  dsimp only
  cases a.locals[slot.toNat]? <;> rfl

theorem framed_setLocal (slot : UInt16) (v : Value) : Framed (setLocal slot v) := by
  refine ⟨fun h g ls s => if slot.toNat + v.width ≤ ls.length then
      (.ok (), h, g, putLocal ls slot.toNat v, s)
    else (.error (.fault (.localOutOfRange slot)), h, g, ls, s), fun h g a => ?_⟩
  unfold setLocal
  rw [run_bind_ok (run_get _)]
  dsimp only
  split <;> rfl

end Exec

namespace Insn

open Exec

variable {p : Program} {isStatic : Bool} {f g : Frame} {h : Heap} {s : Bindings}
  {a a' : Activation} {i : Insn}

theorem framed_exec (i : Insn) : Framed (i.exec p) := by
  cases i with
  | load k slot =>
    exact .bind (.bind (framed_getLocal slot) fun v =>
      (Local.ite (local_push v) (local_illTyped k v)).framed) fun _ => (Local.pure _).framed
  | store k slot =>
    exact .bind (.bind (local_popKind k).framed fun v => framed_setLocal slot v) fun _ =>
      (Local.pure _).framed
  | increment slot d =>
    refine .bind (.bind (framed_getLocal slot) fun v => ?_) fun _ => (Local.pure _).framed
    cases v with
    | int n => exact framed_setLocal slot _
    | _ => exact (local_illTyped _ _).framed
  | _ => exact (local_exec rfl).framed

end Insn

/-- locals of an activation and of its twin: the same, or the same as far as a frame goes -/
def Akin (isStatic : Bool) (f : Frame) (locals locals' : List Value) : Prop :=
  locals' = locals ∨ Agree isStatic f locals locals'

section
variable {isStatic : Bool} {f g : Frame} {locals locals' : List Value} {a : Analysis} {n : Nat}

/-- frames with the same locals say the same -/
theorem Akin.of_locals (h : Akin isStatic f locals locals') (hg : g.locals = f.locals) :
    Akin isStatic g locals locals' :=
  h.imp_right fun h => h.cover (fun i c k hc hk => ⟨c, by rw [← hg]; exact hc, hk⟩) (by rw [hg])

theorem Akin.unhint {e : Frame} (h : Akin isStatic f locals locals') (he : e.Hinted f) :
    Akin isStatic e locals locals' := h.imp_right fun h => h.unhint he

theorem Akin.hint {e : Frame} (h : Akin isStatic f locals locals') (he : f.Hinted e) :
    Akin isStatic e locals locals' := h.imp_right fun h => h.cover he.covers he.length

theorem Akin.expects (h : Akin isStatic f locals locals') (ha : a.Expects n f) :
    ∃ g, a.frames[n]? = some (some g) ∧ Akin isStatic g locals locals' := by
  rcases h with h | h
  · obtain ⟨g, hg, -⟩ := ha
    exact ⟨g, hg, .inl h⟩
  · obtain ⟨g, hg, hagree⟩ := h.expects ha
    exact ⟨g, hg, .inr hagree⟩

end

/-- what an instruction does to an activation and to its twin -/
structure Akins (isStatic : Bool) (f g : Frame) (i : Insn) (p : Program) (h : Heap) (s : Bindings)
    (a a' : Activation) (r : Except Throw After) (h' : Heap) (s' : Bindings) (stack : List Value)
    (locals locals' : List Value) : Prop where
  left : (i.exec p).run ⟨h, s, a⟩ = (r, ⟨h', s', { a with locals, stack }⟩)
  right : (i.exec p).run ⟨h, s, a'⟩ = (r, ⟨h', s', { a' with locals := locals', stack }⟩)
  akin : ∀ o, r = .ok o → Akin isStatic g locals locals'
  thrown : ∀ t, r = .error t → Akin isStatic f locals locals'

/-- **An instruction** that a frame allows does the same to an activation and to its twin -/
theorem Insn.exec_akin {p : Program} {isStatic : Bool} {f g : Frame} {h : Heap} {s : Bindings}
    {a : Activation} (a' : Activation) {i : Insn} (happly : f.apply i = .ok g) (hs : a'.stack = a.stack)
    (ha : Akin isStatic f a.locals a'.locals) : ∃ r h' s' stack locals locals',
      Akins isStatic f g i p h s a a' r h' s' stack locals locals' := by
  rcases ha with ha | ha
  · obtain ⟨k, hk⟩ := framed_exec (p := p) i
    have hk' := hk h s a'
    rw [ha, hs] at hk'
    exact ⟨_, _, _, _, _, _, hk h s a, hk', fun _ _ => .inl rfl, fun _ _ => .inl rfl⟩
  · obtain ⟨r, h', s', stack, locals, locals', h1, h2, h3, h4⟩ := exec_agree (p := p) (h := h)
      (s := s) happly hs ha
    exact ⟨r, h', s', stack, locals, locals', h1, h2, fun o ho => .inr (h3 o ho),
      fun t ht => .inr (h4 t ht)⟩

/-! ## woven methods -/

/-- a method of a program, its analysis and the woven method -/
structure WovenMethod (p : Program) (t : RestoreTable) (p' : Program) (owner : String) (m m' : Method)
    where
  analysis : Analysis
  layout : Layout analysis m
  analyzed : Analysis.ofTable? p t owner m = .ok (some analysis)
  weaves : weaveMethod analysis m = .ok m'
  found' : p'.method? (m.id owner) = some m'
  lays : layout.Lays m'
  fits : layout.Fits

section
variable {p p' : Program} {t : RestoreTable} {owner : String} {m m' : Method} {x x' : Activation}
  {b : Block}

namespace WovenMethod

variable {k : WovenMethod p t p' owner m m'}

theorem sound (k : WovenMethod p t p' owner m m') : k.analysis.Sound p owner m :=
  Analysis.ofTable?_sound k.analyzed

/-- an activation of the method and its twin, which stands at a place of the block -/
structure Stands (k : WovenMethod p t p' owner m m') (x x' : Activation) (place : Nat) : Prop where
  method : x.method = m
  method' : x'.method = m'
  stack : x'.stack = x.stack
  frame : ∃ f, k.analysis.frames[x.position]? = some (some f) ∧
    Akin m.isStatic f x.locals x'.locals
  position : x'.position = k.layout.start x.position + place

/-- an analyzed instruction has a block -/
theorem Stands.block {place : Nat} (h : k.Stands x x' place) :
    ∃ b, k.layout.blocks[x.position]? = some b ∧ m.code[x.position]? = some b.own := by
  obtain ⟨f, hf, -⟩ := h.frame
  obtain ⟨-, -, hdescribes, -⟩ := weaveMethod_ok k.sound.insns k.weaves
  have hlt : x.position < m.code.length := by
    rw [← (describes_iff hdescribes).1]
    exact (List.getElem?_eq_some_iff.1 hf).1
  obtain ⟨b, hb, hown⟩ := k.lays.block (List.getElem?_eq_getElem hlt)
  exact ⟨b, hb, by rw [hown]; exact List.getElem?_eq_getElem hlt⟩

/-- a method and its twin start with the same locals -/
theorem stands_entry (k : WovenMethod p t p' owner m m') (args : List Value) :
    k.Stands (.entry m args) { Activation.entry m' args with position := k.layout.start 0 } 0 := by
  obtain ⟨desc, -, g, hg, -⟩ := k.sound.entry
  refine ⟨rfl, rfl, rfl, ⟨g, hg, .inl ?_⟩, rfl⟩
  obtain ⟨table, -, heq⟩ := k.lays.table
  show Activation.entryLocals m' args = Activation.entryLocals m args
  unfold Activation.entryLocals
  rw [heq]

end WovenMethod

/-- what became of a method: it is kept, or it is woven -/
theorem Instrumented.woven_or_kept (h : Instrumented p t owner m m')
    (found' : p'.method? (m.id owner) = some m')
    (hfits : ∀ a, Analysis.ofTable? p t owner m = .ok (some a) →
      LabelsFit m (newLabels (sitesOf a m.nextLabel))) :
    m' = m ∨ Nonempty (WovenMethod p t p' owner m m') := by
  cases h with
  | kept => exact .inl rfl
  | @woven a _ analyzed weaves =>
    obtain ⟨l, hl, -⟩ := weaveMethod_ok (Analysis.ofTable?_sound analyzed).insns weaves
    exact .inr ⟨a, l, analyzed, weaves, found', hl, hfits a analyzed⟩

/-! ## activations -/

/-- an activation and its twin before an instruction -/
inductive Level (p : Program) (t : RestoreTable) (p' : Program) (owner : String) (x x' : Activation) :
    Prop
  | kept (keeps : p'.method? (x.method.id owner) = some x.method) (same : x' = x)
  | woven {m m' : Method} (k : WovenMethod p t p' owner m m') (stands : k.Stands x x' 0)

/-- An activation and its twin while an instruction is under way; `staged` says that the operands of a
call are staged by woven code, where there are coroutines. -/
inductive Owns (p : Program) (t : RestoreTable) (p' : Program) (owner : String) (staged : Bool)
    (x x' : Activation) : Prop
  | kept (keeps : p'.method? (x.method.id owner) = some x.method) (closed : staged = false) (same : x' = x)
  | woven {m m' : Method} (k : WovenMethod p t p' owner m m') {b : Block}
      (block : k.layout.blocks[x.position]? = some b) (occupied : b.own.isLabel = false)
      (stages : staged = b.stages) (stands : k.Stands x x' b.ownAt)

/-- the instruction under way is a call -/
def Activation.Calls (x : Activation) : Prop :=
  ∃ kind id, x.method.code[x.position]? = some (.invoke kind id)

/-- an activation and its twin that wait for the end of a call -/
structure Waits (p : Program) (t : RestoreTable) (p' : Program) (owner : String) (staged : Bool)
    (x x' : Activation) : Prop where
  owns : Owns p t p' owner staged x x'
  calls : x.Calls

/-- staging frames with one more of them, or as they were -/
def Opens (staged : Bool) (frames frames' : List (List Value)) : Prop :=
  match staged with
  | true => ∃ vs, frames' = vs :: frames
  | false => frames' = frames

/-- the operands on top of a stack are admitted by the categories of a window, which are not too many
to be counted -/
def Windowed (p : Program) (h : Heap) (window : List Category) (stack : List Value) : Prop :=
  ∃ es below, Admitted p h es ∧ es.map Prod.fst = window ∧ es.length ≤ 2 ^ 31 ∧
    stack = (es.map Prod.snd).reverse ++ below

theorem Admitted.program {h : Heap} {es : List (Category × Value)}
    (hpr : ∀ a b, p'.isAssignable a b = p.isAssignable a b) (he : Admitted p h es) :
    Admitted p' h es :=
  fun e hmem => ⟨(he e hmem).1, (he e hmem).2.program hpr⟩

theorem Block.stages_some {y : Around} (hy : b.around = some y) :
    b.stages = y.site.unpatchable := by
  unfold Block.stages
  rw [hy]

theorem Block.stages_none (hy : b.around = none) : b.stages = false := by
  unfold Block.stages
  rw [hy]

theorem Block.exists_of_stages (h : b.stages = true) :
    ∃ y, b.around = some y ∧ y.site.unpatchable = true := by
  unfold Block.stages at h
  split at h
  · exact absurd h (by simp)
  · rename_i y hy
    exact ⟨y, hy, h⟩

section
variable {k : WovenMethod p t p' owner m m'} {w : World} {s s' : Machine} {rest rest' : List Pending}
  {v : Veil} {frames frames' : List (List Value)} {staged : Bool}

/-- operands are in a staging frame, or there is no such frame -/
theorem Machine.Like.staged_or (h : s.Like v frames s') (staged : Bool) :
    (staged = true ∧ s.engine.active ≠ [] ∧ (staged && s.engine.exists) = true) ∨
      (staged = false ∨ s'.Idle) ∧ (staged && s.engine.exists) = false := by
  cases staged with
  | false => exact .inr ⟨.inl rfl, rfl⟩
  | true =>
    by_cases hactive : s.engine.active = []
    · refine .inr ⟨.inr ?_, Engine.exists_of_active_nil hactive⟩
      show s'.engine.active = []
      rw [h.engine.active, hactive]
    · exact .inl ⟨rfl, hactive, by unfold Engine.exists; simpa using hactive⟩

/-- **From the start of a block to its instruction**, with the operands of a call staged -/
theorem WovenMethod.Stands.reaches_own (rest : List Pending) (h : k.Stands x x' 0)
    (hb : k.layout.blocks[x.position]? = some b) (hw : w.Supplies)
    (hpr : ∀ a b, w.program.isAssignable a b = p.isAssignable a b) (hlike : s.Like v frames s')
    (hwindow : ∀ y, b.around = some y → y.site.unpatchable = true → s.engine.active ≠ [] →
      Windowed p s.heap y.shape.window x.stack) :
    ∃ e' frames', Machine.Reaches w (s'.goOn x' rest) (({ s' with engine := e' } : Machine).goOn
        { x' with position := k.layout.start x.position + b.ownAt } rest) ∧
      Hides v frames' s.engine e' ∧ Opens (b.stages && s.engine.exists) frames frames' := by
  cases hy : b.around with
  | none =>
    have hat : b.ownAt = 0 := by
      unfold Block.ownAt
      rw [hy]
    refine ⟨s'.engine, frames, ?_, hlike.engine, ?_⟩
    · rw [hat, ← h.position]
      exact .refl w _
    · rw [Block.stages_none hy]
      rfl
  | some y =>
    have hcall : Machine.Passes w k.layout.Between (s'.goOn x' rest) _ :=
      k.lays.passes_call k.fits hb hy h.method' h.position
    rw [Block.ownAt_some hy, Block.stages_some hy]
    rcases hlike.staged_or y.site.unpatchable with ⟨hu, hactive, hboth⟩ | ⟨hs, hnone⟩
    · obtain ⟨c, hc⟩ := hlike.engine.runs hactive
      obtain ⟨es, below, hes, hes', hlen, hstack⟩ := hwindow y hy hu hactive
      refine ⟨_, _, (hcall.trans (k.lays.passes_own_staged hw hb hy hu hc
        (by rw [hlike.heap]; exact hes.program hpr) hes' hlen h.method' rfl
        (by rw [show x'.stack = x.stack from h.stack]; exact hstack))).reaches, hlike.engine.opening hc _, ?_⟩
      rw [hboth]
      exact ⟨_, rfl⟩
    · refine ⟨s'.engine, frames,
        (hcall.trans (k.lays.passes_own k.fits hw hb hy hs h.method' rfl)).reaches, hlike.engine, ?_⟩
      rw [hnone]
      rfl

/-- **From the end of an instruction to the next block**, with the staging frame of a call closed -/
theorem WovenMethod.Stands.reaches_next (rest : List Pending) (y' : Activation) (h : k.Stands x x' b.ownAt)
    (hb : k.layout.blocks[x.position]? = some b) (hw : w.Supplies) (hlike : s.Like v frames' s')
    (hopens : Opens (b.stages && s.engine.exists) frames frames') (hfresh : s.engine.Fresh)
    (hy' : y'.method = m') (hp : y'.position = x'.position + 1) :
    ∃ e', Machine.Reaches w (s'.goOn y' rest) (({ s' with engine := e' } : Machine).goOn
        { y' with position := k.layout.start (x.position + 1) } rest) ∧
      Hides v frames s.engine e' := by
  rw [h.position] at hp
  cases hy : b.around with
  | none =>
    rw [Block.stages_none hy] at hopens
    obtain rfl : frames' = frames := hopens
    refine ⟨s'.engine, ?_, hlike.engine⟩
    have hnext : y'.position = k.layout.start (x.position + 1) := by
      rw [Layout.start_succ hb, hp]
      unfold Block.ownAt Block.code Block.before Block.behind
      rw [hy]
      rfl
    rw [← hnext]
    exact .refl w _
  | some y =>
    rw [Block.ownAt_some hy, Nat.add_assoc] at hp
    rw [Block.stages_some hy] at hopens
    rcases hlike.staged_or y.site.unpatchable with ⟨hu, -, hboth⟩ | ⟨hs, hnone⟩
    · rw [hboth] at hopens
      obtain ⟨vs, rfl⟩ := hopens
      obtain ⟨c, hc, hhides, hyielding⟩ := hlike.engine.closing
      exact ⟨_, (k.lays.passes_next_staged k.fits hw hb hy hu hc (hyielding hfresh) hy' hp).reaches,
        hhides⟩
    · rw [hnone] at hopens
      obtain rfl : frames' = frames := hopens
      exact ⟨s'.engine,
        (k.lays.passes_next k.fits hw hb hy hs (hlike.engine.settled hfresh) hy' hp).reaches,
        hlike.engine⟩

/-! ## what is thrown -/

/-- handlers depend on the program only through which type may stand for which -/
theorem findHandler_program (hpr : ∀ a b, p'.isAssignable a b = p.isAssignable a b)
    (code : List Insn) (q : Nat) (type : String) (ts : List TryCatch) :
    findHandler p' code q type ts = findHandler p code q type ts := by
  induction ts with
  | nil => rfl
  | cons t ts ih =>
    have haccepts : t.accepts p' type = t.accepts p type := by
      unfold TryCatch.accepts
      split
      · rfl
      · exact hpr _ _
    rw [findHandler, findHandler, ih, haccepts]

/-- how what is thrown ends in an activation and in its twin -/
inductive Caught (p : Program) (t : RestoreTable) (p' : Program) (owner : String) (v : Veil)
    (frames : List (List Value)) (rest rest' : List Pending) (thrown : Throw) (s s' : Machine)
    (r r' : Machine) : Prop
  | handled {y y' : Activation} {e' : Engine Call Call} (level : Level p t p' owner y y')
      (hides : Hides v frames s.engine e') (left : r = s.goOn y rest)
      (right : r' = ({ s' with engine := e' } : Machine).goOn y' rest')
  | passed {e' : Engine Call Call} (hides : Hides v frames s.engine e')
      (left : r = { s with pending := rest, mode := .throwing thrown })
      (right : r' = { s' with engine := e', pending := rest', mode := .throwing thrown })
  | failed {f : Fault} {e' : Engine Call Call}
      (left : r = ({ s with pending := rest } : Machine).fault f)
      (right : r' = ({ s' with engine := e', pending := rest' } : Machine).fault f)

/-- a machine in which something is thrown to an activation -/
def Machine.throwTo (s : Machine) (r : Ref) (x : Activation) (rest : List Pending) : Machine :=
  { s with pending := .activation x :: rest, mode := .throwing (.exception r) }

theorem Machine.step_throwTo (s : Machine) (r : Ref) (x : Activation) (rest : List Pending) :
    (s.throwTo r x rest).step w = s.catchIn w x rest (.exception r) := rfl

/-- what is thrown goes on where the search for a handler leads -/
def Machine.land (s : Machine) (x : Activation) (rest : List Pending) (r : Ref) :
    Except Fault (Option Nat) → Machine
  | .ok (some position) => s.goOn (x.handle position r) rest
  | .ok none => { s with pending := rest, mode := .throwing (.exception r) }
  | .error f => ({ s with pending := rest } : Machine).fault f

theorem Machine.catchIn_found {r : Ref} {found : Except Fault (Option Nat)}
    (h : findHandler w.program x.method.code x.position (s.heap.className r) x.method.tryCatches =
      found) : s.catchIn w x rest (.exception r) = s.land x rest r found := by
  subst h
  rfl

/-- what is thrown at a place that has the handlers of the instruction -/
theorem WovenMethod.Stands.caught {hosts : List HostMethod} {place : Nat} {r : Ref}
    {y' : Activation} (h : k.Stands x x' place) (hlike : s.Like v frames s') (hy' : y'.method = m')
    (hlocals : y'.locals = x'.locals)
    (hfound : findHandler w.program m'.code y'.position (s.heap.className r) m'.tryCatches =
      (findHandler p m.code x.position (s.heap.className r) m.tryCatches).map
        (Option.map k.layout.start)) :
    Caught p t p' owner v frames rest rest' (.exception r) s s'
      (s.catchIn ⟨p, hosts⟩ x rest (.exception r)) (s'.catchIn w y' rest' (.exception r)) := by
  obtain ⟨found, hf⟩ : ∃ found, findHandler p m.code x.position (s.heap.className r) m.tryCatches =
      .ok found := findHandler_defined k.sound.tableDefined
  rw [hf] at hfound
  have hleft : s.catchIn ⟨p, hosts⟩ x rest (.exception r) = s.land x rest r (.ok found) :=
    Machine.catchIn_found (by rw [h.method]; exact hf)
  have hright : s'.catchIn w y' rest' (.exception r) =
      s'.land y' rest' r (.ok (found.map k.layout.start)) :=
    Machine.catchIn_found (by rw [hlike.heap, hy', hfound]; rfl)
  rw [hleft, hright]
  cases found with
  | none => exact .passed hlike.engine rfl rfl
  | some n =>
    obtain ⟨b, -, hi⟩ := h.block
    obtain ⟨f, hframe, hakin⟩ := h.frame
    obtain ⟨e, g, hhinted, hflows⟩ := k.sound.flowsFrom hi hframe
    obtain ⟨entry, hentry, hprotects, hlabel, -⟩ := findHandler_found hf
    obtain ⟨stack, hexpects⟩ := hflows.handlers entry hentry hprotects n hlabel
    obtain ⟨g', hg', hakin⟩ := ((hakin.unhint hhinted).of_locals (g := ⟨e.locals, stack⟩) rfl).expects
      hexpects
    have hlevel : k.Stands (x.handle n r) (y'.handle (k.layout.start n) r) 0 := by
      refine ⟨h.method, hy', rfl, ⟨g', hg', ?_⟩, rfl⟩
      show Akin _ _ x.locals y'.locals
      rw [hlocals]
      exact hakin
    exact .handled (.woven k hlevel) hlike.engine rfl rfl

/-- **What is thrown** to an activation is caught by its twin as well, or ends both -/
theorem Owns.caught (hosts : List HostMethod) (rest rest' : List Pending) (r : Ref)
    (hx : Owns p t p' owner staged x x')
    (hw : w.Supplies) (hpr : ∀ a b, w.program.isAssignable a b = p.isAssignable a b)
    (hlike : s.Like v frames' s') (hopens : Opens (staged && s.engine.exists) frames frames') :
    ∃ r', Machine.Reaches w (s'.throwTo r x' rest') r' ∧
      Caught p t p' owner v frames rest rest' (.exception r) s s'
        (s.catchIn ⟨p, hosts⟩ x rest (.exception r)) r' := by
  cases hx with
  | kept keeps closed same =>
    subst same closed
    obtain rfl : frames' = frames := hopens
    refine ⟨s'.catchIn w x' rest' (.exception r), .of_step (s'.step_throwTo r x' rest'), ?_⟩
    rw [Machine.catchIn_found (w := ⟨p, hosts⟩) rfl,
      Machine.catchIn_found (w := w) (s := s') (by rw [hlike.heap, findHandler_program hpr])]
    dsimp only
    cases findHandler p x'.method.code x'.position (s.heap.className r) x'.method.tryCatches with
    | error f => exact .failed rfl rfl
    | ok found =>
      cases found with
      | none => exact .passed hlike.engine rfl rfl
      | some n =>
        have hlevel : Level p t p' owner (x'.handle n r) (x'.handle n r) := .kept keeps rfl
        exact .handled hlevel hlike.engine rfl rfl
  | @woven m m' k b block occupied stages stands =>
    subst stages
    cases hstages : b.stages with
    | false =>
      rw [hstages] at hopens
      obtain rfl : frames' = frames := hopens
      refine ⟨_, .of_step (s'.step_throwTo r x' rest'), stands.caught hlike stands.method' rfl ?_⟩
      rw [stands.position]
      exact k.lays.findHandler_own k.fits k.sound.tableDefined hpr block occupied hstages
    | true =>
      obtain ⟨y, hy, hu⟩ := Block.exists_of_stages hstages
      -- the handler of the call comes first, and throws again
      have hcatch : Machine.Reaches w (s'.throwTo r x' rest')
          (s'.goOn (x'.handle (k.layout.start x.position + (y.ownAt + 3)) r) rest') := by
        refine .of_step ?_
        have hsite : findHandler w.program m'.code (k.layout.start x.position + y.ownAt)
            (s'.heap.className r) m'.tryCatches =
            .ok (some (k.layout.start x.position + (y.ownAt + 3))) :=
          k.lays.findHandler_site k.fits block hy hu
        show s'.catchIn w x' rest' (.exception r) = s'.land x' rest' r (.ok (some _))
        exact Machine.catchIn_found
          (by rw [stands.method', stands.position, Block.ownAt_some hy]; exact hsite)
      have hagain : findHandler w.program m'.code (k.layout.start x.position + (y.ownAt + 8))
          (s.heap.className r) m'.tryCatches = _ :=
        k.lays.findHandler_rethrow k.fits k.sound.tableDefined hpr block hy hu
      rcases hlike.staged_or b.stages with ⟨-, -, hboth⟩ | ⟨hs, hnone⟩
      · rw [hboth] at hopens
        obtain ⟨vs, rfl⟩ := hopens
        obtain ⟨c, hc, hhides, -⟩ := hlike.engine.closing
        have hpasses : Machine.Passes w k.layout.Between
            (s'.goOn (x'.handle (k.layout.start x.position + (y.ownAt + 3)) r) rest') _ :=
          k.lays.passes_rethrow_staged k.fits hw block hy hu hc stands.method' rfl
        have hrethrow := hpasses.reaches.trans
          (.of_step (k.lays.throws_again block hy hu stands.method' rfl rfl))
        refine ⟨_, (hcatch.trans hrethrow).trans (.of_step ((s'.put c).step_throwTo r _ rest')), ?_⟩
        have hcaught : Caught p t p' owner v frames rest rest' (.exception r) s (s'.put c)
            (s.catchIn ⟨p, hosts⟩ x rest (.exception r)) ((s'.put c).catchIn w
              { x'.handle (k.layout.start x.position + (y.ownAt + 3)) r with
                position := k.layout.start x.position + (y.ownAt + 8), stack := [] }
              rest' (.exception r)) :=
          stands.caught ⟨hlike.heap, hlike.statics, hlike.console, hhides⟩ stands.method' rfl hagain
        generalize (s'.put c).catchIn w _ rest' _ = r' at hcaught ⊢
        cases hcaught with
        | handled level hides left right => exact .handled level hides left right
        | passed hides left right => exact .passed hides left right
        | failed left right => exact .failed left right
      · rw [hnone] at hopens
        obtain rfl : frames' = frames := hopens
        have hidle : s'.Idle := hs.resolve_left (by rw [hstages]; simp)
        have hpasses : Machine.Passes w k.layout.Between
            (s'.goOn (x'.handle (k.layout.start x.position + (y.ownAt + 3)) r) rest') _ :=
          k.lays.passes_rethrow k.fits hw block hy hu hidle stands.method' rfl
        have hrethrow := hpasses.reaches.trans
          (.of_step (k.lays.throws_again block hy hu stands.method' rfl rfl))
        exact ⟨_, (hcatch.trans hrethrow).trans (.of_step (s'.step_throwTo r _ rest')),
          stands.caught hlike stands.method' rfl hagain⟩

end

end

end Resumable
