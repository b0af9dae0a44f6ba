import Resumable.Proofs.Assembled
import Resumable.Proofs.FreshPath
import Resumable.Proofs.WovenRun

/-!
# Casts in injected code

Restored references and staged operands are cast to the types that frames have for them.  An activation of a
woven method is entered with arguments of their types where nothing is saved for it, or it is entered again
with the level that an earlier activation had at the call where it was suspended.  Either way locals and
operands are of their types at each of its own instructions, and so none of these casts fails.

* `WovenMethod.Suspends`, `WovenMethod.Uppermost` : a level and where it is kept;
* `WovenMethod.Entered` : the ways into a woven method;
* `WovenMethod.Guided.leads_again` : from a suspended level to the call;
* `WovenMethod.Guided.leads_after` : a run of a woven method;
* `injected_casts_succeed` : casts in injected code.
-/

namespace Resumable

open Category (Reading Typed)
open Machine (Leads)

/-! ## ways into a woven method -/

/-- what comes into the activation in so many steps is of the types that frames have for it -/
def WovenMethod.FedFor {p p' : Program} {t : RestoreTable} {owner : String} {m m' : Method}
    (k : WovenMethod p t p' owner m m') (w : World) (rest : List Pending) (s : Machine) (n : Nat) : Prop :=
  ∀ j, j < n → k.Fed w rest (s.after w j)

namespace WovenMethod

section
variable {p p' : Program} {t : RestoreTable} {owner : String} {m m' : Method}
variable (k : WovenMethod p t p' owner m m')

/-- An activation stands at a call of a restore point, where it is suspended with this level.  The call was
made on an object, which is what the callee leaves. -/
structure Suspends (x : Activation) (n : Nat) (b : Block) (y : Around) (d : LevelData) : Prop where
  stands : k.At x n b
  around : b.around = some y
  locals : x.locals = d.locals
  stack : x.stack = d.window.reverse ++ d.below
  window : d.window.length = y.shape.window.length
  first : HoldsReceiver k.analysis.isStatic d.locals
  receiver : y.site.unpatchable = false → y.shape.hasReceiver = true →
    d.window.head? = some (.ref d.companion) ∧ d.companion ≠ none

/-- the level is the uppermost one of the running coroutine -/
def Uppermost (s : Machine) (y : Around) (d : LevelData) : Prop :=
  ∃ c states, s.engine.Runs c ∧ c.states = Int32.ofNat y.site.index :: states ∧
    c.storage = d.saved y.site y.frame y.shape

/-- **The ways into a woven method**: with arguments of their types where nothing is saved for it, or with
the level of an earlier activation that was suspended at a call, in a heap that has grown since. -/
inductive Entered (w : World) : Machine → List Value → Prop
  | fresh {s : Machine} {args : List Value} (orderly : (s.enter args (.code m')).thread.Orderly)
      (typed : ∀ desc, MethodDesc.parse? m.desc = some desc →
        List.Forall₂ (Typed p s.heap) (m.arguments owner desc) args)
      (nothing : s.Idle ∨ ∃ c, s.engine.Runs c ∧ c.states = []) : Entered w s args
  | again {s₀ s : Machine} {args₀ args : List Value} {i n : Nat} {x : Activation} {b : Block} {y : Around}
      {d : LevelData} (earlier : Entered w s₀ args₀)
      (under : (s₀.enter args₀ (.code m')).UnderWay w s₀.pending (i + 1))
      (fed : k.FedFor w s₀.pending (s₀.enter args₀ (.code m')) i)
      (pending : ((s₀.enter args₀ (.code m')).after w i).pending = .activation x :: s₀.pending)
      (mode : ((s₀.enter args₀ (.code m')).after w i).mode = .executing)
      (suspends : k.Suspends x n b y d)
      (grows : ((s₀.enter args₀ (.code m')).after w i).heap.Grows s.heap)
      (orderly : (s.enter args (.code m')).thread.Orderly) (accepts : m.Accepts args)
      (uppermost : Uppermost s y d) : Entered w s args

end

section
variable {p p' : Program} {t : RestoreTable} {owner : String} {m m' : Method}
  {k : WovenMethod p t p' owner m m'} {x : Activation} {n i : Nat} {b c : Block} {y : Around}

/-- no injected code stands where an instruction of the method does -/
theorem At.not_between (hx : k.At x n b) : ¬ k.layout.Between x.position :=
  fun h => h n b hx.block hx.position

/-- it is one instruction of the method that stands there -/
theorem At.unique (hx : k.At x n b) (hx' : k.At x i c) : n = i := by
  have hwithin := (k.lays.holds_own hx.block).2
  have hwithin' := (k.lays.holds_own hx'.block).2
  rw [← hx.position] at hwithin
  rw [← hx'.position] at hwithin'
  exact hwithin.inj hwithin'

/-- a method and the woven one start with the same locals -/
theorem locals_entry (k : WovenMethod p t p' owner m m') (args : List Value) :
    (Activation.entry m' args).locals = (Activation.entry m args).locals := by
  obtain ⟨table, -, heq⟩ := k.lays.table
  show Activation.entryLocals m' args = Activation.entryLocals m args
  unfold Activation.entryLocals
  rw [heq]

/-- throwing again is injected -/
theorem Rethrows.between (hx : k.Rethrows x n b y) : k.layout.Between x.position := by
  obtain ⟨hown, hafter, hno, -, hboth⟩ := y.places k.analysis k.layout.ret
  have hrethrows := (hboth hx.unpatchable).1
  rw [hx.position]
  exact k.lays.between_around hx.block hx.around (by omega) (by omega)

end

namespace Guided

variable {p p' : Program} {t : RestoreTable} {owner : String} {m m' : Method}
  {k : WovenMethod p t p' owner m m'} {w : World} {desc : MethodDesc} {fs : List (Option Frame)}
  {s : Machine} {x : Activation} {rest : List Pending} {n N : Nat} {b : Block} {y : Around}

/-! ## runs -/

/-- **A run** of the activation goes through injected code and along its frames -/
theorem leads_after (g : k.Guided w desc fs) (hs : s.thread.Orderly) (hunder : s.UnderWay w rest N)
    (hfed : k.FedFor w rest s N) (h : Leads w k.layout.Between (k.GoesOn fs rest) s) :
    ∀ j, j ≤ N → Leads w k.layout.Between (k.GoesOn fs rest) (s.after w j) := by
  intro j hj
  induction j with
  | zero => exact h
  | succ j ih =>
    rw [Machine.after_succ']
    rcases (ih (by omega)).cases with (hended | htracked) | ⟨-, hleads⟩
    · exact absurd (hunder j hj) (by omega)
    · exact g.leads_step (Machine.orderly_after hs w j) (hfed j hj) htracked
    · exact hleads

/-- at an instruction of the method, locals and operands are of the types of its frame -/
theorem reads_own (h : Leads w k.layout.Between (k.GoesOn fs rest) s)
    (hp : s.pending = .activation x :: rest) (hmode : s.mode = .executing) (hx : k.At x n b) :
    Flow.ReadsAt (Typed p s.heap) fs n x.locals x.stack := by
  rcases h.cases with (hended | htracked) | ⟨hcalm, -⟩
  · rw [hp, List.length_cons] at hended
    omega
  · cases htracked.of_executing hp hmode with
    | own stands reads =>
      obtain rfl := hx.unique stands
      exact reads
    | rethrow stands => exact absurd stands.between hx.not_between
  · exact absurd (hcalm.stands x rest hp) hx.not_between

/-- the operands of the call where an activation is suspended, and those below, are of their types -/
theorem typed_operands {h : Heap} {d : LevelData} (hcuts : y.shape.Cuts y.frame)
    (hlen : d.window.length = y.shape.window.length)
    (hstack : List.Forall₂ (Typed p h) y.frame.stack (d.window.reverse ++ d.below)) :
    List.Forall₂ (Typed p h) y.shape.window d.window ∧ List.Forall₂ (Typed p h) y.shape.below d.below := by
  have htakes : y.frame.Takes y.shape.window.reverse ⟨y.frame.locals, y.shape.below⟩ := ⟨hcuts.stack, rfl⟩
  obtain ⟨vs, below, heq, hvs, hbelow⟩ := htakes.reads hstack
  have hsame : d.window.reverse.length = vs.length := by
    rw [List.length_reverse, hlen, ← hvs.length_eq, List.length_reverse]
  obtain ⟨rfl, rfl⟩ := List.append_inj heq hsame
  have hback := List.rel_reverse hvs
  rw [List.reverse_reverse, List.reverse_reverse] at hback
  exact ⟨hback, hbelow⟩

/-- the level of a suspended activation whose values are of their types can be restored -/
theorem ok_of_suspends (g : k.Guided w desc fs) {h : Heap} {d : LevelData} (hx : k.Suspends x n b y d)
    (hreads : Flow.ReadsAt (Typed p h) fs n d.locals (d.window.reverse ++ d.below)) :
    d.Ok w.program h k.analysis y.site y.frame y.shape := by
  obtain ⟨hcuts, N, hsound⟩ := cuts k hx.stands.block hx.around
  have hrecorded := g.recorded hx.stands.block hx.around hreads
  refine ⟨hrecorded.conforms.program g.assignable, hx.window, fun _ => ?_, hx.first, fun hu r hr => ?_⟩
  · rw [hx.window]
    exact g.countable.windows n b y hx.stands.block hx.around
  · obtain ⟨hhead, hobject⟩ := hx.receiver hu (by rw [← hcuts.receiver, hr]; rfl)
    obtain ⟨hwindow, -⟩ := typed_operands hcuts hx.window hrecorded.stack
    obtain ⟨v, hv, htyped⟩ := reads_receiver hwindow hr
    obtain rfl := Option.some.inj (hv.symm.trans hhead)
    exact ⟨by simpa [hhead, Value.null] using hobject, (htyped.admits).program g.assignable⟩

/-- locals at the start of the woven method are as many as frames have -/
theorem length_entry (g : k.Guided w desc fs) (hdesc : MethodDesc.parse? m.desc = some desc) {args : List Value}
    (hargs : m.Accepts args) {f : Frame} (hf : fs[n]? = some (some f)) :
    f.locals.length = (Activation.entry m' args).locals.length := by
  obtain ⟨handlers, -, hsettled⟩ := g.handlers
  rw [(hsettled.sound n f hf).length, k.locals_entry,
    (Frame.reads_entry (hargs.holds hdesc owner)).locals.length_eq]

/-- from where the level is restored to the call -/
theorem leads_call (g : k.Guided w desc fs) (hs : s.Steady) (hb : k.layout.blocks[n]? = some b)
    (hy : b.around = some y) (hx : x.method = m') (hp : x.position =
      k.layout.start n + (3 + (restoreCode y.site.unpatchable y.frame y.shape).length))
    (hreads : Flow.ReadsAt (Typed p s.heap) fs n x.locals x.stack) :
    Leads w k.layout.Between (k.GoesOn fs rest) (s.goOn x rest) := by
  refine (k.lays.leads_call k.fits g.supplies hs hb hy hx hp fun _ => g.windowed hb hy hreads).mono ?_
  rintro _ ⟨e, rfl⟩
  exact goesOn_own (s := { s with engine := e }) ⟨hx, hb, by rw [Block.ownAt_some hy]⟩ hreads

/-- **An activation that is entered again** goes on to the call where the earlier one was suspended, and
locals and operands are of their types there -/
theorem leads_again (g : k.Guided w desc fs) {args : List Value} {h : Heap} {d : LevelData}
    (hs : (s.enter args (.code m')).thread.Orderly) (hdesc : MethodDesc.parse? m.desc = some desc)
    (hargs : m.Accepts args) (hx : k.Suspends x n b y d)
    (hreads : Flow.ReadsAt (Typed p h) fs n x.locals x.stack) (hgrows : h.Grows s.heap)
    (huppermost : Uppermost s y d) :
    Leads w k.layout.Between (k.GoesOn fs s.pending) (s.enter args (.code m')) := by
  obtain ⟨c, states, hc, hstates, hstorage⟩ := huppermost
  have hb := hx.stands.block
  have hy := hx.around
  rw [hx.locals, hx.stack] at hreads
  replace hreads := hreads.mono fun _ _ hv => Typed.grow hv hgrows
  have hd := g.ok_of_suspends hx hreads
  obtain ⟨hcuts, N, hsound⟩ := cuts k hb hy
  obtain ⟨f, hf, hreads⟩ := hreads
  have hhinted := g.hints hb hy hf
  have hlen := g.length_entry hdesc hargs hf
  -- the prologue, and the level
  have hresume : Machine.Passes w k.layout.Between (s.goOn (.entry m' args) s.pending) _ :=
    k.lays.passes_resume k.fits g.supplies hb hy g.countable.sites hc hstates rfl rfl
  have hslots := g.countable.locals n y.frame (frame_of_around k hb hy)
  obtain ⟨mark, locals, hrestore, hrestored, -⟩ := k.lays.passes_restored (s := s.put { c with states })
    (x := { Activation.entry m' args with position := k.layout.start n + 2 }) g.supplies hb hy hd hcuts
    hsound hslots (hc.put rfl) hstorage rfl rfl rfl (by rw [hhinted.length]; exact Nat.le_of_eq hlen)
  refine ((hresume.trans hrestore).orderly hs).bind ?_
  rintro _ ⟨rfl, horderly⟩
  -- the call
  have hagain : Flow.ReadsAt (Typed p s.heap) fs n locals
      (operandsAgain y.site y.shape d.window d.companion ++ d.below) := by
    have hstack := hreads.stack
    rw [← hhinted.stack] at hstack
    obtain ⟨hwindow, hbelow⟩ := typed_operands hcuts hx.window hstack
    refine ⟨f, hf, hrestored.reads hhinted hlen hreads.locals, ?_⟩
    rw [← hhinted.stack, hcuts.stack]
    exact List.rel_append (reads_operandsAgain hcuts hsound.loaded hwindow fun hu hreceiver =>
      (hx.receiver hu hreceiver).1) hbelow
  exact g.leads_call (Machine.steady_of_goOn horderly) hb hy rfl rfl hagain

/-- **An activation that is entered** where nothing is saved for it goes on to its first instruction -/
theorem leads_fresh (g : k.Guided w desc fs) {args : List Value}
    (hs : (s.enter args (.code m')).thread.Orderly)
    (hargs : List.Forall₂ (Typed p s.heap) (m.arguments owner desc) args)
    (hnothing : s.Idle ∨ ∃ c, s.engine.Runs c ∧ c.states = []) :
    Leads w k.layout.Between (k.GoesOn fs s.pending) (s.enter args (.code m')) := by
  obtain ⟨handlers, -, hsettled⟩ := g.handlers
  have hpasses : Machine.Passes w k.layout.Between (s.goOn (.entry m' args) s.pending) _ :=
    k.lays.passes_body k.fits g.supplies hnothing rfl rfl
  refine hpasses.leads (g.leads_block (Machine.steady_of_goOn hs) rfl rfl ?_)
  show Flow.ReadsAt (Typed p s.heap) fs 0 (Activation.entry m' args).locals []
  rw [k.locals_entry]
  exact hsettled.entry.readsAt (Category.widened_typed g.upward _) hsettled.sound rfl (Frame.reads_entry hargs)

end Guided

theorem Entered.orderly {p p' : Program} {t : RestoreTable} {owner : String} {m m' : Method}
    {k : WovenMethod p t p' owner m m'} {w : World} {s : Machine} {args : List Value}
    (h : k.Entered w s args) : (s.enter args (.code m')).thread.Orderly := by
  cases h with
  | fresh orderly => exact orderly
  | again _ _ _ _ _ _ _ orderly => exact orderly

/-- **However it is entered**, the activation goes through injected code and along its frames -/
theorem Entered.leads {p p' : Program} {t : RestoreTable} {owner : String} {m m' : Method}
    {k : WovenMethod p t p' owner m m'} {w : World} {desc : MethodDesc} {fs : List (Option Frame)}
    {s : Machine} {args : List Value} (h : k.Entered w s args) (g : k.Guided w desc fs)
    (hdesc : MethodDesc.parse? m.desc = some desc) :
    Leads w k.layout.Between (k.GoesOn fs s.pending) (s.enter args (.code m')) := by
  induction h with
  | fresh orderly typed nothing => exact g.leads_fresh orderly (typed desc hdesc) nothing
  | @again s₀ s args₀ args i n x b y d earlier under fed pending mode suspends grows orderly accepts uppermost ih =>
    have hleads := g.leads_after earlier.orderly (fun j hj => under j (by omega)) fed ih i (Nat.le_refl i)
    exact g.leads_again orderly hdesc accepts suspends (Guided.reads_own hleads pending mode suspends.stands)
      grows uppermost

end WovenMethod

/-! ## casts -/

/-- Numbers count what there is in the analyzed methods of a program: slots of locals in 16 bits, operands
and calls of restore points in 31 bits. -/
def Program.Countable (p : Program) (t : RestoreTable) : Prop :=
  ∀ owner m a, p.method? (m.id owner) = some m → Analysis.ofTable? p t owner m = .ok (some a) →
    (∀ (n : Nat) (f : Frame), a.frames[n]? = some (some f) → f.locals.length ≤ 65536 ∧ f.stack.length ≤ 2 ^ 31) ∧
      (sitesOf a m.nextLabel).length ≤ 2 ^ 31

section
variable {p p' : Program} {t : RestoreTable} {owner : String} {m m' : Method}

theorem WovenMethod.countable (k : WovenMethod p t p' owner m m') (found : p.method? (m.id owner) = some m)
    (h : p.Countable t) : k.Countable := by
  obtain ⟨hframes, hsites⟩ := h owner m k.analysis found k.analyzed
  refine ⟨fun n f hf => (hframes n f hf).1, fun n b y hb hy => ?_, hsites⟩
  obtain ⟨hcuts, -⟩ := Guided.cuts k hb hy
  refine Nat.le_trans ?_ (hframes n y.frame (Guided.frame_of_around k hb hy)).2
  rw [hcuts.stack, List.length_append, List.length_reverse]
  exact Nat.le_add_right _ _

end

/-! ## a parameter that is passed on -/

namespace Passed

open Assembly

def owner : String := "demo/R"

/-- a class without members -/
def bare (name superName : String) (interfaces : List String) : String × ClassDef :=
  (name, ⟨name, some superName, interfaces, [], []⟩)

/-- the callee, which takes a reference and is not woven -/
def sink (type : String) : MethodId := ⟨owner, "sink", "(" ++ type ++ ")V"⟩

def sinking (type : String) : Method := ⟨"sink", (sink type).desc, true, 1, [.ret none], [], []⟩

/-- a method that passes its parameter on -/
def passing (type : String) : Method :=
  ⟨"pass", "(" ++ type ++ ")V", true, 1, [.load .ref 0, .invoke .static (sink type), .ret none], [], []⟩

/-- the caller of the woven method, with the code that makes its arguments -/
def making (code : List Insn) (pass : Method) : Method :=
  ⟨"make", "()V", true, 0, code ++ [.invoke .static (pass.id owner), .ret none], [], []⟩

def program (others : List (String × ClassDef)) (type : String) (pass : Method) (made : List Insn) :
    Program :=
  ⟨others ++ [(owner, ⟨owner, some objectType, [], [], [sinking type, pass, making made pass]⟩)]⟩

/-- the call of `sink` in `pass` may suspend, and its callee is not woven -/
def table : RestoreTable :=
  ⟨none, [⟨owner, "pass", "", none, [{ RestorePoint.ofName "sink" with patchable := false }]⟩]⟩

/-- the program with the call woven -/
def rewritten (p : Program) : Program :=
  match instrument p table true with
  | .ok r => r.1
  | .error _ => .empty

def call : Call := ⟨.static, ⟨owner, "make", "()V"⟩, []⟩

/-- a coroutine that runs, with what was saved in it -/
def running (states : List Int32) (storage : Storage) : Coroutine Call Call :=
  { Feed.running with states, storage }

def machine : Machine := ⟨.empty, [], [], ⟨#[running [] .empty], [1]⟩, [.body 1 call], .calling call⟩

/-! ### an object of a subclass -/

def supers : List (String × ClassDef) := [bare "demo/A" objectType [], bare "demo/B" "demo/A" []]

def pass : Method := passing "Ldemo/A;"

def base : Program := program supers "Ldemo/A;" pass [.new "demo/B"]

def frame : Frame := ⟨[.ref "demo/A"], [.ref "demo/A"]⟩

def site : Site := ⟨0, 1, .static, sink "Ldemo/A;", true, some frame, ⟨0⟩⟩

def analysis : Analysis where
  method := pass.id owner
  isStatic := true
  rootEntry := false
  calls := 1
  restorePoints := [sink "Ldemo/A;"]
  unpatchable := [sink "Ldemo/A;"]
  frames := [some ⟨[.ref "demo/A"], []⟩, some frame, some ⟨[.ref "demo/A"], []⟩]
  insns := pass.code

def around : Around := ⟨site, frame, ⟨[], [.ref "demo/A"], false, none⟩, .ofBase 3⟩

def layout : Layout analysis pass where
  desc := ⟨[.ref "demo/A"], none⟩
  blocks := [⟨none, .load .ref 0⟩, ⟨some around, .invoke .static (sink "Ldemo/A;")⟩, ⟨none, .ret none⟩]

def woven : Method :=
  match weaveMethod analysis pass with
  | .ok m => m
  | .error _ => pass

theorem analysis_pass : Analysis.ofTable? base table owner pass = .ok (some analysis) := rfl

/-- no other method is analyzed -/
theorem eq_of_analyzed {o : String} {m : Method} {a : Analysis} (hm : base.method? (m.id o) = some m)
    (ha : Analysis.ofTable? base table o m = .ok (some a)) : m = pass ∧ a = analysis := by
  obtain ⟨c, hc, hm⟩ := Option.bind_eq_some_iff.1 hm
  obtain ⟨e, he, rfl⟩ := Option.map_eq_some_iff.1 hc
  have ho : e.1 = (m.id o).owner := by simpa using List.find?_some he
  have hmem : m ∈ e.2.methods := List.mem_of_find?_eq_some hm
  have hclass : e = bare "demo/A" objectType [] ∨ e = bare "demo/B" "demo/A" [] ∨
      e = (owner, ⟨owner, some objectType, [], [], [sinking "Ldemo/A;", pass, making [.new "demo/B"] pass]⟩) := by
    simpa [base, program, supers] using List.mem_of_find?_eq_some he
  rcases hclass with rfl | rfl | rfl
  · exact absurd hmem (by simp [bare])
  · exact absurd hmem (by simp [bare])
  · obtain rfl : owner = o := ho
    have hmethod : m = sinking "Ldemo/A;" ∨ m = pass ∨ m = making [.new "demo/B"] pass := by
      simpa using hmem
    rcases hmethod with rfl | rfl | rfl
    · exact absurd (show Except.ok none = Except.ok (some a) from ha) (by simp)
    · exact ⟨rfl, by simpa using ha.symm.trans analysis_pass⟩
    · exact absurd (show Except.ok none = Except.ok (some a) from ha) (by simp)

def world : World := ⟨rewritten base, []⟩

/-- the machine that calls the method -/
def called : Machine := machine.after world 3

/-- the object that is passed -/
def passed : Value := .ref (some (.object 0))

def level : LevelData := ⟨[passed], [passed], [], none, .empty⟩

/-- the machine that calls the method again, once it was suspended -/
def resumed : Machine :=
  { called with
    heap := ((called.enter [passed] (.code woven)).after world 33).heap
    engine := ⟨#[running [0] (level.saved site frame around.shape)], [1]⟩ }

/-- nothing comes into the activation: no call of its own has returned, and nothing is thrown -/
def closed (s : Machine) : Bool :=
  match s.mode, s.pending with
  | .executing, _ | .calling _, _ => true
  | .returning _, .activation x :: _ => x.position ∉ [10, 29, 53]
  | _, _ => false

/-- An array of a subclass is passed on. -/
def arrays : Program := program supers "[Ldemo/A;" (passing "[Ldemo/A;") [.intConst 1, .newArray "Ldemo/B;"]

end Passed
end Resumable
