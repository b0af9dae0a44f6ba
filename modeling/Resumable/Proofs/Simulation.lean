import Resumable.Proofs.Run
import Resumable.Proofs.Twins

/-!
# A program and the rewritten program side by side

One step of a program is some steps of the rewritten one, as long as nothing is suspended: both then
look the same again.  What is under way in both is the same up to twins and staging frames.

* `Stacked` : what is under way in both;
* `Sim` : a machine and its twin;
* `Machine.owners` : the classes that the methods under way belong to;
* `Sim.step` : one step;
-/

namespace Resumable

/-! ## owners -/

/-- how many activations are under way -/
def activations : List Pending → Nat
  | [] => 0
  | .activation _ :: ps => activations ps + 1
  | _ :: ps => activations ps

namespace Machine

/-- the classes that the methods under way belong to after one more step, the innermost first -/
def ownersAfter (w : World) (m : Machine) (owners : List String) : List String :=
  if activations (m.step w).pending < activations m.pending then owners.tail
  else if activations m.pending < activations (m.step w).pending then
    (match m.mode with
      | .calling c => (w.owner? m.heap c).toList
      | _ => []) ++ owners
  else owners

/-- the classes that the methods under way belong to after a number of steps -/
def owners (w : World) (m : Machine) : Nat → List String
  | 0 => []
  | n + 1 => (m.after w n).ownersAfter w (owners w m n)

section
variable {w : World} {m : Machine} {os : List String}

theorem ownersAfter_same (h : activations (m.step w).pending = activations m.pending) : m.ownersAfter w os = os := by
  unfold ownersAfter
  rw [if_neg (by omega), if_neg (by omega)]

theorem ownersAfter_less (h : activations m.pending = activations (m.step w).pending + 1) : m.ownersAfter w os = os.tail := by
  unfold ownersAfter
  rw [if_pos (by omega)]

theorem ownersAfter_call {c : Call} (hc : m.mode = .calling c)
    (h : activations (m.step w).pending = activations m.pending + 1) :
    m.ownersAfter w os = (w.owner? m.heap c).toList ++ os := by
  unfold ownersAfter
  rw [if_neg (by omega), if_pos (by omega), hc]

end

end Machine

/-! ## both machines -/

/-- what is under way in both machines; `active` says that a coroutine runs, and the staging frames
that are open are those of its calls -/
inductive Stacked (p : Program) (t : RestoreTable) (p' : Program) (v : Veil) :
    Bool → List (List Value) → List String → List Pending → List Pending → Prop
  | nil : Stacked p t p' v v.kept.isSome [] [] [] []
  | waits {active staged : Bool} {frames frames' : List (List Value)} {owner : String}
      {owners : List String} {x x' : Activation} {ps ps' : List Pending}
      (waits : Waits p t p' owner staged x x') (opens : Opens (staged && active) frames frames')
      (rest : Stacked p t p' v active frames owners ps ps') :
      Stacked p t p' v active frames' (owner :: owners) (.activation x :: ps) (.activation x' :: ps')
  | body {owners : List String} {ps ps' : List Pending} {id : Nat} {call : Call}
      (rest : Stacked p t p' v false [] owners ps ps') :
      Stacked p t p' v true [] owners (.body id call :: ps) (.body id call :: ps')
  | discard {active : Bool} {frames : List (List Value)} {owners : List String}
      {ps ps' : List Pending} (rest : Stacked p t p' v active frames owners ps ps') :
      Stacked p t p' v active frames owners (.discard :: ps) (.discard :: ps')

/-- A machine and its twin, with the owners of the methods under way.  A fault ends both, whatever is
under way. -/
inductive Sim (p : Program) (t : RestoreTable) (p' : Program) (v : Veil) :
    Machine → List String → Machine → Prop
  | executing {s s' : Machine} {owner : String} {owners : List String}
      {frames : List (List Value)} {x x' : Activation} {ps ps' : List Pending}
      (level : Level p t p' owner x x') (like : s.Like v frames s')
      (stacked : Stacked p t p' v s.engine.exists frames owners ps ps') :
      Sim p t p' v (s.goOn x ps) (owner :: owners) (s'.goOn x' ps')
  | waiting {s s' : Machine} {owners : List String} {frames : List (List Value)}
      (like : s.Like v frames s')
      (stacked : Stacked p t p' v s.engine.exists frames owners s.pending s'.pending)
      (mode : s'.mode = s.mode) (waits : s.mode ≠ .executing)
      (goes : ∀ f, s.mode ≠ .throwing (.fault f)) : Sim p t p' v s owners s'
  | thrown {s s' : Machine} {owner : String} {owners : List String} {staged : Bool}
      {frames frames' : List (List Value)} {r : Ref} {x x' : Activation} {ps ps' : List Pending}
      (owns : Owns p t p' owner staged x x') (like : s.Like v frames' s')
      (opens : Opens (staged && s.engine.exists) frames frames')
      (stacked : Stacked p t p' v s.engine.exists frames owners ps ps') :
      Sim p t p' v (s.throwTo r x ps) (owner :: owners) (s'.throwTo r x' ps')
  | faulted {s s' : Machine} {owners : List String} {f : Fault} (mode : s.mode = .throwing (.fault f))
      (mode' : s'.mode = .throwing (.fault f)) (heap : s'.heap = s.heap)
      (statics : s'.statics = s.statics) (console : s'.console = s.console)
      (length : s'.pending.length = s.pending.length) : Sim p t p' v s owners s'

theorem Stacked.length {p p' : Program} {t : RestoreTable} {v : Veil} {active : Bool}
    {frames : List (List Value)} {owners : List String} {ps ps' : List Pending}
    (h : Stacked p t p' v active frames owners ps ps') : ps'.length = ps.length := by
  induction h with
  | nil => rfl
  | waits _ _ _ ih => rw [List.length_cons, List.length_cons, ih]
  | body _ ih => rw [List.length_cons, List.length_cons, ih]
  | discard _ ih => rw [List.length_cons, List.length_cons, ih]

/-- where no coroutine runs, none ran at the beginning -/
theorem Stacked.kept {p p' : Program} {t : RestoreTable} {v : Veil} {active : Bool}
    {frames : List (List Value)} {owners : List String} {ps ps' : List Pending}
    (h : Stacked p t p' v active frames owners ps ps') (hactive : active = false) :
    v.kept = none := by
  induction h with
  | nil => exact Option.isNone_iff_eq_none.1 (Option.isSome_eq_false_iff.1 hactive)
  | waits _ _ _ ih => exact ih hactive
  | body _ ih => exact ih rfl
  | discard _ ih => exact ih hactive

/-! ## what both sides agree on -/

/-- a program and what became of it, run with the built-in methods -/
structure Paired (p : Program) (t : RestoreTable) (p' : Program) (hosts hosts' : List HostMethod) :
    Prop where
  rewritten : Rewritten p t p'
  alike : HostsAlike hosts hosts'
  supplies : (⟨p', hosts'⟩ : World).Supplies
  /-- the labels of no analyzed method run out of numbers -/
  fits : ∀ owner m a, p.method? (m.id owner) = some m →
    Analysis.ofTable? p t owner m = .ok (some a) → LabelsFit m (newLabels (sitesOf a m.nextLabel))

/-- the operands of a call that is about to be made, and whose callee is not woven, are what its frame
says -/
def OperandsAdmitted (p : Program) (t : RestoreTable) (p' : Program) (h : Heap) (owner : String)
    (x : Activation) : Prop :=
  ∀ a m' s f d shape, Analysis.ofTable? p t owner x.method = .ok (some a) →
    p'.method? (x.method.id owner) = some m' → weaveMethod a x.method = .ok m' →
    s ∈ sitesOf a x.method.nextLabel → s.position = x.position → s.unpatchable = true →
    s.frame = some f → MethodDesc.parse? s.callee.desc = some d →
    CallShape.of? s.kind d f = some shape → Windowed p h shape.window x.stack

/-- what is asked of a run before each step: at most one coroutine runs, which has nothing saved and is
not being suspended, the program does not call methods of storage itself, and operands are what frames
say -/
structure Plain (p : Program) (t : RestoreTable) (p' : Program) (hosts : List HostMethod) (m : Machine)
    (owners : List String) : Prop where
  fresh : m.engine.Fresh
  storage : ∀ c n, m.mode = .calling c →
    (⟨p, hosts⟩ : World).target? m.heap c = some (.native n) → n.isStorage = false
  operands : ∀ x rest owner os, m.mode = .executing → m.pending = .activation x :: rest →
    owners = owner :: os → m.engine.active ≠ [] → OperandsAdmitted p t p' m.heap owner x

section
variable {p p' : Program} {t : RestoreTable} {hosts hosts' : List HostMethod} {v : Veil}
  {s s' : Machine} {owner : String} {owners : List String} {frames frames' : List (List Value)}
  {x x' : Activation} {ps ps' : List Pending}

/-! ## instructions -/

/-- the operands of a woven call are admitted -/
theorem OperandsAdmitted.window {m m' : Method} (k : WovenMethod p t p' owner m m') {b : Block}
    {y : Around} (h : OperandsAdmitted p t p' s.heap owner x) (hx : x.method = m)
    (hb : k.layout.blocks[x.position]? = some b) (hy : b.around = some y)
    (hu : y.site.unpatchable = true) : Windowed p s.heap y.shape.window x.stack := by
  obtain ⟨hmem, hposition, hframe, -, -⟩ := k.lays.site_of_around hb hy
  rcases k.lays.blocks.block hb with ⟨hnone, -⟩ | ⟨z, hz, hfits⟩
  · exact absurd (hnone.symm.trans hy) (by simp)
  · obtain rfl : z = y := Option.some.inj (hz.symm.trans hy)
    obtain ⟨d, hd, hshape⟩ := hfits.shape
    subst hx
    exact h k.analysis m' z.site z.frame d z.shape k.analyzed k.found' k.weaves hmem hposition hu
      hframe hd hshape

/-- the call that an instruction makes is the one that it names -/
theorem calls_of_exec {i : Insn} {h h' : Heap} {g g' : Bindings} {y : Activation} {c : Call}
    (hi : x.method.code[x.position]? = some i)
    (hrun : (i.exec p).run ⟨h, g, x⟩ = (.ok (.call c), ⟨h', g', y⟩)) : x.Calls := by
  have hfits := Insn.exec_fits (p := p) _ _ _ hrun
  exact ⟨c.kind, c.method, by rw [hi, show i = _ from hfits]⟩

/-- nothing is put around an instruction that makes no call -/
theorem WovenMethod.around_none {m m' : Method} (k : WovenMethod p t p' owner m m') {n : Nat}
    {b : Block} {scope scope' : Scope} {o : After} (hb : k.layout.blocks[n]? = some b)
    (hrun : (b.own.exec p).run scope = (.ok o, scope')) (ho : ∀ c, o ≠ .call c) :
    b.around = none := by
  cases hy : b.around with
  | none => rfl
  | some y =>
    obtain ⟨-, -, -, -, hown⟩ := k.lays.site_of_around hb hy
    rw [hown] at hrun
    have hgives : Exec.Gives ((Insn.invoke y.site.kind y.site.callee).exec p)
        fun o => ∃ c, o = .call c := .bind fun c => .pure ⟨c, rfl⟩
    obtain ⟨c, hc⟩ := hgives _ _ _ hrun
    exact absurd hc (ho c)

/-- both sides after an instruction that threw -/
theorem Sim.of_error (s s' : Machine) {staged : Bool} {y y' : Activation} {th : Throw} {h : Heap}
    {g : Bindings}
    (owns : Owns p t p' owner staged y y') (hlike : s.Like v frames' s')
    (opens : Opens (staged && s.engine.exists) frames frames')
    (stacked : Stacked p t p' v s.engine.exists frames owners ps ps') :
    Sim p t p' v
      { s with heap := h, statics := g, pending := .activation y :: ps, mode := .throwing th }
      (owner :: owners)
      { s' with heap := h, statics := g, pending := .activation y' :: ps', mode := .throwing th } := by
  cases th with
  | fault f => exact .faulted rfl rfl rfl rfl hlike.console (by simp [stacked.length])
  | exception r =>
    have hboth : ({ s with heap := h, statics := g } : Machine).Like v frames'
        { s' with heap := h, statics := g } := ⟨rfl, rfl, hlike.console, hlike.engine⟩
    exact .thrown owns hboth opens stacked

/-- both sides after an instruction that makes a call -/
theorem Sim.of_call (s s' : Machine) {staged : Bool} {y y' : Activation} {c : Call} {h : Heap}
    {g : Bindings}
    (owns : Owns p t p' owner staged y y') (calls : y.Calls) (hlike : s.Like v frames' s')
    (opens : Opens (staged && s.engine.exists) frames frames')
    (stacked : Stacked p t p' v s.engine.exists frames owners ps ps') :
    Sim p t p' v
      { s with heap := h, statics := g, pending := .activation y :: ps, mode := .calling c }
      (owner :: owners)
      { s' with heap := h, statics := g, pending := .activation y' :: ps', mode := .calling c } :=
  .waiting ⟨rfl, rfl, hlike.console, hlike.engine⟩ (.waits ⟨owns, calls⟩ opens stacked) rfl (by simp)
    (by simp)

/-- both sides after the end of a method -/
theorem Sim.of_finish (s s' : Machine) {r : Option Value} {h : Heap} {g : Bindings}
    (hlike : s.Like v frames s')
    (stacked : Stacked p t p' v s.engine.exists frames owners ps ps') :
    Sim p t p' v { s with heap := h, statics := g, pending := ps, mode := .returning r } owners
      { s' with heap := h, statics := g, pending := ps', mode := .returning r } :=
  .waiting ⟨rfl, rfl, hlike.console, hlike.engine⟩ stacked rfl (by simp) (by simp)

/-- both sides after a fault of the uppermost activation -/
theorem Sim.of_fault (s s' : Machine) {f : Fault} {h : Heap} {g : Bindings}
    (hlike : s.Like v frames s')
    (stacked : Stacked p t p' v s.engine.exists frames owners ps ps') {os : List String} :
    Sim p t p' v (({ s with heap := h, statics := g, pending := ps } : Machine).fault f) os
      (({ s' with heap := h, statics := g, pending := ps' } : Machine).fault f) :=
  .faulted rfl rfl rfl rfl hlike.console stacked.length

/-- **An instruction of a method that is kept** -/
theorem Sim.step_kept (hpair : Paired p t p' hosts hosts')
    (keeps : p'.method? (x.method.id owner) = some x.method) (hlike : s.Like v frames s')
    (stacked : Stacked p t p' v s.engine.exists frames owners ps ps') :
    ∃ m'', Machine.Reaches ⟨p', hosts'⟩ (s'.goOn x ps') m'' ∧
      Sim p t p' v ((s.goOn x ps).step ⟨p, hosts⟩)
        ((s.goOn x ps).ownersAfter ⟨p, hosts⟩ (owner :: owners)) m'' := by
  refine ⟨_, .of_step rfl, ?_⟩
  cases hi : x.method.code[x.position]? with
  | none =>
    have hstep (w : World) (s : Machine) (ps : List Pending) : (s.goOn x ps).step w =
        ({ s with pending := ps } : Machine).fault (.fellOffEnd x.method.name) := by
      show (s.goOn x ps).execute w x ps = _
      unfold Machine.execute
      rw [hi]
      rfl
    rw [hstep, hstep]
    exact .faulted rfl rfl hlike.heap hlike.statics hlike.console stacked.length
  | some i =>
    obtain ⟨k, hk⟩ := Insn.framed_exec (p := p) i
    have hrun := hk s.heap s.statics x
    generalize k s.heap s.statics x.locals x.stack = worked at hrun
    obtain ⟨r, h, g, locals, stack⟩ := worked
    dsimp only at hrun
    have hrun' : (i.exec p').run ⟨s'.heap, s'.statics, x⟩ =
        (r, ⟨h, g, { x with locals, stack }⟩) := by
      rw [hlike.heap, hlike.statics, Insn.exec_program hpair.rewritten.isAssignable]
      exact hrun
    cases r with
    | error th =>
      have hstep : (s.goOn x ps).step ⟨p, hosts⟩ = _ := Machine.step_of_throw hi hrun
      have hstep' : (s'.goOn x ps').step ⟨p', hosts'⟩ = _ := Machine.step_of_throw hi hrun'
      rw [Machine.ownersAfter_same (by rw [hstep]; rfl), hstep, hstep']
      exact .of_error s s' (.kept keeps rfl rfl) hlike rfl stacked
    | ok o =>
      have hstep : (s.goOn x ps).step ⟨p, hosts⟩ = _ := Machine.step_of_run hi hrun
      have hstep' : (s'.goOn x ps').step ⟨p', hosts'⟩ = _ := Machine.step_of_run hi hrun'
      cases o with
      | next =>
        rw [Machine.ownersAfter_same (by rw [hstep]; rfl), hstep, hstep']
        exact .executing (.kept keeps rfl) ⟨rfl, rfl, hlike.console, hlike.engine⟩ stacked
      | jump l =>
        cases hl : positionOf x.method.code l with
        | ok n =>
          have hfollow (m : Machine) (ps : List Pending) :
              m.follow { x with locals, stack } ps (.jump l) =
                m.goOn { x with locals, stack, position := n } ps := by
            unfold Machine.follow
            dsimp only
            rw [hl]
          rw [hfollow] at hstep hstep'
          rw [Machine.ownersAfter_same (by rw [hstep]; rfl), hstep, hstep']
          exact .executing (.kept keeps rfl) ⟨rfl, rfl, hlike.console, hlike.engine⟩ stacked
        | error f =>
          have hfollow (m : Machine) (ps : List Pending) :
              m.follow { x with locals, stack } ps (.jump l) =
                ({ m with pending := ps } : Machine).fault f := by
            unfold Machine.follow
            dsimp only
            rw [hl]
          rw [hstep, hstep', hfollow, hfollow]
          exact .of_fault s s' hlike stacked
      | finish r =>
        rw [Machine.ownersAfter_less (by rw [hstep]; rfl), hstep, hstep']
        exact .of_finish s s' hlike stacked
      | call c =>
        rw [Machine.ownersAfter_same (by rw [hstep]; rfl), hstep, hstep']
        exact .of_call s s' (.kept keeps rfl rfl)
          (show x.Calls from calls_of_exec hi hrun) hlike rfl stacked

/-- **An instruction of a woven method** -/
theorem Sim.step_woven {m m' : Method} {k : WovenMethod p t p' owner m m'} (hx : k.Stands x x' 0)
    (hpair : Paired p t p' hosts hosts') (hlike : s.Like v frames s')
    (hoperands : s.engine.active ≠ [] → OperandsAdmitted p t p' s.heap owner x)
    (stacked : Stacked p t p' v s.engine.exists frames owners ps ps') :
    ∃ m'', Machine.Reaches ⟨p', hosts'⟩ (s'.goOn x' ps') m'' ∧
      Sim p t p' v ((s.goOn x ps).step ⟨p, hosts⟩)
        ((s.goOn x ps).ownersAfter ⟨p, hosts⟩ (owner :: owners)) m'' := by
  obtain ⟨b, hb, hi⟩ := hx.block
  obtain ⟨hown, -⟩ := k.lays.holds_own hb
  obtain ⟨e', opened, hreach, hhides, hopens⟩ := hx.reaches_own (w := ⟨p', hosts'⟩) ps' hb
    hpair.supplies hpair.rewritten.isAssignable hlike fun y hy hu hactive =>
      (hoperands hactive).window k hx.method hb hy hu
  obtain ⟨f, hf, hakin⟩ := hx.frame
  obtain ⟨e, g, hhinted, hflows⟩ := k.sound.flowsFrom hi hf
  obtain ⟨r, h, gs, stack, locals, locals', hexec⟩ := Insn.exec_akin (p := p) (h := s.heap)
    (s := s.statics) { x' with position := k.layout.start x.position + b.ownAt } hflows.applied hx.stack (hakin.unhint hhinted)
  have hrun := hexec.left
  have hrun' : (b.own.exec p').run ⟨s'.heap, s'.statics,
      { x' with position := k.layout.start x.position + b.ownAt }⟩ = (r, ⟨h, gs, { x' with
        position := k.layout.start x.position + b.ownAt, locals := locals', stack }⟩) := by
    rw [hlike.heap, hlike.statics, Insn.exec_program hpair.rewritten.isAssignable]
    exact hexec.right
  have hcode : x.method.code[x.position]? = some b.own := by rw [hx.method]; exact hi
  have hcode' : x'.method.code[k.layout.start x.position + b.ownAt]? = some b.own := by
    rw [hx.method']
    exact hown
  -- the twin after the instruction
  have hstands (ha : Akin m.isStatic f locals locals') : k.Stands { x with locals, stack }
      { x' with position := k.layout.start x.position + b.ownAt, locals := locals', stack }
      b.ownAt := ⟨hx.method, hx.method', rfl, ⟨f, hf, ha⟩, rfl⟩
  have hopened : Machine.Like v opened s { s' with engine := e' } :=
    ⟨hlike.heap, hlike.statics, hlike.console, hhides⟩
  cases r with
  | error th =>
    have hstep : (s.goOn x ps).step ⟨p, hosts⟩ = _ := Machine.step_of_throw hcode hrun
    have hstep' : (({ s' with engine := e' } : Machine).goOn
        { x' with position := k.layout.start x.position + b.ownAt } ps').step ⟨p', hosts'⟩ = _ :=
      Machine.step_of_throw hcode' hrun'
    have hoccupied : b.own.isLabel = false := by
      cases hlabel : b.own with
      | label l =>
        rw [hlabel] at hrun
        exact absurd (show Except.ok After.next = .error th from (Prod.mk.inj hrun).1) (by simp)
      | _ => rfl
    refine ⟨_, hreach.trans (.of_step hstep'), ?_⟩
    rw [Machine.ownersAfter_same (by rw [hstep]; rfl), hstep]
    exact .of_error s { s' with engine := e' } (.woven k hb hoccupied rfl
      (hstands ((hexec.thrown th rfl).hint hhinted))) hopened hopens stacked
  | ok o =>
    have hstep : (s.goOn x ps).step ⟨p, hosts⟩ = _ := Machine.step_of_run hcode hrun
    have hstep' : (({ s' with engine := e' } : Machine).goOn
        { x' with position := k.layout.start x.position + b.ownAt } ps').step ⟨p', hosts'⟩ = _ :=
      Machine.step_of_run hcode' hrun'
    have hakin' := hexec.akin o rfl
    have hfits := Insn.exec_fits (p := p) _ _ _ hrun
    refine ⟨_, hreach.trans (.of_step hstep'), ?_⟩
    cases o with
    | call c =>
      have hinvoke : b.own = .invoke c.kind c.method := hfits
      have hkeeps : e.Keeps g := .of_apply (by rw [hinvoke]; simp) hflows.applied
      rw [Machine.ownersAfter_same (by rw [hstep]; rfl), hstep]
      exact .of_call s { s' with engine := e' } (.woven k hb (by rw [hinvoke]; rfl) rfl
        (hstands ((hakin'.of_locals hkeeps.locals.symm).hint hhinted)))
        (show x.Calls from ⟨c.kind, c.method, by rw [hcode, hinvoke]⟩) hopened hopens stacked
    | next =>
      have hnone := k.around_none hb hrun (by simp)
      rw [Block.stages_none hnone] at hopens
      obtain rfl : opened = frames := hopens
      obtain ⟨g', hg', hakin'⟩ := hakin'.expects (hflows.next hfits)
      rw [Machine.ownersAfter_same (by rw [hstep]; rfl), hstep]
      refine .executing (.woven k ⟨hx.method, hx.method', rfl, ⟨g', hg', hakin'⟩, ?_⟩)
        ⟨rfl, rfl, hlike.console, hhides⟩ stacked
      show k.layout.start x.position + b.ownAt + 1 = k.layout.start (x.position + 1) + 0
      rw [Layout.start_succ hb]
      unfold Block.ownAt Block.code Block.before Block.behind
      rw [hnone]
      rfl
    | jump l =>
      have hnone := k.around_none hb hrun (by simp)
      rw [Block.stages_none hnone] at hopens
      obtain rfl : opened = frames := hopens
      obtain ⟨n, hn, hexpects⟩ := hflows.jumps l hfits
      obtain ⟨g', hg', hakin'⟩ := hakin'.expects hexpects
      have hmem : l ∈ m.labels := Layout.mem_labels_of_code
        (mem_labelsIn.2 (List.mem_of_getElem? (getElem?_of_labelPosition hn)))
      have hn' : labelPosition l m'.code = some (k.layout.start n) := by
        rw [k.lays.labelPosition_own k.fits hmem, hn]
        rfl
      have hfollow (s : Machine) (ps : List Pending) (y : Activation) {n : Nat}
          (hy : labelPosition l y.method.code = some n) :
          s.follow y ps (.jump l) = s.goOn { y with position := n } ps := by
        unfold Machine.follow
        dsimp only
        rw [positionOf_ok hy]
      rw [hfollow _ _ _ (by rw [show x.method = m from hx.method]; exact hn)] at hstep
      rw [hfollow _ _ _ (by rw [show x'.method = m' from hx.method']; exact hn'),
        Machine.ownersAfter_same (by rw [hstep]; rfl), hstep]
      exact .executing (.woven k ⟨hx.method, hx.method', rfl, ⟨g', hg', hakin'⟩, rfl⟩)
        ⟨rfl, rfl, hlike.console, hhides⟩ stacked
    | finish r =>
      have hnone := k.around_none hb hrun (by simp)
      rw [Block.stages_none hnone] at hopens
      obtain rfl : opened = frames := hopens
      rw [Machine.ownersAfter_less (by rw [hstep]; rfl), hstep]
      exact .of_finish s { s' with engine := e' } hopened stacked

/-! ## what is thrown -/

/-- **What is thrown** to an activation -/
theorem Sim.step_thrown {staged : Bool} {r : Ref} (owns : Owns p t p' owner staged x x')
    (hpair : Paired p t p' hosts hosts') (hlike : s.Like v frames' s')
    (opens : Opens (staged && s.engine.exists) frames frames')
    (stacked : Stacked p t p' v s.engine.exists frames owners ps ps') :
    ∃ m'', Machine.Reaches ⟨p', hosts'⟩ (s'.throwTo r x' ps') m'' ∧
      Sim p t p' v ((s.throwTo r x ps).step ⟨p, hosts⟩)
        ((s.throwTo r x ps).ownersAfter ⟨p, hosts⟩ (owner :: owners)) m'' := by
  obtain ⟨r', hreach, hcaught⟩ := owns.caught (w := ⟨p', hosts'⟩) hosts ps ps' r hpair.supplies hpair.rewritten.isAssignable hlike opens
  refine ⟨r', hreach, ?_⟩
  have hstep : (s.throwTo r x ps).step ⟨p, hosts⟩ = s.catchIn ⟨p, hosts⟩ x ps (.exception r) :=
    s.step_throwTo r x ps
  cases hcaught with
  | handled level hides left right =>
    rw [left] at hstep
    subst right
    rw [Machine.ownersAfter_same (by rw [hstep]; rfl), hstep]
    exact .executing level ⟨hlike.heap, hlike.statics, hlike.console, hides⟩ stacked
  | passed hides left right =>
    rw [left] at hstep
    subst right
    rw [Machine.ownersAfter_less (by rw [hstep]; rfl), hstep]
    exact .waiting ⟨hlike.heap, hlike.statics, hlike.console, hides⟩ stacked rfl (by simp) (by simp)
  | failed left right =>
    rw [left] at hstep
    subst right
    rw [hstep]
    exact .faulted rfl rfl hlike.heap hlike.statics hlike.console stacked.length

/-! ## bodies of coroutines -/

theorem Engine.active_leave {β κ : Type} (e : Engine β κ) (id : Nat) (body : β) (finished : Bool) :
    (e.leave id body finished).2.active = e.active.tail := by
  unfold Engine.leave
  dsimp only
  split <;> rfl

theorem Engine.Numbered.leave {β κ : Type} {e : Engine β κ} (h : e.Numbered) (id : Nat) (body : β)
    (finished : Bool) : (e.leave id body finished).2.Numbered := by
  have htail : ({ e with active := e.active.tail } : Engine β κ).Numbered := h
  unfold Engine.leave
  dsimp only
  split
  · rename_i c hc
    have hid : (c.endRun body finished).2.id = id := by
      rw [← h id c hc]
      unfold Coroutine.endRun
      split <;> rfl
    exact htail.put _ (by rw [hid]; exact pos_of_get? hc)
  · exact htail

/-- after the run of a coroutine that ran alone, none runs -/
theorem Hides.leave {e e' : Engine Call Call} (h : Hides v [] e e') (hmark : v.mark = none)
    (hactive : e.exists = true) (hkept : v.kept = none) (id : Nat) (body : Call) (finished : Bool) :
    e' = e ∧ (e.leave id body finished).2.exists = false ∧
      Hides v [] (e.leave id body finished).2 (e.leave id body finished).2 := by
  cases h with
  | idle active _ _ _ _ _ =>
    rw [Engine.exists_of_active_nil active] at hactive
    exact absurd hactive (by simp)
  | @running c runs active kept numbered put =>
    have htail : (e.leave id body finished).2.active = [] := by
      rw [Engine.active_leave, active]
      rfl
    refine ⟨?_, Engine.exists_of_active_nil htail,
      .idle htail rfl hmark hkept (numbered.leave id body finished) rfl⟩
    rw [put, hmark, Option.getD_none, Coroutine.veiled_nil, runs.put_eq]

theorem Machine.leaveBody_some {m : Machine} {id : Nat} {body c : Call} (rest : List Pending)
    {e : Engine Call Call} (h : m.engine.leave id body true = (some c, e)) :
    m.leaveBody id body rest =
      { m with engine := e, pending := .discard :: rest, mode := .calling c } := by
  unfold Machine.leaveBody
  rw [h]

theorem Machine.leaveBody_none {m : Machine} {id : Nat} {body : Call} (rest : List Pending)
    {e : Engine Call Call} (h : m.engine.leave id body true = (none, e)) :
    m.leaveBody id body rest = { m with engine := e, pending := rest, mode := .returning none } := by
  unfold Machine.leaveBody
  rw [h]

/-! ## the end of a call -/

/-- where the body of a coroutine is about to end, the mark of the coroutine is its own -/
def Machine.LeavesUnmarked (m : Machine) (v : Veil) : Prop :=
  ∀ id call rest, m.pending = .body id call :: rest →
    (∃ r, m.mode = .returning r) ∨ (∃ t, m.mode = .throwing t) → v.mark = none

/-- **The end of a call** reaches what waits for it -/
theorem Sim.step_returning {r : Option Value} (hpair : Paired p t p' hosts hosts')
    (hmark : s.LeavesUnmarked v) (hlike : s.Like v frames s') (hfresh : s.engine.Fresh)
    (stacked : Stacked p t p' v s.engine.exists frames owners s.pending s'.pending)
    (hmode : s.mode = .returning r) (hmode' : s'.mode = .returning r) :
    ∃ m'', Machine.Reaches ⟨p', hosts'⟩ s' m'' ∧
      Sim p t p' v (s.step ⟨p, hosts⟩) (s.ownersAfter ⟨p, hosts⟩ owners) m'' := by
  obtain ⟨heap, statics, console, engine, pending, mode⟩ := s
  obtain ⟨heap', statics', console', engine', pending', mode'⟩ := s'
  dsimp only at hmode hmode' stacked hfresh
  subst hmode hmode'
  generalize hactive : engine.exists = active at stacked
  cases stacked with
  | nil =>
    refine ⟨_, .refl _ _, ?_⟩
    rw [Machine.ownersAfter_same rfl]
    exact .waiting hlike (hactive ▸ .nil) rfl (by simp [Machine.step]) (by simp [Machine.step])
  | discard rest =>
    refine ⟨_, .of_step rfl, ?_⟩
    rw [Machine.ownersAfter_same rfl]
    exact .waiting ⟨hlike.heap, hlike.statics, hlike.console, hlike.engine⟩ (hactive ▸ rest) rfl
      (by simp [Machine.step, Machine.deliver]) (by simp [Machine.step, Machine.deliver])
  | @body _ ps ps' id call rest =>
    obtain ⟨rfl, hexists, hhides⟩ := hlike.engine.leave (hmark id call ps rfl (.inl ⟨r, rfl⟩)) hactive
      (rest.kept rfl) id call true
    refine ⟨_, .of_step rfl, ?_⟩
    show Sim p t p' v (Machine.leaveBody _ id call ps) _ (Machine.leaveBody _ id call ps')
    generalize hleave : engine'.leave id call true = left at hexists hhides
    obtain ⟨deferred, e⟩ := left
    cases deferred with
    | some c =>
      have hstep (g : Bindings) (h : Heap) (l : List String) (qs ps : List Pending) :=
        Machine.leaveBody_some (m := ⟨h, g, l, engine', qs, .returning r⟩) ps hleave
      rw [Machine.ownersAfter_same (by
        show activations (Machine.leaveBody _ id call ps).pending = _
        rw [hstep]
        rfl), hstep, hstep]
      exact .waiting ⟨hlike.heap, hlike.statics, hlike.console, hhides⟩
        (.discard (hexists ▸ rest)) rfl (by simp) (by simp)
    | none =>
      have hstep (g : Bindings) (h : Heap) (l : List String) (qs ps : List Pending) :=
        Machine.leaveBody_none (m := ⟨h, g, l, engine', qs, .returning r⟩) ps hleave
      rw [Machine.ownersAfter_same (by
        show activations (Machine.leaveBody _ id call ps).pending = _
        rw [hstep]
        rfl), hstep, hstep]
      exact .waiting ⟨hlike.heap, hlike.statics, hlike.console, hhides⟩
        (hexists ▸ rest) rfl (by simp) (by simp)
  | waits waits opens rest =>
    rename_i staged frames owner owners x x' ps ps'
    have hstep (w : World) (h : Heap) (g : Bindings) (l : List String) (e : Engine Call Call)
        (x : Activation) (ps : List Pending) :
        (⟨h, g, l, e, .activation x :: ps, .returning r⟩ : Machine).step w =
          Machine.goOn ⟨h, g, l, e, .activation x :: ps, .returning r⟩
            { x with stack := r.toList ++ x.stack, position := x.position + 1 } ps :=
      Machine.deliver_activation _ r ps x
    rw [Machine.ownersAfter_same (by rw [hstep]; rfl), hstep]
    obtain ⟨kind, id, hcalls⟩ := waits.calls
    cases waits.owns with
    | kept keeps closed same =>
      subst closed same
      obtain rfl : _ = frames := opens
      refine ⟨_, .of_step (hstep _ _ _ _ _ _ _), ?_⟩
      exact .executing (.kept keeps rfl) hlike (hactive ▸ rest)
    | @woven m m' k b block occupied stages stands =>
      subst stages
      have hi := k.lays.own block
      have hown : b.own = .invoke kind id := by
        rw [stands.method, hi] at hcalls
        exact Option.some.inj hcalls
      obtain ⟨f, hf, hakin⟩ := stands.frame
      obtain ⟨e, g, hhinted, hflows⟩ := k.sound.flowsFrom hi hf
      have hkeeps : e.Keeps g := .of_apply (by rw [hown]; simp) hflows.applied
      obtain ⟨g', hg', hakin'⟩ := ((hakin.unhint hhinted).of_locals hkeeps.locals).expects
        (hflows.next (by rw [hown]; rfl))
      obtain ⟨e', hreach, hhides⟩ := stands.reaches_next (w := ⟨p', hosts'⟩) ps'
        { x' with stack := r.toList ++ x'.stack, position := x'.position + 1 } block
        hpair.supplies hlike (hactive ▸ opens) hfresh stands.method' rfl
      refine ⟨_, (Machine.Reaches.of_step (hstep _ _ _ _ _ _ _)).trans hreach, ?_⟩
      exact .executing (.woven k ⟨stands.method, stands.method', by rw [stands.stack],
        ⟨g', hg', hakin'⟩, rfl⟩) ⟨hlike.heap, hlike.statics, hlike.console, hhides⟩ (hactive ▸ rest)

/-- **What is thrown** reaches what waits for a call -/
theorem Sim.step_throwing {r : Ref} (hpair : Paired p t p' hosts hosts') (hmark : s.LeavesUnmarked v)
    (hlike : s.Like v frames s')
    (stacked : Stacked p t p' v s.engine.exists frames owners s.pending s'.pending)
    (hmode : s.mode = .throwing (.exception r)) (hmode' : s'.mode = .throwing (.exception r)) :
    ∃ m'', Machine.Reaches ⟨p', hosts'⟩ s' m'' ∧
      Sim p t p' v (s.step ⟨p, hosts⟩) (s.ownersAfter ⟨p, hosts⟩ owners) m'' := by
  obtain ⟨heap, statics, console, engine, pending, mode⟩ := s
  obtain ⟨heap', statics', console', engine', pending', mode'⟩ := s'
  dsimp only at hmode hmode' stacked
  subst hmode hmode'
  generalize hactive : engine.exists = active at stacked
  cases stacked with
  | nil =>
    refine ⟨_, .refl _ _, ?_⟩
    rw [Machine.ownersAfter_same rfl]
    exact .waiting hlike (hactive ▸ .nil) rfl (by simp [Machine.step]) (by simp [Machine.step])
  | discard rest =>
    refine ⟨_, .of_step rfl, ?_⟩
    rw [Machine.ownersAfter_same rfl]
    exact .waiting ⟨hlike.heap, hlike.statics, hlike.console, hlike.engine⟩ (hactive ▸ rest) rfl
      (by simp [Machine.step, Machine.unwind]) (by simp [Machine.step, Machine.unwind])
  | @body _ ps ps' id call rest =>
    obtain ⟨rfl, hexists, hhides⟩ := hlike.engine.leave (hmark id call ps rfl (.inr ⟨_, rfl⟩)) hactive
      (rest.kept rfl) id call false
    refine ⟨_, .of_step rfl, ?_⟩
    rw [Machine.ownersAfter_same rfl]
    exact .waiting ⟨hlike.heap, hlike.statics, hlike.console, hhides⟩ (hexists ▸ rest) rfl
      (by simp [Machine.step, Machine.unwind, Machine.abandonBody])
      (by simp [Machine.step, Machine.unwind, Machine.abandonBody])
  | waits waits opens rest =>
    have hboth : Machine.Like v _ ⟨heap, statics, console, engine, [], .executing⟩
        ⟨heap', statics', console', engine', [], .executing⟩ :=
      ⟨hlike.heap, hlike.statics, hlike.console, hlike.engine⟩
    exact Sim.step_thrown waits.owns hpair hboth (hactive ▸ opens) (hactive ▸ rest)

/-! ## calls -/

/-- **A built-in method** that leaves storage alone -/
theorem Sim.step_native {n : Native} {args : List Value} (hn : n.isStorage = false)
    (hlike : s.Like v frames s') (hfresh : (s.runNative n args).engine.Fresh)
    (stacked : Stacked p t p' v s.engine.exists frames owners s.pending s'.pending) :
    Sim p t p' v (s.runNative n args) owners (s'.runNative n args) ∧
      activations (s.runNative n args).pending = activations s.pending := by
  obtain ⟨r, h, l, e, e', hrun, hrun', hhides⟩ := Native.follows hn args s s' hlike
  have hactive := Native.active_perform hrun
  unfold Machine.runNative at hfresh ⊢
  rw [hrun] at hfresh ⊢
  rw [hrun']
  have hafter : e.Fresh := by
    cases r with
    | error th => exact hfresh
    | ok performed => cases performed <;> exact hfresh
  have hsame (hsteady : e.active = s.engine.active) : e.exists = s.engine.exists := by
    unfold Engine.exists
    rw [hsteady]
  cases r with
  | error th =>
    have hexists : e.exists = s.engine.exists := hsame (hactive.elim
      (fun ⟨_, _, h, _⟩ => absurd h (by simp)) And.right)
    cases th with
    | fault f => exact ⟨.faulted rfl rfl rfl hlike.statics rfl stacked.length, rfl⟩
    | exception r =>
      exact ⟨.waiting ⟨rfl, hlike.statics, rfl, hhides hafter (by simp)⟩ (hexists ▸ stacked) rfl
        (by simp [Machine.answer]) (by simp [Machine.answer]), rfl⟩
  | ok performed =>
    replace hhides : Hides v frames e e' := hhides hafter (by simp)
    cases performed with
    | result r =>
      have hexists : e.exists = s.engine.exists := hsame (hactive.elim
        (fun ⟨_, _, h, _⟩ => absurd h (by simp)) And.right)
      exact ⟨.waiting ⟨rfl, hlike.statics, rfl, hhides⟩ (hexists ▸ stacked) rfl
        (by simp [Machine.answer]) (by simp [Machine.answer]), rfl⟩
    | body id c =>
      obtain ⟨id', c', -, hnew⟩ := hactive.resolve_right fun h => h.1 id c rfl
      have hidle : s.engine.active = [] := by
        rcases hafter with hnil | ⟨d, -, hone, -, -⟩
        · exact absurd (hnew.symm.trans hnil) (by simp)
        · exact (List.cons.inj (hnew.symm.trans hone)).2
      have hexists : e.exists = true := by
        unfold Engine.exists
        rw [show e.active = id' :: s.engine.active from hnew]
        rfl
      rw [Engine.exists_of_active_nil hidle] at stacked
      obtain rfl := hlike.engine.closed hidle
      exact ⟨.waiting ⟨rfl, hlike.statics, rfl, hhides⟩ (hexists ▸ .body stacked) rfl
        (by simp [Machine.callBody]) (by simp [Machine.callBody]), rfl⟩

/-- **A method of the program** starts -/
theorem Sim.step_entry {m m' : Method} (args : List Value) (hpair : Paired p t p' hosts hosts')
    (hlike : s.Like v frames s') (hfresh : s.engine.Fresh)
    (stacked : Stacked p t p' v s.engine.exists frames owners s.pending s'.pending)
    (found : p.method? (m.id owner) = some m) (found' : p'.method? (m.id owner) = some m')
    (instrumented : Instrumented p t owner m m') :
    ∃ m'', Machine.Reaches ⟨p', hosts'⟩ (s'.enter args (.code m')) m'' ∧
      Sim p t p' v (s.enter args (.code m)) (owner :: owners) m'' := by
  rcases instrumented.woven_or_kept found' fun a ha => hpair.fits owner m a found ha with
    rfl | ⟨⟨k⟩⟩
  · exact ⟨_, .refl _ _, .executing (.kept found' rfl) hlike stacked⟩
  · exact ⟨_, (k.lays.passes_body k.fits hpair.supplies (hlike.engine.entered hfresh) rfl rfl).reaches,
      .executing (.woven k (k.stands_entry args)) hlike stacked⟩

/-- a built-in method that is called next is the same one among other host methods -/
def Machine.FindsSame (w : World) (hosts' : List HostMethod) (m : Machine) : Prop :=
  ∀ c id n n', m.mode = .calling c → w.target? m.heap c = some (.native n) →
    Native.find? w.hosts id = some n → Native.find? hosts' id = some n' → n' = n

theorem Machine.findsSame_self (w : World) (m : Machine) : m.FindsSame w w.hosts :=
  fun _ _ _ _ _ _ found found' => Option.some.inj (found'.symm.trans found)

/-- **A call** -/
theorem Sim.step_calling {c : Call} (hpair : Paired p t p' hosts hosts')
    (hfinds : s.FindsSame ⟨p, hosts⟩ hosts') (hlike : s.Like v frames s')
    (hfresh : s.engine.Fresh) (hafter : (s.step ⟨p, hosts⟩).engine.Fresh)
    (hstorage : ∀ n, (⟨p, hosts⟩ : World).target? s.heap c = some (.native n) → n.isStorage = false)
    (stacked : Stacked p t p' v s.engine.exists frames owners s.pending s'.pending)
    (hmode : s.mode = .calling c) (hmode' : s'.mode = .calling c) :
    ∃ m'', Machine.Reaches ⟨p', hosts'⟩ s' m'' ∧
      Sim p t p' v (s.step ⟨p, hosts⟩) (s.ownersAfter ⟨p, hosts⟩ owners) m'' := by
  have hstep (w : World) (s : Machine) (hs : s.mode = .calling c) : s.step w = s.call w c := by
    unfold Machine.step
    rw [hs]
  have hcall := hpair.rewritten.call hpair.alike s s' hlike.heap c
  rw [hstep _ s hmode] at hafter
  rcases hcall with ⟨x, x', htarget, hx, hx', hsame⟩ | ⟨f, hf, hf'⟩ | ⟨type, message, ht, ht'⟩
  · cases hsame with
    | @native id n n' found found' =>
      obtain rfl : n' = n := hfinds c id n n' hmode htarget found found'
      rw [hx] at hafter
      obtain ⟨hsim, hdepth⟩ := Sim.step_native (hstorage n' htarget) hlike hafter stacked
      refine ⟨_, .of_step ((hstep _ s' hmode').trans hx'), ?_⟩
      rw [Machine.ownersAfter_same (by rw [hstep _ s hmode, hx]; exact hdepth), hstep _ s hmode, hx]
      exact hsim
    | @code owner m m' defined found found' instrumented =>
      obtain ⟨m'', hreach, hsim⟩ := Sim.step_entry c.args hpair hlike hfresh stacked found
        found' instrumented
      refine ⟨m'', (Machine.Reaches.of_step ((hstep _ s' hmode').trans hx')).trans hreach, ?_⟩
      rw [Machine.ownersAfter_call hmode (by rw [hstep _ s hmode, hx]; rfl), hstep _ s hmode, hx,
        defined]
      exact hsim
  · refine ⟨_, .of_step ((hstep _ s' hmode').trans hf'), ?_⟩
    rw [hstep _ s hmode, hf]
    exact .faulted rfl rfl hlike.heap hlike.statics hlike.console stacked.length
  · refine ⟨_, .of_step ((hstep _ s' hmode').trans ht'), ?_⟩
    rw [Machine.ownersAfter_same (by rw [hstep _ s hmode, ht]; rfl), hstep _ s hmode, ht]
    unfold Machine.throwNew
    rw [hlike.heap]
    exact .waiting ⟨rfl, hlike.statics, hlike.console, hlike.engine⟩ stacked rfl (by simp) (by simp)

/-! ## one step -/

/-- **One step** of the program is some steps of the rewritten program -/
theorem Sim.step {m m' : Machine} (h : Sim p t p' v m owners m') (hpair : Paired p t p' hosts hosts')
    (hfinds : m.FindsSame ⟨p, hosts⟩ hosts') (hmark : m.LeavesUnmarked v) (hplain : Plain p t p' hosts m owners)
    (hafter : (m.step ⟨p, hosts⟩).engine.Fresh) :
    ∃ m'', Machine.Reaches ⟨p', hosts'⟩ m' m'' ∧
      Sim p t p' v (m.step ⟨p, hosts⟩) (m.ownersAfter ⟨p, hosts⟩ owners) m'' := by
  cases h with
  | executing level like stacked =>
    cases level with
    | kept keeps same =>
      subst same
      exact Sim.step_kept hpair keeps like stacked
    | woven k stands =>
      exact Sim.step_woven stands hpair like
        (fun hactive => hplain.operands _ _ _ _ rfl rfl rfl hactive) stacked
  | thrown owns like opens stacked => exact Sim.step_thrown owns hpair like opens stacked
  | faulted mode mode' heap statics console length =>
    obtain ⟨h1, h2, h3, h4, h5⟩ := Machine.step_fault (w := ⟨p, hosts⟩) mode
    obtain ⟨h1', h2', h3', h4', h5'⟩ := Machine.step_fault (w := ⟨p', hosts'⟩) mode'
    refine ⟨_, .of_step rfl, .faulted h1 h1' ?_ ?_ ?_ ?_⟩
    · rw [h2, h2', heap]
    · rw [h3, h3', statics]
    · rw [h4, h4', console]
    · rw [h5, h5', List.length_tail, List.length_tail, length]
  | waiting like stacked mode waits goes =>
    cases hm : m.mode with
    | executing => exact absurd hm waits
    | calling c =>
      exact Sim.step_calling hpair hfinds like hplain.fresh hafter (fun n => hplain.storage c n hm) stacked hm
        (mode.trans hm)
    | returning r => exact Sim.step_returning hpair hmark like hplain.fresh stacked hm (mode.trans hm)
    | throwing th =>
      cases th with
      | fault f => exact absurd hm (goes f)
      | exception r => exact Sim.step_throwing hpair hmark like stacked hm (mode.trans hm)

end

end Resumable
