import Resumable.Proofs.Chains

/-!
# Unwinding a chain of calls

A call that asks for a suspension returns through the activations of its chain, and each of them saves its level.
When the body of the coroutine is called again, each activation is entered again, restores its level and makes
its call again, down to the one that asked.  It is then as if nothing had happened: each activation has its
operands back and its locals, wherever its frame says that there are values.

* `WovenMethod.Saves` : an activation of the chain, its twin, and the code around its call;
* `WovenMethod.Saves.reaches_left` : the level is saved;
* `WovenMethod.Saves.reaches_again` : the level is restored;
* `Suspends`, `Chain.suspends` : the chain.
-/

namespace Resumable

open Category (Reading)

variable {p p' : Program} {t : RestoreTable} {owner : String} {m m' : Method}

/-! ## activations of woven methods -/

/-- a woven method is not the method -/
theorem weaveMethod_ne {a : Analysis} (hinsns : a.insns = m.code) (h : weaveMethod a m = .ok m') : m' ≠ m := by
  rintro rfl
  obtain ⟨l, hl, -⟩ := weaveMethod_ok hinsns h
  have hlong : l.blocks.length ≤ (l.blocks.flatMap (Block.code a l.ret)).length := by
    rw [List.length_flatMap]
    refine Nat.le_trans (Nat.le_of_eq (List.length_map fun b => (b.code a l.ret).length).symm) ?_
    refine List.length_le_sum_of_one_le _ fun n hn => ?_
    obtain ⟨b, -, rfl⟩ := List.mem_map.1 hn
    unfold Block.code
    rw [List.length_append, List.length_cons]
    omega
  have hcode := congrArg List.length hl.code_eq
  have hprologue : 0 < l.prologue.length := by
    rw [Layout.prologue_eq, List.length_append]
    exact Nat.add_pos_right _ (Nat.zero_lt_succ 2)
  rw [Layout.code, List.length_append, ← hl.length_blocks] at hcode
  omega

namespace WovenMethod

/-- An activation whose level can be saved, its twin, and the code around its call.  An instance method has the
object that it is called on in its first local. -/
structure Saves (k : WovenMethod p t p' owner m m') (h : Heap) (x x' : Activation) (b : Block) (y : Around)
    (r : Ref) (q : Option Ref) : Prop where
  stands : k.Stands x x' b.ownAt
  block : k.layout.blocks[x.position]? = some b
  around : b.around = some y
  savable : Savable p t p' h owner x k.analysis y.site y.frame y.shape r
  first : m.isStatic = false → x.locals[0]? = some (.ref q)

/-- locals at the start of the woven method are as many as its frames have -/
theorem length_entry (k : WovenMethod p t p' owner m m') {args : List Value} (hargs : m.Accepts args) {n : Nat}
    {f : Frame} (hf : k.analysis.frames[n]? = some (some f)) :
    f.locals.length = (Activation.entry m' args).locals.length := by
  obtain ⟨desc, handlers, fs, hdesc, -, hsettled, hhinted⟩ := k.sound.settled
  obtain ⟨e, he, hef⟩ := hhinted.hinted n f hf
  rw [hef.length, (hsettled.sound n e he).length, k.locals_entry,
    (Frame.reads_entry (hargs.holds hdesc owner)).locals.length_eq]

namespace Saves

variable {k : WovenMethod p t p' owner m m'} {h : Heap} {x x' : Activation} {b : Block} {y : Around} {r : Ref}
  {q : Option Ref} {w : World} {s : Machine} {c : Coroutine Call Call} {S : Storage} {rest : List Pending}

theorem akin (hx : k.Saves h x x' b y r q) : Akin m.isStatic y.frame x.locals x'.locals := by
  obtain ⟨f, hf, hakin⟩ := hx.stands.frame
  obtain rfl : f = y.frame := by simpa using hf.symm.trans hx.savable.stands.2
  exact hakin

/-- the twin has the same locals wherever the frame says that there are values -/
theorem live (hx : k.Saves h x x' b y r q) : SameLive y.frame.locals 0 x.locals x'.locals := by
  rcases hx.akin with hsame | hagree
  · rw [hsame]
    exact fun _ _ _ _ _ => rfl
  · exact hagree.live

theorem first' (hx : k.Saves h x x' b y r q) (hm : m.isStatic = false) : x'.locals[0]? = some (.ref q) := by
  rw [← hx.first hm]
  rcases hx.akin with hsame | hagree
  · rw [hsame]
  · exact hagree.first hm

/-- what is saved and restored -/
def level (_ : k.Saves h x x' b y r q) (S : Storage) : LevelData :=
  ⟨x'.locals, (y.site.callAgain y.shape r).args, x.stack, some r, S⟩

/-- the twin conforms to the frame of the call -/
theorem conforms (hx : k.Saves h x x' b y r q) :
    y.frame.Conforms p h x'.locals ((y.site.callAgain y.shape r).args.reverse ++ x.stack) := by
  have hstack : List.Forall₂ (Category.Admits p h) y.frame.stack
      ((y.site.callAgain y.shape r).args.reverse ++ x.stack) := by
    rw [hx.savable.cuts.stack]
    exact List.rel_append (List.rel_reverse hx.savable.reads_again) hx.savable.below
  obtain ⟨hlen, hall⟩ := Frame.forall₂_iff.1 hstack
  refine ⟨fun i d hd => ?_, hlen.symm, hall⟩
  obtain ⟨v, hv, hadmits⟩ := hx.savable.locals i d hd
  rcases hx.akin with hsame | hagree
  · rw [hsame]
    exact ⟨v, hv, hadmits⟩
  · cases hk : d.kind? with
    | some l =>
      have hlive := hagree.live i d l hd hk
      rw [Nat.zero_add] at hlive
      exact ⟨v, hlive.trans hv, hadmits⟩
    | none =>
      have hlt : i < x'.locals.length :=
        Nat.lt_of_lt_of_le (List.getElem?_eq_some_iff.1 hd).1 hagree.fits'
      exact ⟨_, List.getElem?_eq_getElem hlt, Reading.free hk⟩

/-- what an instance method is called on is in its first local when it starts -/
theorem first_entry (hx : k.Saves h x x' b y r q) {args : List Value}
    (hself : m.isStatic = false → args.head? = some (.ref q)) (hm : m.isStatic = false) :
    (Activation.entry m' args).locals[0]? = x.locals[0]? := by
  rw [hx.first hm]
  obtain ⟨vs, rfl⟩ := List.head?_eq_some_iff.1 (hself hm)
  rfl

/-- the level can be saved and restored -/
theorem ok (hx : k.Saves h x x' b y r q) (hpr : ∀ a b, w.program.isAssignable a b = p.isAssignable a b)
    (S : Storage) : (hx.level S).Ok w.program h k.analysis y.site y.frame y.shape := by
  refine ⟨hx.conforms.program hpr, hx.savable.reads_again.length_eq.symm, fun hu => ?_, fun hm => ⟨q, ?_⟩,
    fun _ d hd => ⟨?_, (hx.savable.receiver d hd).program hpr⟩⟩
  · exact absurd (hu.symm.trans hx.savable.patchable) (by simp)
  · exact hx.first' (k.sound.isStatic ▸ hm)
  · have hreceiver : y.shape.hasReceiver = true := by
      rw [← hx.savable.cuts.receiver, hd]
      rfl
    unfold level Site.callAgain
    rw [hreceiver]
    simp [Value.null]

end Saves

end WovenMethod

/-- a method ends with the zero of its result -/
def Call.EndsWithZero (c : Call) (v : Option Value) : Prop :=
  ∀ d, MethodDesc.parse? c.method.desc = some d → v = (d.ret.map FieldType.kind).map Value.zero

namespace WovenMethod.Saves

variable {k : WovenMethod p t p' owner m m'} {h : Heap} {x x' : Activation} {b : Block} {y : Around} {r : Ref}
  {q : Option Ref} {w : World} {s : Machine} {c : Coroutine Call Call} {S : Storage} {rest : List Pending}

/-! ## saving a level -/

/-- **The level is saved** when the call returns, and the activation ends -/
theorem reaches_left (hx : k.Saves h x x' b y r q) (hw : w.Supplies)
    (hpr : ∀ a b, w.program.isAssignable a b = p.isAssignable a b) (hcount : k.Countable) {v : Option Value}
    (hc : s.engine.Runs c) (hyield : c.yielding = true)
    (hstorage : c.storage = S.putAll ((y.site.callAgain y.shape r).left false))
    (hv : (y.site.callAgain y.shape r).EndsWithZero v) (hmode : s.mode = .returning v)
    (hp : s.pending = .activation x' :: rest) :
    ∃ mark, Machine.Reaches w s
      { s.put { c with
          states := Int32.ofNat y.site.index :: c.states
          storage := ((hx.level S).saved y.site y.frame y.shape).putAll
            (companions m.isStatic k.analysis.rootEntry x'.locals)
          companionOnTop := mark } with
        pending := rest, mode := .returning (k.layout.ret.map Value.zero) } := by
  have hd := hx.ok hpr S
  obtain ⟨hcuts, n, hsound⟩ := WovenMethod.Guided.cuts k hx.block hx.around
  obtain ⟨hfst, hsnd⟩ := map_zip (hd.height hcuts)
  obtain ⟨-, hbelow⟩ := hd.admitted hcuts hsound.loaded
  -- on to the save block
  have hdeliver : s.step w = s.goOn { x' with
      stack := v.toList ++ x'.stack, position := k.layout.start x.position + (y.ownAt + 1) } rest := by
    have hstep : s.step w = s.deliver v rest (.activation x') := by
      unfold Machine.step
      rw [hmode, hp]
    rw [hstep, Machine.deliver_activation, hx.stands.position, Block.ownAt_some hx.around]
    rfl
  have hafter : Machine.Passes w k.layout.Between (s.goOn { x' with
      stack := v.toList ++ x'.stack, position := k.layout.start x.position + (y.ownAt + 1) } rest) _ :=
    k.lays.passes_after k.fits hx.block hx.around hx.stands.method' rfl
  have hasked : Machine.Passes w k.layout.Between (s.goOn { x' with
      stack := v.toList ++ x'.stack, position := k.layout.start x.position + (y.afterAt + 1) } rest) _ :=
    k.lays.passes_suspending hw hx.block hx.around (by rw [hc.isYielding_eq]; exact hyield)
      hx.stands.method' rfl
  -- the save block
  have hresult : ResultFits y.shape.result v.toList := by
    obtain ⟨d, hdesc, hshape⟩ := hx.savable.shaped
    rw [hv d hdesc, (CallShape.of?_ok hshape).2]
    cases d.ret with
    | none => rfl
    | some u => exact ⟨_, rfl, Value.kind?_zero _⟩
  have hunder : c.storage = if y.shape.hasReceiver then S.pushRef (some r) else S := by
    rw [hstorage, Site.left_callAgain r hx.savable.hasReceiver]
    split <;> rfl
  have hleft : c.leaving (keptOf ((hx.level S).belowEntries y.shape) ++ keptLocals x'.locals 0 y.frame.locals)
      (Int32.ofNat y.site.index) (companions k.analysis.isStatic k.analysis.rootEntry x'.locals) =
      { c with
        states := Int32.ofNat y.site.index :: c.states
        storage := ((hx.level S).saved y.site y.frame y.shape).putAll
          (companions m.isStatic k.analysis.rootEntry x'.locals)
        companionOnTop := !(companions m.isStatic k.analysis.rootEntry x'.locals).isEmpty } := by
    unfold Coroutine.leaving LevelData.saved
    rw [hx.savable.patchable, hunder, k.sound.isStatic]
    rfl
  refine ⟨!(companions m.isStatic k.analysis.rootEntry x'.locals).isEmpty,
    ((Machine.Reaches.of_step hdeliver).trans (hafter.trans hasked).reaches).trans ?_⟩
  rw [← hleft]
  exact Machine.reaches_saved rest v.toList [] hw hc
    (by
      show Holds x'.method.code _ _
      rw [hx.stands.method']
      exact k.lays.holds_save hx.block hx.around)
    hfst hbelow.operands
    (by
      show v.toList ++ x'.stack = _
      rw [hx.stands.stack, List.append_nil]
      exact congrArg _ hsnd.symm)
    hresult hd.conforms.localsAdmitted.fit
    (hcount.locals _ _ (WovenMethod.Guided.frame_of_around k hx.block hx.around)) hd.first
    (by rw [if_neg (by rw [hx.savable.patchable]; simp)]; exact .nil w _ _)

/-! ## restoring a level -/

/-- the twin has its locals back, as far as the frame of its call goes -/
theorem again (hx : k.Saves h x x' b y r q) {args locals : List Value} (hargs : m.Accepts args)
    (hself : m.isStatic = false → args.head? = some (.ref q))
    (hrestored : RestoredLocals y.frame x'.locals (Activation.entry m' args).locals locals) :
    Agree m.isStatic y.frame x.locals locals := by
  refine ⟨fun i d l hd hl => (hrestored.live i d l hd hl).trans (hx.live i d l hd hl), ?_, ?_, fun hm => ?_⟩
  · refine Nat.le_of_not_lt fun hlt => ?_
    obtain ⟨v, hv, -⟩ := hx.savable.locals x.locals.length _ (List.getElem?_eq_getElem hlt)
    exact absurd (List.getElem?_eq_some_iff.1 hv).1 (Nat.lt_irrefl _)
  · rw [hrestored.length, ← k.length_entry hargs hx.savable.stands.2]
  · -- the first local is restored, or it is what the method is called on
    cases hhead : y.frame.locals[0]? with
    | some d =>
      cases hl : d.kind? with
      | some l => exact (hrestored.live 0 d l hhead hl).trans (hx.live 0 d l hhead hl)
      | none => exact (hrestored.first fun e he => by
          rw [List.head?_eq_getElem?, hhead] at he
          rw [← Option.some.inj he, hl]).trans (hx.first_entry hself hm)
    | none => exact (hrestored.first fun e he => by
        rw [List.head?_eq_getElem?, hhead] at he
        exact absurd he (by simp)).trans (hx.first_entry hself hm)

/-- **The level is restored** when the method is called again, and the call of its site is made again -/
theorem reaches_again (hx : k.Saves h x x' b y r q) (hw : w.Supplies)
    (hpr : ∀ a b, w.program.isAssignable a b = p.isAssignable a b) (hcount : k.Countable) {args : List Value}
    {states : List Int32} (hargs : m.Accepts args) (hself : m.isStatic = false → args.head? = some (.ref q))
    (hh : s.heap = h) (hc : s.engine.Runs c) (hstates : c.states = Int32.ofNat y.site.index :: states)
    (hstorage : c.storage = (hx.level S).saved y.site y.frame y.shape) :
    ∃ mark x'', Machine.Reaches w (s.enter args (.code m'))
        { s.put { c with states, storage := S, companionOnTop := mark } with
          pending := .activation x'' :: s.pending, mode := .calling (y.site.callAgain y.shape r) } ∧
      k.Stands x x'' b.ownAt := by
  subst hh
  have hd := hx.ok hpr S
  obtain ⟨hcuts, n, hsound⟩ := WovenMethod.Guided.cuts k hx.block hx.around
  have hframe := WovenMethod.Guided.frame_of_around k hx.block hx.around
  -- the prologue, and the restore block
  have hresume : Machine.Passes w k.layout.Between (s.goOn (.entry m' args) s.pending) _ :=
    k.lays.passes_resume k.fits hw hx.block hx.around hcount.sites hc hstates rfl rfl
  obtain ⟨mark, locals, hrestore, hrestored, -⟩ := k.lays.passes_restored (s := s.put { c with states })
    (x := { Activation.entry m' args with position := k.layout.start x.position + 2 }) hw hx.block hx.around hd
    hcuts hsound (hcount.locals _ _ hframe) (hc.put rfl) hstorage rfl rfl rfl
    (Nat.le_of_eq (k.length_entry hargs hframe))
  have hput : (s.put { c with states }).put (({ c with states } : Coroutine Call Call).stores
      (hx.level S).storage mark) = s.put { c with states, storage := S, companionOnTop := mark } :=
    Machine.put_put s rfl
  rw [hput] at hrestore
  -- the call
  have hown : Machine.Passes w k.layout.Between
      ((s.put { c with states, storage := S, companionOnTop := mark }).goOn
        { Activation.entry m' args with
          position := k.layout.start x.position +
            (3 + (restoreCode y.site.unpatchable y.frame y.shape).length)
          locals
          stack := operandsAgain y.site y.shape (hx.level S).window (hx.level S).companion ++
            (hx.level S).below } s.pending) _ :=
    k.lays.passes_own k.fits hw hx.block hx.around (.inl hx.savable.patchable) rfl rfl
  obtain ⟨hcode, -⟩ := k.lays.holds_own hx.block
  rw [(k.lays.site_of_around hx.block hx.around).2.2.2.2, Block.ownAt_some hx.around] at hcode
  obtain ⟨d, hdesc, -⟩ := hx.savable.shaped
  have hoperands : operandsAgain y.site y.shape (hx.level S).window (hx.level S).companion ++ (hx.level S).below =
      (y.site.callAgain y.shape r).args.reverse ++ x.stack := by
    unfold operandsAgain Site.callAgain
    rw [hx.savable.patchable, if_neg (by simp), List.reverse_append]
    split <;> rfl
  have hcall : Machine.step w ((s.put { c with states, storage := S, companionOnTop := mark }).goOn
      { Activation.entry m' args with
        position := k.layout.start x.position + y.ownAt
        locals
        stack := operandsAgain y.site y.shape (hx.level S).window (hx.level S).companion ++
          (hx.level S).below } s.pending) = _ :=
    Machine.step_call hcode (Insn.run_invoke hdesc (hx.savable.length_again hdesc) hoperands)
  refine ⟨mark, { Activation.entry m' args with
      position := k.layout.start x.position + y.ownAt, locals, stack := x.stack },
    ((hresume.trans hrestore).trans hown).reaches.trans (.of_step hcall), hx.stands.method, rfl, rfl,
    ⟨y.frame, hframe, .inr (hx.again hargs hself hrestored)⟩, ?_⟩
  rw [Block.ownAt_some hx.around]

end WovenMethod.Saves

/-- **The twin** of an activation that can be suspended is of the woven method, with nothing staged -/
theorem Savable.saves {h : Heap} {x x' : Activation} {a : Analysis} {site : Site} {f : Frame} {shape : CallShape}
    {r : Ref} {q : Option Ref} {staged : Bool} (s : Savable p t p' h owner x a site f shape r)
    (owns : Owns p t p' owner staged x x') (first : x.method.isStatic = false → x.locals[0]? = some (.ref q)) :
    staged = false ∧ ∃ (m' : Method) (k : WovenMethod p t p' owner x.method m') (b : Block) (y : Around),
      k.analysis = a ∧ y.site = site ∧ y.shape = shape ∧ k.Saves h x x' b y r q := by
  cases owns with
  | kept keeps closed same =>
    obtain ⟨m', hm', hweaves⟩ := s.woven
    obtain rfl : x.method = m' := Option.some.inj (keeps.symm.trans hm')
    exact absurd rfl (weaveMethod_ne s.sound.insns hweaves)
  | @woven m m' k b block occupied stages stands =>
    obtain rfl := stands.method
    obtain rfl : k.analysis = a := Option.some.inj (Except.ok.inj (k.analyzed.symm.trans s.analyzed))
    obtain ⟨b', y, hb', hy, rfl, rfl, hfits⟩ := k.lays.around s.listed s.reachable
    rw [s.position] at hb'
    obtain rfl : b = b' := Option.some.inj (block.symm.trans hb')
    obtain ⟨d, hd, hshape⟩ := s.shaped
    obtain ⟨d', hd', hshape'⟩ := hfits.shape
    obtain rfl : d = d' := Option.some.inj (hd.symm.trans hd')
    obtain rfl : shape = y.shape := Option.some.inj (hshape.symm.trans hshape')
    exact ⟨by rw [stages, Block.stages_some hy, s.patchable], m', k, b, y, rfl, rfl, rfl,
      ⟨stands, block, hy, s, first⟩⟩

/-! ## the chain -/

/-- a call that enters an instance method is made on an object -/
theorem World.head?_of_target? {w : World} {h : Heap} {c : Call} (ht : w.target? h c = some (.code m))
    (hm : m.isStatic = false) : c.args.head? = some (.ref c.self?) := by
  have hreceiver := hasReceiver_of_target? ht
  rw [hm, Bool.not_false] at hreceiver
  unfold World.target? at ht
  obtain ⟨receiver, hr, -⟩ := Option.bind_eq_some_iff.1 ht
  unfold Call.receiver? at hr
  rw [if_pos hreceiver] at hr
  split at hr
  · rename_i r ha
    unfold Call.self?
    rw [ha]
  · exact absurd hr (by simp)

/-- what a suspended method leaves is what its callee is called on -/
theorem WovenMethod.Saves.companions_eq {k : WovenMethod p t p' owner m m'} {h : Heap} {x x' : Activation} {b : Block}
    {y : Around} {r : Ref} {w : World} {u : Heap} {outer : Call} {outermost : Bool}
    (hx : k.Saves h x x' b y r outer.self?) (ht : w.target? u outer = some (.code m))
    (root : m.isStatic = true → k.analysis.rootEntry = outermost) :
    companions m.isStatic k.analysis.rootEntry x'.locals = outer.left outermost := by
  unfold companions Call.left
  rw [World.hasReceiver_of_target? ht]
  cases hm : m.isStatic with
  | true =>
    rw [root hm]
    rfl
  | false =>
    rw [hx.first' hm]
    rfl

/-- a machine with another state of a coroutine, and something else under way -/
def Machine.holding (s : Machine) (c : Coroutine Call Call) (ps : List Pending) (mode : Mode) : Machine :=
  { s with engine := s.engine.put c, pending := ps, mode }

theorem Machine.put_holding {s : Machine} {c d : Coroutine Call Call} {ps qs : List Pending} {mode mode' : Mode}
    (hid : c.id = d.id) : { (s.holding c ps mode).put d with pending := qs, mode := mode' } = s.holding d qs mode' := by
  unfold holding put
  dsimp only
  rw [Engine.put_put _ hid]

/-- Suspending the calls above the body of a coroutine that runs, of which the innermost is about to end or to be made,
with the numbers of their sites: what is under way can be saved on a storage, and comes back to it. -/
structure Suspends (w : World) (s : Machine) (id : Nat) (body call : Call) (outermost : Bool) (numbers : List Int32)
    (ps : List Pending) (Restored : List Pending → Prop) (S N : Storage) : Prop where
  /-- when the innermost call returns, everything above the body unwinds -/
  saves : ∀ {c : Coroutine Call Call} {v : Option Value}, c.id = id → c.yielding = true →
    c.storage = S.putAll (call.left outermost) → call.EndsWithZero v → ∃ mark v',
      Machine.Reaches w (s.holding c ps (.returning v)) (s.holding { c with
        states := numbers.reverse ++ c.states, storage := N.putAll (body.left true), companionOnTop := mark }
        [.body id body] (.returning v'))
  /-- when the body is called again, the innermost call is made again -/
  restores : ∀ {c : Coroutine Call Call} {states : List Int32}, c.id = id → c.storage = N →
    c.states = numbers.reverse ++ states → ∃ mark ps',
      Machine.Reaches w (s.holding c [.body id body] (.calling body))
        (s.holding { c with states, storage := S, companionOnTop := mark } ps' (.calling call)) ∧ Restored ps'

theorem Suspends.mono {w : World} {s : Machine} {id : Nat} {body call : Call} {outermost : Bool} {numbers : List Int32}
    {ps : List Pending} {Restored Restored' : List Pending → Prop} {S N : Storage}
    (hs : Suspends w s id body call outermost numbers ps Restored S N) (hr : ∀ qs, Restored qs → Restored' qs) :
    Suspends w s id body call outermost numbers ps Restored' S N where
  saves := hs.saves
  restores hid hstorage hstates := by
    obtain ⟨mark, qs, hreach, hqs⟩ := hs.restores hid hstorage hstates
    exact ⟨mark, qs, hreach, hr qs hqs⟩

section
variable {hosts : List HostMethod} {s : Machine} {id : Nat} {body call : Call} {owners : List String}
  {ps ps' : List Pending} {v : Veil} {frames : List (List Value)}

/-- nothing is under way above the body -/
theorem Suspends.bottom {w : World} {Restored : List Pending → Prop} (hrestored : Restored [.body id body])
    (S : Storage) : Suspends w s id body body true [] [.body id body] Restored S S where
  saves {c v} _ _ hstorage _ := by
    refine ⟨c.companionOnTop, v, ?_⟩
    rw [← hstorage]
    exact .refl w _
  restores {c states} _ hstorage hstates := by
    refine ⟨c.companionOnTop, [.body id body], ?_, hrestored⟩
    rw [← hstorage, show states = c.states from hstates.symm]
    exact .refl w _

/-- what a call runs has become of what it runs in the program -/
theorem Rewritten.target? (hp : Rewritten p t p') {c : Call} {x : Target}
    (ht : (⟨p, hosts⟩ : World).target? s.heap c = some x) : ∃ x', (⟨p', hosts⟩ : World).target? s.heap c = some x' ∧
      SameTarget p t p' hosts hosts ((⟨p, hosts⟩ : World).owner? s.heap c) x x' := by
  unfold World.target? at ht
  obtain ⟨receiver, hr, ht⟩ := Option.bind_eq_some_iff.1 ht
  have hresolve := hp.resolve (fun _ => rfl : HostsAlike hosts hosts) c.kind c.method receiver
  cases hx : (⟨p, hosts⟩ : World).resolve c.kind c.method receiver with
  | error f =>
    rw [hx] at ht
    exact absurd ht (by simp [Except.toOption])
  | ok y =>
    rw [hx] at ht hresolve
    obtain rfl : y = x := Option.some.inj ht
    obtain ⟨x', hx', hsame⟩ := hresolve
    unfold World.target? World.owner?
    rw [hr, Option.bind_some, hx']
    exact ⟨x', rfl, hsame⟩

/-- a call that enters a method enters the one that became of it in the rewritten program -/
theorem Rewritten.call_code (hp : Rewritten p t p') {c : Call}
    (ht : (⟨p, hosts⟩ : World).target? s.heap c = some (.code m))
    (ho : (⟨p, hosts⟩ : World).owner? s.heap c = some owner) (hm' : p'.method? (m.id owner) = some m') :
    p.method? (m.id owner) = some m ∧ s.call ⟨p', hosts⟩ c = s.enter c.args (.code m') := by
  obtain ⟨x', hx', hsame⟩ := hp.target? ht
  cases hsame with
  | code defined found found' instrumented =>
    obtain rfl := Option.some.inj (ho.symm.trans defined)
    obtain rfl := Option.some.inj (hm'.symm.trans found')
    exact ⟨found, Machine.call_of_target? hx'⟩

/-- a call of a built-in method calls the same one in the rewritten program -/
theorem Rewritten.call_native (hp : Rewritten p t p') {c : Call} {n : Native}
    (ht : (⟨p, hosts⟩ : World).target? s.heap c = some (.native n)) :
    s.call ⟨p', hosts⟩ c = s.runNative n c.args := by
  obtain ⟨x', hx', hsame⟩ := hp.target? ht
  cases hsame with
  | native found found' =>
    obtain rfl := Option.some.inj (found.symm.trans found')
    exact Machine.call_of_target? hx'

/-- a woven method that a suspension unwinds ends with the zero of its result -/
theorem WovenMethod.endsWithZero (k : WovenMethod p t p' owner m m') {c : Call} (hdesc : m.desc = c.method.desc) :
    c.EndsWithZero (k.layout.ret.map Value.zero) := by
  intro d hd
  obtain rfl : k.layout.desc = d := Option.some.inj (k.lays.desc.symm.trans (hdesc ▸ hd))
  rfl

/-- one more activation above what can be suspended -/
theorem Suspends.level {x x' : Activation} {k : WovenMethod p t p' owner x.method m'} {b : Block} {y : Around}
    {r : Ref} {outer : Call} {outermost : Bool} {numbers : List Int32} {Restored : List Pending → Prop}
    {S N : Storage} {e : Coroutine Call Call} (hx : k.Saves s.heap x x' b y r outer.self?)
    (hpair : Paired p t p' hosts hosts) (hcount : k.Countable) (hruns : s.engine.Runs e) (he : e.id = id)
    (entered : (⟨p, hosts⟩ : World).target? s.heap outer = some (.code x.method))
    (owned : (⟨p, hosts⟩ : World).owner? s.heap outer = some owner) (accepts : x.method.Accepts outer.args)
    (root : x.method.isStatic = true → k.analysis.rootEntry = outermost)
    (hrest : Suspends ⟨p', hosts⟩ s id body outer outermost numbers ps' Restored
      ((hx.level S).saved y.site y.frame y.shape) N) :
    Suspends ⟨p', hosts⟩ s id body (y.site.callAgain y.shape r) false (Int32.ofNat y.site.index :: numbers)
      (.activation x' :: ps')
      (fun qs => ∃ x'' qs', qs = .activation x'' :: qs' ∧ k.Stands x x'' b.ownAt ∧ Restored qs') S N where
  saves {c v} hid hyield hstorage hv := by
    have hc : (s.holding c (.activation x' :: ps') (.returning v)).engine.Runs c := hruns.put (hid.trans he.symm)
    obtain ⟨mark, hleft⟩ := hx.reaches_left hpair.supplies hpair.rewritten.isAssignable hcount hc hyield hstorage hv
      rfl rfl
    simp only [Machine.put_holding, hx.companions_eq entered root] at hleft
    obtain ⟨mark', v', hunwound⟩ := hrest.saves (c := { c with
      states := Int32.ofNat y.site.index :: c.states
      storage := ((hx.level S).saved y.site y.frame y.shape).putAll (outer.left outermost)
      companionOnTop := mark }) hid hyield rfl (k.endsWithZero (World.target?_code entered).2.1)
    refine ⟨mark', v', hleft.trans ?_⟩
    rw [List.reverse_cons, List.append_assoc]
    exact hunwound
  restores {c states} hid hstorage hstates := by
    rw [List.reverse_cons, List.append_assoc] at hstates
    obtain ⟨mark, qs, houter, hqs⟩ := hrest.restores hid hstorage hstates
    generalize hd : ({ c with
      states := [Int32.ofNat y.site.index] ++ states
      storage := (hx.level S).saved y.site y.frame y.shape
      companionOnTop := mark } : Coroutine Call Call) = d at houter
    have hdid : d.id = id := by rw [← hd, ← hid]
    have hdruns : (s.holding d qs (.calling outer)).engine.Runs d := hruns.put (hdid.trans he.symm)
    have henter : (s.holding d qs (.calling outer)).step ⟨p', hosts⟩ =
        (s.holding d qs (.calling outer)).enter outer.args (.code m') :=
      (hpair.rewritten.call_code (s := s.holding d qs (.calling outer)) entered owned k.found').2
    obtain ⟨mark', x'', hlevel, hstands⟩ := hx.reaches_again (s := s.holding d qs (.calling outer)) (c := d)
      hpair.supplies hpair.rewritten.isAssignable hcount accepts (World.head?_of_target? entered) rfl hdruns
      (show d.states = Int32.ofNat y.site.index :: states by rw [← hd]; rfl) (by rw [← hd])
    simp only [Machine.put_holding] at hlevel
    rw [← hd] at hlevel
    rw [← hd] at henter houter
    exact ⟨mark', .activation x'' :: qs, houter.trans ((Machine.Reaches.of_step henter).trans hlevel),
      x'', qs, rfl, hstands, hqs⟩

/-- **What is under way** in both programs can be suspended -/
theorem Chain.suspends (hpair : Paired p t p' hosts hosts) (hcount : p.Countable t)
    {e : Coroutine Call Call} (hruns : s.engine.Runs e) (he : e.id = id)
    (chain : Chain ⟨p, hosts⟩ t p' s.heap id body call owners ps)
    (stacked : Stacked p t p' v true frames owners ps ps') :
    frames = [] ∧ ∀ S, ∃ N, Suspends ⟨p', hosts⟩ s id body call owners.isEmpty (siteNumbers p t owners ps) ps'
      (fun qs => ∀ u : Veil, u.kept = none → Stacked p t p' u true [] owners ps qs) S N := by
  induction chain generalizing frames ps' with
  | body accepts =>
    have hbottom (u : Veil) (hu : u.kept = none) : Stacked p t p' u true [] [] [.body id body] [.body id body] := by
      refine .body ?_
      have hnil : Stacked p t p' u u.kept.isSome [] [] [] [] := .nil
      rwa [hu] at hnil
    generalize hactive : true = active at stacked
    cases stacked with
    | @body _ ps ps' id call rest =>
      generalize hactive : false = active at rest
      cases rest with
      | nil => exact ⟨rfl, fun S => ⟨S, .bottom hbottom S⟩⟩
  | @level outer owner owners x ps a site f shape r chain entered owned first root savable ih =>
    generalize hactive : true = active at stacked
    cases stacked with
    | @waits active staged frames' frames owner owners x x' ps ps' waits opens rest =>
      subst hactive
      obtain ⟨rfl, m', k, b, y, rfl, rfl, rfl, hx⟩ := savable.saves waits.owns first
      obtain rfl : frames = frames' := opens
      obtain ⟨rfl, hrest⟩ := ih rest
      have hcountable : k.Countable := k.countable (hpair.rewritten.call_code entered owned k.found').1 hcount
      refine ⟨rfl, fun S => ?_⟩
      obtain ⟨N, hN⟩ := hrest ((hx.level S).saved y.site y.frame y.shape)
      refine ⟨N, ?_⟩
      have hnumbers : siteNumbers p t (owner :: owners) (.activation x :: ps) =
          Int32.ofNat y.site.index :: siteNumbers p t owners ps := by
        show ((siteNumber? p t owner x).map Int32.ofNat).toList ++ _ = _
        rw [savable.siteNumber?]
        rfl
      rw [hnumbers]
      refine (Suspends.level hx hpair hcountable hruns he entered owned (chain.accepts entered) root hN).mono ?_
      rintro - ⟨x'', qs, rfl, hstands, hqs⟩ u hu
      obtain ⟨-, -, -, -, hown⟩ := k.lays.site_of_around hx.block hx.around
      have howns : Owns p t p' owner false x x'' := .woven k hx.block (by rw [hown]; rfl)
        (by rw [Block.stages_some hx.around, savable.patchable]) hstands
      exact .waits ⟨howns, waits.calls⟩ (show Opens (false && true) [] [] from rfl) (hqs u hu)

end

end Resumable
