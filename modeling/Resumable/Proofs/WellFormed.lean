import Resumable.Proofs.FramedLayout
import Resumable.Proofs.Refusals

/-!
# Woven code is well formed

Frames that can be assigned to a method give frames that can be assigned to the woven method.  At the copy
of each instruction of the method stands the frame that the instruction had; the code around it is framed
block by block, and the handlers that are left are entered below the frames that they had.

* `Analysis.validate_ok` : frames that the check of the analysis accepts can be saved;
* `Layout.Ready` : what is asked of the method and of its frames;
* `Layout.Ready.flowsAt` : what flows out of an instruction of the woven code;
* `weave_framed` : frames can be assigned to every method that is woven.
-/

namespace Resumable

/-! ## definite frames -/

namespace Analysis

theorem badLocal?_eq_none {cs : List Category} {slot : Nat} (h : badLocal? slot cs = none) :
    ∀ c ∈ cs, c ≠ .null ∧ c ≠ .returnAddress := by
  induction cs generalizing slot with
  | nil => exact fun c hc => absurd hc (by simp)
  | cons d ds ih =>
    intro c hc
    cases d with
    | null | returnAddress => exact absurd h (by simp [badLocal?])
    | _ =>
      rcases List.mem_cons.1 hc with rfl | hc
      · exact ⟨by simp, by simp⟩
      · exact ih h c hc

theorem badFrame?_eq_none {f : Frame} (h : badFrame? f = none) : f.Definite := by
  unfold badFrame? at h
  split at h
  · exact absurd h (by simp)
  · rename_i hlocals
    split at h
    · exact absurd h (by simp)
    · rename_i hstack
      exact ⟨badLocal?_eq_none hlocals, hstack⟩

theorem badIndex?_eq_none {fs : List (Option Frame)} {n i : Nat} {f : Frame}
    (h : badIndex? n fs = none) (hf : fs[i]? = some (some f)) : badFrame? f = none := by
  induction fs generalizing n i with
  | nil => exact absurd hf (by simp)
  | cons g gs ih =>
    rw [badIndex?] at h
    split at h
    · exact absurd h (by simp)
    · rename_i hg
      cases i with
      | zero =>
        obtain rfl : g = some f := by simpa using hf
        exact hg
      | succ i => exact ih h hf

/-- frames that the check accepts can be saved -/
theorem validate_ok {fs : List (Option Frame)} {i : Nat} {f : Frame} (h : validate fs = .ok ())
    (hf : fs[i]? = some (some f)) : f.Definite := by
  unfold validate at h
  split at h
  · exact absurd h (by simp)
  · rename_i hnone
    exact badFrame?_eq_none (badIndex?_eq_none hnone hf)

end Analysis

/-! ## regions of a method that is woven -/

/-- where an instruction of the method may go on is a label of the method -/
theorem Method.mem_labels_of_targets {m : Method} {i : Insn} {lab : Label} (hi : i ∈ m.code)
    (hlab : lab ∈ i.targets) : lab ∈ m.labels :=
  List.mem_append_left _ (List.mem_append_left _
    (List.mem_flatMap.2 ⟨i, hi, List.mem_append_right _ hlab⟩))

namespace Layout

variable {a : Analysis} {m m' : Method} {l : Layout a m} {n k q : Nat} {b : Block} {x : Around}
  {p : Program} {entry f g : Frame} {fs : Option Frame} {i : Insn} {lab : Label}

/-- no region of a method that is woven ends before it starts -/
theorem Lays.regionsOrdered (h : l.Lays m') (hfit : l.Fits) : m.RegionsOrdered := by
  intro t ht start stop hstart hstop
  obtain ⟨table, htable, -⟩ := h.table
  unfold splitRegions at htable
  obtain ⟨excluded, -, htable⟩ := Effect.bind_eq_ok htable
  obtain ⟨es, hes⟩ := (collectEntries_ok htable).1 t ht
  rw [← h.code_eq] at hes
  obtain ⟨hs, he, -⟩ := mem_labels_of_table ht
  have hle := splitRegion_ordered hes (by rw [h.labelPosition_own hfit hs, hstart]; rfl)
    (by rw [h.labelPosition_own hfit he, hstop]; rfl)
  refine Nat.le_of_not_lt fun hlt => ?_
  have hplace := h.place_within (labelPosition_lt hstop)
  have := hplace.1
  have := hplace.lt_iff.2 hlt
  omega

/-- the regions of a woven method are given by labels that stand in it -/
theorem Lays.tableDefined (h : l.Lays m') (hfit : l.Fits) (htable : m.TableDefined) :
    m'.TableDefined := by
  obtain ⟨table, hsplit, heq⟩ := h.table
  have htables : m'.tryCatches = l.handlers ++ table := by rw [heq]
  rw [← h.code_eq] at hsplit
  unfold splitRegions at hsplit
  obtain ⟨excluded, hex, hsplit⟩ := Effect.bind_eq_ok hsplit
  intro e he
  rw [htables] at he
  rcases List.mem_append.1 he with he | he
  · obtain ⟨k, b, x, -, -, -, ⟨hstart, hstop⟩, -, -, hhandler⟩ := h.siteHandler hfit he
    exact ⟨hstart, hstop, _, hhandler⟩
  · obtain ⟨t, ht, es, hes, he⟩ := (collectEntries_ok hsplit).2 e he
    have hreplaces := splitRegion_ok hes fun ex hmem => (h.excluded_ok hfit hex ex hmem).1
    obtain ⟨hstart, hstop⟩ := hreplaces.defined e he
    obtain ⟨-, -, target, htarget⟩ := htable t ht
    refine ⟨hstart, hstop, l.start target, ?_⟩
    rw [(hreplaces.handler e he).1, h.labelPosition_own hfit (mem_labels_of_table ht).2.2, htarget]
    rfl

/-! ## what is asked of the method -/

/-- A method with frames that is woven: its frames can be saved, the new labels have numbers, and the
receiver is at hand where a level may be saved. -/
structure Ready (l : Layout a m) (m' : Method) (p : Program) (entry : Frame) : Prop where
  lays : l.Lays m'
  fits : l.Fits
  framed : m.Framed p entry a.frames
  definite : ∀ s ∈ l.sites, ∀ f, s.frame = some f → f.Definite
  receiver : a.isStatic = false → ∀ s ∈ l.sites, ∀ f, s.frame = some f →
    ∃ c, f.locals[0]? = some c ∧ c.kind? = some .ref
  entrySound : entry.Sound entry.locals.length
  entryStack : entry.stack = []
  slots : entry.locals.length ≤ 65536

/-- the frame of a call is the one that the method has there -/
theorem Laid.frame_around (h : l.Laid m') (hb : l.blocks[n]? = some b) (hx : b.around = some x) :
    a.frames[n]? = some (some x.frame) := by
  obtain ⟨hs, hp, hf, -, -⟩ := h.site_of_around hb hx
  obtain ⟨_, _, _, _, _, hdescribes⟩ := sitesFrom_sound hs
  rw [hdescribes.frame, hp] at hf
  exact Option.join_eq_some_iff.1 hf

theorem Ready.length (h : l.Ready m' p entry) : a.frames.length = m.code.length := h.framed.length

/-- a call that is woven suits its block -/
theorem Ready.suits (h : l.Ready m' p entry) (hb : l.blocks[n]? = some b)
    (hx : b.around = some x) : ∃ result, x.Suits a b.own result entry entry.locals.length := by
  have hl := h.lays.toLaid
  obtain ⟨hs, -, hsf, -, hinvoke⟩ := hl.site_of_around hb hx
  have hframe := hl.frame_around hb hx
  have hown := hl.own hb
  rw [hinvoke] at hown
  obtain ⟨g, hflows⟩ := h.framed.flowsAt hown hframe
  obtain ⟨d, cs, e, hd, htakes, hkinds, rfl⟩ := Frame.apply_invoke hflows.applied
  obtain ⟨d', hd', hshape⟩ : ∃ d, MethodDesc.parse? x.site.callee.desc = some d ∧
      CallShape.of? x.site.kind d x.frame = some x.shape := by
    rcases hl.blocks.block hb with ⟨hnone, -⟩ | ⟨y, hy, hfits⟩
    · exact absurd (hnone.symm.trans hx) (by simp)
    · obtain rfl : y = x := Option.some.inj (hy.symm.trans hx)
      exact hfits.shape
  obtain rfl : d = d' := Option.some.inj (hd.symm.trans hd')
  obtain ⟨hbelow, hresult⟩ := CallShape.of?_ok hshape
  -- what the call leaves of the stack is what lies below its operands
  have he : e = ⟨x.frame.locals, x.shape.below⟩ := by
    have hwidth : cs.length = d.params.length + if x.site.kind.hasReceiver then 1 else 0 := by
      rw [Frame.length_of_kinds hkinds, Frame.operandKinds, List.length_append, List.length_map,
        List.length_reverse]
      split <;> rfl
    have hstack : e.stack = x.shape.below := by
      rw [hbelow, htakes.stack, ← hwidth, List.drop_left]
    rw [← hstack, ← htakes.locals]
  refine ⟨d.ret, h.framed.sound n _ hframe, h.definite _ hs _ hsf, CallShape.of?_cuts hshape,
    ⟨_, _, hinvoke⟩, ?_, hresult, fun hstatic => h.receiver hstatic _ hs _ hsf, h.entrySound,
    h.entryStack, h.slots⟩
  rw [hinvoke, ← he]
  exact hflows.applied

/-! ## where frames may arrive -/

/-- the frames of the woven code -/
def frames (l : Layout a m) (entry : Frame) : List (Option Frame) := (l.framed entry).map Prod.fst

/-- a frame may arrive at a label of the woven code -/
def Accepts (l : Layout a m) (m' : Method) (p : Program) (entry : Frame) (lab : Label) (f : Frame) :
    Prop :=
  ∃ n, labelPosition lab m'.code = some n ∧ Flow.Below p (l.frames entry) (n, f)

theorem accepts_of (hlab : labelPosition lab m'.code = some q)
    (hq : (l.framed entry)[q]? = some (some f, i)) : l.Accepts m' p entry lab f :=
  ⟨q, hlab, below_of_getElem? hq⟩

/-- what is below a frame of the method is below the frame at the start of its block -/
theorem Ready.below_start (h : l.Ready m' p entry) (hf : Flow.Below p a.frames (k, f)) :
    Flow.Below p (l.frames entry) (l.start k, f) := by
  obtain ⟨g, hg, habsorbs⟩ := hf
  have hlt : k < m.code.length := by
    rw [← h.length]
    exact (List.getElem?_eq_some_iff.1 hg).1
  have hl := h.lays.toLaid
  obtain ⟨b, hb, -⟩ := hl.block (List.getElem?_eq_getElem hlt)
  obtain ⟨i, hfirst⟩ : ∃ i, (b.framed a l.ret entry (some g))[0]? = some (some g, i) := by
    cases hx : b.around with
    | none =>
      unfold Block.framed
      rw [hx]
      exact ⟨b.own, rfl⟩
    | some x =>
      have hframe : some (some g) = some (some x.frame) := hg.symm.trans (hl.frame_around hb hx)
      rw [Option.some.inj (Option.some.inj hframe)]
      unfold Block.framed
      rw [hx]
      exact ⟨_, (x.framedAt a l.ret b.own entry).pre⟩
  refine ⟨g, ?_, habsorbs⟩
  have hat := hl.getElem?_framed h.length hb hg (List.getElem?_eq_some_iff.1 hfirst).1
  rw [hfirst] at hat
  show (l.frames entry)[l.start k]? = some (some g)
  unfold frames
  rw [List.getElem?_map, show (l.framed entry)[l.start k]? = some (some g, i) from hat]
  rfl

/-- what may arrive at a label of the method may arrive there in the woven code -/
theorem Ready.accepts_own (h : l.Ready m' p entry) (hmem : lab ∈ m.labels)
    (hlab : labelPosition lab m.code = some k) (hf : Flow.Below p a.frames (k, f)) :
    l.Accepts m' p entry lab f := by
  refine ⟨l.start k, ?_, h.below_start hf⟩
  rw [h.lays.labelPosition_own h.fits hmem, hlab]
  rfl

/-- the frames of a block stand around its call -/
theorem Ready.getElem?_around (h : l.Ready m' p entry) (hb : l.blocks[n]? = some b)
    (hx : b.around = some x) {j : Nat} {e : Option Frame × Insn}
    (he : (x.framed a l.ret b.own entry)[j]? = some e) :
    (l.framed entry)[l.start n + j]? = some e := by
  have hl := h.lays.toLaid
  have hblock : b.framed a l.ret entry (some x.frame) = x.framed a l.ret b.own entry := by
    unfold Block.framed
    rw [hx]
    rfl
  rw [hl.getElem?_framed h.length hb (hl.frame_around hb hx), hblock, he]
  rw [hblock]
  exact (List.getElem?_eq_some_iff.1 he).1

/-- the labels around a call are reached with the frames that stand there -/
theorem Ready.accepted (h : l.Ready m' p entry) (hb : l.blocks[n]? = some b)
    (hx : b.around = some x) : x.Accepted b.own (l.Accepts m' p entry) := by
  have hfound := h.lays.found h.fits hb hx
  have hframed := x.framedAt a l.ret b.own entry
  exact ⟨accepts_of hfound.call (h.getElem?_around hb hx hframed.call),
    fun hu => accepts_of (hfound.staged hu) (h.getElem?_around hb hx (hframed.staged hu)),
    fun hu => accepts_of (hfound.rethrow hu) (h.getElem?_around hb hx (hframed.rethrow hu)),
    accepts_of hfound.after (h.getElem?_around hb hx hframed.after),
    accepts_of hfound.noYield (h.getElem?_around hb hx hframed.noYield),
    accepts_of hfound.post (h.getElem?_around hb hx hframed.post)⟩

/-- the labels that the prologue leads to are reached with the frames that stand there -/
theorem Ready.prologueAccepted (h : l.Ready m' p entry) :
    l.PrologueAccepted entry (l.Accepts m' p entry) := by
  have hl := h.lays.toLaid
  obtain ⟨hlost, hnoState, hbody⟩ := l.framedPrologue_labels entry
  have hprologue {j : Nat} {e : Option Frame × Insn} (he : (l.framedPrologue entry)[j]? = some e) :
      (l.framed entry)[j]? = some e := by
    rw [getElem?_framed_prologue, he]
    rw [← length_framedPrologue l entry]
    exact (List.getElem?_eq_some_iff.1 he).1
  have haccepts {lab : Label} (hmem : lab ∈ l.lostLabels) : l.Accepts m' p entry lab entry := by
    obtain ⟨j, hj⟩ := List.mem_iff_getElem?.1 hmem
    exact accepts_of (hl.labelPosition_lost h.fits hj) (hprologue (hlost lab j hj))
  refine ⟨accepts_of (hl.labelPosition_body h.fits) (hprologue hbody),
    accepts_of (hl.labelPosition_noState h.fits) (hprologue hnoState),
    fun invalid hinvalid => haccepts ?_, fun s hs => ?_⟩
  · unfold lostLabels
    rw [hinvalid]
    exact List.mem_cons_self
  · cases hf : s.frame with
    | some f =>
      obtain ⟨b, x, hb, hx, rfl, -, -⟩ := hl.around hs hf
      exact accepts_of (hl.found h.fits hb hx).resume
        (h.getElem?_around hb hx (x.framedAt a l.ret b.own entry).resume)
    | none =>
      -- a site that nothing reaches makes misdispatch possible
      have hmay : mayMisdispatch l.sites = true := by
        unfold mayMisdispatch
        rw [Bool.or_eq_true]
        exact .inr (List.any_eq_true.2 ⟨s, hs, by rw [hf]; rfl⟩)
      refine haccepts ?_
      have hlabels : l.labels.invalid = if mayMisdispatch l.sites then
        some (l.fresh (l.sites.length + 2)) else none := rfl
      unfold lostLabels
      rw [hlabels, if_pos hmay]
      refine List.mem_cons_of_mem _ (List.mem_map.2 ⟨s, List.mem_filter.2 ⟨hs, ?_⟩, rfl⟩)
      rw [hf]
      rfl

/-! ## what flows out of woven code -/

/-- a block flows into the next one -/
theorem Ready.flows_block (h : l.Ready m' p entry) (hb : l.blocks[n]? = some b)
    (hfs : a.frames[n]? = some fs) :
    FramedCode.Flows p (l.Accepts m' p entry)
      (fun f => Flow.Below p (l.frames entry) (l.start (n + 1), f)) (b.framed a l.ret entry fs) := by
  have hl := h.lays.toLaid
  have hown := hl.own hb
  cases hx : b.around with
  | none =>
    unfold Block.framed
    rw [hx]
    refine ⟨fun f hf => ?_, trivial⟩
    obtain rfl : fs = some f := hf
    obtain ⟨g, hflows⟩ := h.framed.flowsAt hown hfs
    refine ⟨g, hflows.applied, fun lab hlab => ?_, fun hfalls => h.below_start (hflows.next hfalls)⟩
    obtain ⟨k, hk, hbelow⟩ := hflows.jumps lab hlab
    exact h.accepts_own (Method.mem_labels_of_targets (List.mem_of_getElem? hown) hlab) hk hbelow
  | some x =>
    obtain ⟨result, hsuits⟩ := h.suits hb hx
    obtain ⟨g, hflows⟩ := h.framed.flowsAt hown (hl.frame_around hb hx)
    have hafter : x.afterFrame b.own = g := Frame.next_eq hflows.applied
    obtain ⟨kind, callee, hcall⟩ := hsuits.call
    have hnext := hflows.next (by rw [hcall]; rfl)
    unfold Block.framed
    rw [hx]
    refine hsuits.flows (h.accepted hb hx) ?_
    rw [hafter]
    exact h.below_start hnext

/-- from the label in front of a call on, the locals are those of the call -/
theorem Ready.locals_open (h : l.Ready m' p entry) (hb : l.blocks[n]? = some b)
    (hx : b.around = some x) (hq : l.Within n q) (hopen : l.start n + (x.ownAt - 1) ≤ q)
    (he : (l.framed entry)[q]? = some (some f, i)) : f.locals = x.frame.locals := by
  have hl := h.lays.toLaid
  obtain ⟨result, hsuits⟩ := h.suits hb hx
  have hframe := hl.frame_around hb hx
  have hblock : b.framed a l.ret entry (some x.frame) = x.framed a l.ret b.own entry := by
    unfold Block.framed
    rw [hx]
    rfl
  have hlength := l.length_framed_block hb entry (some x.frame)
  obtain ⟨j, rfl⟩ := Nat.exists_eq_add_of_le hopen
  have hlt := hq.2
  rw [Nat.add_assoc, hl.getElem?_framed h.length hb hframe (by omega), hblock,
    ← List.getElem?_drop, (x.framedAt a l.ret b.own entry).onward] at he
  exact hsuits.locals_framedInvoke _ (List.mem_of_getElem? he) f rfl

/-- what is thrown arrives at the handlers of the woven method -/
theorem Ready.handlers (h : l.Ready m' p entry) (he : (l.framed entry)[q]? = some (some f, i))
    {t : TryCatch} (ht : t ∈ m'.tryCatches) (hprotects : t.Protects m'.code q) :
    l.Accepts m' p entry t.handler ⟨f.locals, [.ref (t.catchType.getD throwableType)]⟩ := by
  have hl := h.lays.toLaid
  obtain ⟨excluded, table, hex, hsplit, hclips⟩ := hl.splitRegions_clips h.fits
    h.framed.tableDefined (h.lays.regionsOrdered h.fits)
  obtain ⟨table', htable', heq⟩ := h.lays.table
  rw [hl.code_eq] at hsplit
  obtain rfl : table' = table := Except.ok.inj (htable'.symm.trans hsplit)
  have htables : m'.tryCatches = l.handlers ++ table' := by rw [heq]
  rw [htables] at ht
  rcases List.mem_append.1 ht with ht | ht
  · -- the handler of a call
    obtain ⟨k, b, x, hb, hx, hu, -, hcatch, hiff, hhandler⟩ := hl.siteHandler h.fits ht
    obtain ⟨hlow, hhigh⟩ := (hiff q).1 hprotects
    obtain ⟨hown, hafter, hno, hnext⟩ := hl.places hb hx
    have hlocals := h.locals_open hb hx ⟨by omega, by omega⟩ hlow he
    rw [hlocals, hcatch]
    exact accepts_of hhandler
      (h.getElem?_around hb hx ((x.framedAt a l.ret b.own entry).handler hu))
  · -- what is left of an entry of the method
    have hcovered := mem_coverage ht hprotects
    have hout : Outside excluded q := by
      refine Classical.byContradiction fun hout => ?_
      rw [hclips.excluded q hout] at hcovered
      exact absurd hcovered (by simp)
    have hkept := (hclips.fewer q hout).subset hcovered
    have hblocks : l.start 0 ≤ q := by
      refine Nat.le_of_not_lt fun hlt => ?_
      rw [hl.coverage_prologue h.fits hlt] at hkept
      exact absurd hkept (by simp)
    have hlt : q < m'.code.length := by
      rw [← hl.map_snd_framed h.length entry, List.length_map]
      exact (List.getElem?_eq_some_iff.1 he).1
    obtain ⟨n, hn, hin⟩ := hl.exists_within hblocks hlt
    rw [hl.coverage_within h.fits hin] at hkept
    obtain ⟨t', ht', hprotects', heq'⟩ := of_mem_coverage hkept
    obtain ⟨hcatch, hhandler⟩ := Prod.mk.inj heq'
    obtain ⟨b, hb, -⟩ := hl.block (List.getElem?_eq_getElem hn)
    -- the locals are those of the instruction
    obtain ⟨g, hg, hlocals⟩ : ∃ g, a.frames[n]? = some (some g) ∧ f.locals = g.locals := by
      cases hx : b.around with
      | some x =>
        refine ⟨x.frame, hl.frame_around hb hx, h.locals_open hb hx hin ?_ he⟩
        refine Nat.le_of_not_lt fun hbefore => ?_
        exact hl.not_outside h.fits hex hb hx (.inl ⟨hin.1, hbefore⟩) hout
      | none =>
        obtain ⟨fs, hfs⟩ : ∃ fs, a.frames[n]? = some fs :=
          ⟨_, List.getElem?_eq_getElem (by rw [h.length]; exact hn)⟩
        have hblock : b.framed a l.ret entry fs = [(fs, b.own)] := by
          unfold Block.framed
          rw [hx]
          rfl
        have hlength := l.length_framed_block hb entry fs
        rw [hblock, List.length_singleton] at hlength
        obtain ⟨hlow, hhigh⟩ := hin
        obtain rfl : q = l.start n + 0 := by omega
        rw [hl.getElem?_framed h.length hb hfs (by rw [hblock]; exact Nat.one_pos), hblock] at he
        obtain ⟨rfl, -⟩ := Prod.mk.inj (Option.some.inj he)
        exact ⟨f, hfs, rfl⟩
    obtain ⟨_, hflows⟩ := h.framed.flowsAt (List.getElem?_eq_getElem hn) hg
    obtain ⟨k, hk, hbelow⟩ := hflows.handlers t' ht' hprotects'
    rw [hlocals, hcatch, hhandler]
    exact h.accepts_own (mem_labels_of_table ht').2.2 hk hbelow

/-- **What flows out** of an instruction of the woven code is below the frames of where it arrives -/
theorem Ready.flowsAt (h : l.Ready m' p entry) (he : (l.framed entry)[q]? = some (some f, i)) :
    ∃ g, m'.FlowsAt p (l.frames entry) q i f g := by
  have hl := h.lays.toLaid
  obtain ⟨g, happly, htargets, hnext⟩ : ∃ g, f.apply i = .ok g ∧
      (∀ lab ∈ i.targets, l.Accepts m' p entry lab g) ∧
      (i.fallsThrough = true → Flow.Below p (l.frames entry) (q + 1, g)) := by
    rcases Nat.lt_or_ge q (l.start 0) with hlt | hge
    · have hpiece : (l.framed entry).drop 0 = l.framedPrologue entry ++
          (l.framed entry).drop (0 + (l.framedPrologue entry).length) := by
        rw [Nat.zero_add]
        unfold Layout.framed
        rw [List.drop_left]
        rfl
      rw [getElem?_framed_prologue hlt] at he
      have hflows := flows_piece hpiece (flows_framedPrologue h.prologueAccepted (by
        rw [length_framedPrologue, Nat.zero_add]
        exact h.below_start h.framed.below_entry)) he
      rw [Nat.zero_add] at hflows
      exact hflows
    · have hlt : q < m'.code.length := by
        rw [← hl.map_snd_framed h.length entry, List.length_map]
        exact (List.getElem?_eq_some_iff.1 he).1
      obtain ⟨n, hn, hin⟩ := hl.exists_within hge hlt
      obtain ⟨b, hb, -⟩ := hl.block (List.getElem?_eq_getElem hn)
      obtain ⟨fs, hfs⟩ : ∃ fs, a.frames[n]? = some fs :=
        ⟨_, List.getElem?_eq_getElem (by rw [h.length]; exact hn)⟩
      have hlength := l.length_framed_block hb entry fs
      obtain ⟨hlow, hhigh⟩ := hin
      obtain ⟨j, rfl⟩ := Nat.exists_eq_add_of_le hlow
      rw [hl.getElem?_framed h.length hb hfs (by omega)] at he
      have hpiece := hl.drop_framed h.length entry hb hfs
      rw [← hlength] at hpiece
      refine flows_piece hpiece ?_ he
      rw [hlength]
      exact h.flows_block hb hfs
  refine ⟨g, happly, htargets, hnext, fun t ht hprotects => h.handlers he ht hprotects⟩

/-- every frame of the woven code is sound -/
theorem Ready.sound (h : l.Ready m' p entry) :
    ∀ e ∈ l.framed entry, ∀ f, e.1 = some f → f.Sound entry.locals.length := by
  have hl := h.lays.toLaid
  intro e he f hf
  unfold Layout.framed at he
  rcases List.mem_append.1 he with he | he
  · have hpush : (entry.push .int).Sound entry.locals.length := by
      refine ⟨h.entrySound.length, h.entrySound.wide, fun c hc => ?_⟩
      rw [Frame.push, h.entryStack, List.mem_singleton] at hc
      exact ⟨.int, by rw [hc]; rfl⟩
    unfold framedPrologue at he
    simp only [List.mem_append] at he
    rcases he with he | he | he | he | he
    · exact h.entrySound.through e he f hf
    · exact hpush.through e he f hf
    · exact h.entrySound.through e he f hf
    · exact hpush.through e he f hf
    · exact h.entrySound.through e he f hf
  · obtain ⟨⟨b, fs⟩, hmem, he⟩ := List.mem_flatMap.1 he
    obtain ⟨n, hn⟩ := List.mem_iff_getElem?.1 hmem
    obtain ⟨hb, hfs⟩ := List.getElem?_zip_eq_some.1 hn
    unfold Block.framed at he
    cases hx : b.around with
    | none =>
      rw [hx] at he
      rw [List.mem_singleton.1 he] at hf
      exact h.framed.sound n f (by rw [hfs]; exact congrArg some hf)
    | some x =>
      rw [hx] at he
      obtain ⟨result, hsuits⟩ := h.suits hb hx
      exact hsuits.sound_framed e he f hf

/-- **Frames can be assigned** to the woven code -/
theorem Ready.assigned (h : l.Ready m' p entry) : m'.Framed p entry (l.frames entry) := by
  have hl := h.lays.toLaid
  have hprologue : (l.framed entry)[0]? = some (some entry, Intrinsic.exists.call) := rfl
  exact .of_flows (hl.map_snd_framed h.length entry)
    (h.lays.tableDefined h.fits h.framed.tableDefined) h.sound (below_of_getElem? hprologue)
    fun _ _ _ he => h.flowsAt he

end Layout

/-! ## every woven method -/

namespace Joined

def owner : String := "demo/R"

/-- the callee of the site -/
def step : MethodId := ⟨owner, "step", "()V"⟩

/-- a method without parameters -/
def run (maxLocals : UInt16) (code : List Insn) : Method where
  name := "run"
  desc := "()V"
  isStatic := true
  maxLocals
  code
  tryCatches := []
  localVars := []

def analysisOf (m : Method) (frames : List (Option Frame)) : Analysis where
  method := m.id owner
  isStatic := true
  rootEntry := false
  calls := 1
  restorePoints := [step]
  unpatchable := []
  frames
  insns := m.code

def entry (maxLocals : Nat) : Frame := .entry owner true ⟨[], none⟩ maxLocals

section
variable {m : Method} {p : Program} {e f g : Frame} {frames : List (Option Frame)} {n k : Nat}
  {i : Insn} {lab : Label}

end

/-- null in a local -/
def holding : Method := run 1 [.nullConst, .store .ref 0, .invoke .static step, .ret none]

end Joined
end Resumable
