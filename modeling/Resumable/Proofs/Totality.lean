import Resumable.Proofs.Literals
import Resumable.Proofs.Refusals
import Resumable.Proofs.Regions

/-!
# Weaving every analyzed method

Weaving asks its analysis for the frame of every call of a restore point, and the frame for the operands of the
call; clipping asks the woven code for the range that remains of a region.  The frames and the operands are there,
and what remains of a region lies within it.  What is left to go wrong is a region that ends before it starts, which
the analyzer lets through because it protects nothing: clipping keeps it, and its range is not there.

* `Analysis.Complete`, `Analysis.Sound.complete` : what weaving asks of an analysis;
* `Layout.Laid.splitRegion_cases` : a region of the method is clipped, or ends before it starts;
* `Layout.Laid.reversed_iff` : so for the table;
* `Analysis.Sound.weaveBody_error_iff` : no step but clipping fails;
* `weave_total` : when weaving asks for a range that there is not.
-/

namespace Resumable

/-! ## what weaving asks of an analysis -/

/-- the operands of a call, a receiver with them -/
theorem CallShape.length_window {kind : InvokeKind} {desc : MethodDesc} {f : Frame} {s : CallShape}
    (h : CallShape.of? kind desc f = some s) :
    s.window.length = desc.params.length + if kind.hasReceiver then 1 else 0 := by
  unfold CallShape.of? at h
  dsimp only at h
  generalize desc.params.length + (if kind.hasReceiver then 1 else 0) = width at h ⊢
  by_cases hwidth : width ≤ f.stack.length
  · rw [if_pos hwidth] at h
    rw [← Option.some.inj h, List.length_reverse, List.length_take, Nat.min_eq_left hwidth]
  · rw [if_neg hwidth] at h
    exact absurd h (by simp)

/-- An analysis has all that weaving a method asks it for: a frame for every position or none, sites in the code, and
the operands of every site that is reached. -/
structure Analysis.Complete (a : Analysis) (m : Method) : Prop where
  frames : a.frames.length = m.code.length
  sites : ∀ s ∈ sitesOf a m.nextLabel, m.code[s.position]? = some (.invoke s.kind s.callee)
  operands : ∀ s ∈ sitesOf a m.nextLabel, ∀ f, s.frame = some f → ∃ desc shape,
    MethodDesc.parse? s.callee.desc = some desc ∧ CallShape.of? s.kind desc f = some shape ∧
      shape.window.length = desc.params.length + if s.kind.hasReceiver then 1 else 0

/-- **An analysis** has all that weaving its method asks it for -/
theorem Analysis.Sound.complete {a : Analysis} {p : Program} {owner : String} {m : Method} (h : a.Sound p owner m) :
    a.Complete m where
  frames := h.length_frames
  sites s hs := by
    obtain ⟨j, i, hj, hp, -, hdescribes⟩ := sitesFrom_sound hs
    rwa [h.insns, show j = s.position by omega, hdescribes.call] at hj
  operands s hs f hf := by
    obtain ⟨desc, shape, hdesc, hshape⟩ := h.shape_ok hs hf
    exact ⟨desc, shape, hdesc, hshape, CallShape.length_window hshape⟩

/-! ## what clipping asks of the code -/

namespace Layout

variable {a : Analysis} {m m' : Method} {l : Layout a m} {excluded : List Region} {t : TryCatch}

/-- no block is empty -/
theorem Laid.start_lt (h : l.Laid m') {n k : Nat} (hnk : n < k) (hk : k ≤ m.code.length) : l.start n < l.start k := by
  have hplace := h.place_within (Nat.lt_of_lt_of_le hnk hk)
  have hnext : l.start (n + 1) ≤ l.start k := l.start_mono hnk
  have hfirst := hplace.1
  have hlast := hplace.2
  omega

/-- a region of the method that ends before it starts does so in the woven code, and no excluded range holds it -/
theorem Laid.backward (h : l.Laid m') (hfit : l.Fits)
    (hex : l.exclusions.mapM (exclusionRegion m'.code) = .ok excluded) (ht : t ∈ m.tryCatches) {start stop : Nat}
    (hstart : labelPosition t.start m.code = some start) (hstop : labelPosition t.stop m.code = some stop)
    (hlt : stop < start) : t.Backward m'.code excluded := by
  obtain ⟨hs, he, -⟩ := mem_labels_of_table ht
  have hcode := labelPosition_lt hstart
  refine ⟨l.start start, l.start stop, ?_, ?_, h.start_lt hlt (Nat.le_of_lt hcode), fun ex hmem hin => ?_⟩
  · rw [h.labelPosition_own hfit hs, hstart]
    rfl
  · rw [h.labelPosition_own hfit he, hstop]
    rfl
  -- an excluded range lies in one block, which would begin before the region ends and end after it starts
  · obtain ⟨k, b, x, -, -, hproper, hwithin, -⟩ := h.excluded_within hfit hex hmem
    obtain ⟨hfirst, -⟩ := hwithin ex.start (.inl ⟨Nat.le_refl _, hproper⟩)
    obtain ⟨-, hlast⟩ := hwithin ex.stop (.inr rfl)
    have hbefore : k < stop := by
      refine Nat.lt_of_not_le fun hle => ?_
      have := l.start_mono hle
      omega
    have := l.start_mono (show k + 1 ≤ start by omega)
    omega

/-- **A region of the method** is clipped, or ends before it starts -/
theorem Laid.splitRegion_cases (h : l.Laid m') (hfit : l.Fits) (htable : m.TableDefined)
    (hex : l.exclusions.mapM (exclusionRegion m'.code) = .ok excluded) (ht : t ∈ m.tryCatches) :
    ∃ start stop, labelPosition t.start m.code = some start ∧ labelPosition t.stop m.code = some stop ∧
      (start ≤ stop ∧ (∃ es, splitRegion m'.code excluded t = .ok es) ∨
        stop < start ∧ splitRegion m'.code excluded t = .error (.reversedRegion t.start t.stop)) := by
  obtain ⟨⟨start, hstart⟩, ⟨stop, hstop⟩, -⟩ := htable t ht
  refine ⟨start, stop, hstart, hstop, ?_⟩
  by_cases hle : start ≤ stop
  · obtain ⟨es, hes, -⟩ := splitRegion_clips (h.excluded_apart hfit hex)
      (fun ex hmem => (h.excluded_ok hfit hex ex hmem).1) (h.clippable hfit hex ht hstart hstop hle)
    exact .inl ⟨hle, es, hes⟩
  · have hlt := Nat.lt_of_not_le hle
    exact .inr ⟨hlt, splitRegion_reversed_iff.2 ⟨h.backward hfit hex ht hstart hstop hlt, rfl, rfl⟩⟩

/-- **The table** of the method is clipped unless a region ends before it starts -/
theorem Laid.reversed_iff (h : l.Laid m') (hfit : l.Fits) (htable : m.TableDefined) :
    (∃ s e, splitRegions m'.code m.tryCatches l.exclusions = .error (.reversedRegion s e)) ↔ ¬ m.RegionsOrdered := by
  constructor
  · rintro ⟨s, e, he⟩ hordered
    obtain ⟨-, table, -, hok, -⟩ := h.splitRegions_clips hfit htable hordered
    exact absurd (hok.symm.trans he) (by simp)
  · intro hnot
    obtain ⟨excluded, hex⟩ := h.exclusions_ok hfit
    have hsplit : splitRegions m'.code m.tryCatches l.exclusions =
        collectEntries (splitRegion m'.code excluded) m.tryCatches := by
      unfold splitRegions
      rw [hex]
      rfl
    rw [hsplit]
    cases hresult : collectEntries (splitRegion m'.code excluded) m.tryCatches with
    | ok es =>
      refine absurd (fun t ht start stop hstart hstop => ?_) hnot
      obtain ⟨start', stop', hstart', hstop', hcases⟩ := h.splitRegion_cases hfit htable hex ht
      obtain rfl := Option.some.inj (hstart.symm.trans hstart')
      obtain rfl := Option.some.inj (hstop.symm.trans hstop')
      rcases hcases with ⟨hle, -⟩ | ⟨-, he⟩
      · exact hle
      · obtain ⟨ds, hds⟩ := (collectEntries_ok hresult).1 t ht
        exact absurd (hds.symm.trans he) (by simp)
    | error failure =>
      obtain ⟨before, t, after, heq, -, he⟩ := collectEntries_error_iff.1 hresult
      obtain ⟨_, _, -, -, hcases⟩ := h.splitRegion_cases (t := t) hfit htable hex (by rw [heq]; simp)
      rcases hcases with ⟨-, es, hes⟩ | ⟨-, he'⟩
      · exact absurd (hes.symm.trans he) (by simp)
      · obtain rfl := Except.error.inj (he.symm.trans he')
        exact ⟨t.start, t.stop, rfl⟩

end Layout

/-! ## weaving -/

/-- the first region of a method that is not clipped ends before it starts in the woven code, and no excluded range
holds all of it -/
def Analysis.Reverses (a : Analysis) (m : Method) (t : TryCatch) : Prop :=
  ∃ desc r excluded before after, MethodDesc.parse? m.desc = some desc ∧
    weaveCode a (desc.ret.map FieldType.kind) m.nextLabel = .ok r ∧
    r.exclusions.mapM (exclusionRegion r.code) = .ok excluded ∧ m.tryCatches = before ++ t :: after ∧
    (∀ u ∈ before, ∃ es, splitRegion r.code excluded u = .ok es) ∧ t.Backward r.code excluded

section
variable {a : Analysis} {p : Program} {owner : String} {m : Method}

/-- an accepted method with instructions that are equal to themselves is woven unless clipping its table fails -/
theorem Analysis.Sound.weaveBody_error_iff (h : a.Sound p owner m) (hneeds : a.needsWeaving = true)
    (hself : (m.code == m.code) = true) :
    ∃ (l : Layout a m) (r : Woven), MethodDesc.parse? m.desc = some l.desc ∧
      weaveCode a l.ret m.nextLabel = .ok r ∧ r.code = l.code ∧ r.exclusions = l.exclusions ∧
      l.Laid { m with code := l.code } ∧ ∀ failure, weaveBody a m = .error failure ↔
        splitRegions r.code m.tryCatches r.exclusions = .error failure := by
  obtain ⟨l, r, hdesc, hr, hcode, hexclusions, hlaid, hbody⟩ := h.weaveBody_eq hneeds hself
  refine ⟨l, r, hdesc, hr, hcode, hexclusions, hlaid, fun failure => ?_⟩
  rw [hbody, Effect.bind_eq_error]
  simp

/-- an analysis is not applied to its own method if that holds an instruction that is not equal to itself -/
theorem Analysis.Sound.weaveBody_stale (h : a.Sound p owner m) (hneeds : a.needsWeaving = true)
    (hself : ¬ (m.code == m.code) = true) : weaveBody a m = .error .staleAnalysis := by
  unfold weaveBody
  rw [hneeds, h.describes_eq, Bool.eq_false_iff.2 hself]
  rfl

/-- when weaving asks for a range that there is not -/
theorem Analysis.Sound.reversed_iff (h : a.Sound p owner m) (hneeds : a.needsWeaving = true) {s e : Label} :
    weaveBody a m = .error (.reversedRegion s e) ↔
      (m.code == m.code) = true ∧ ∃ t, a.Reverses m t ∧ s = t.start ∧ e = t.stop := by
  by_cases hself : (m.code == m.code) = true
  · obtain ⟨l, r, hdesc, hr, -, -, -, hbody⟩ := h.weaveBody_error_iff hneeds hself
    rw [hbody, splitRegions_reversed_iff, and_iff_right hself]
    constructor
    · rintro ⟨excluded, before, t, after, hex, htable, hbefore, hback, hends⟩
      exact ⟨t, ⟨l.desc, r, excluded, before, after, hdesc, hr, hex, htable, hbefore, hback⟩, hends⟩
    · rintro ⟨t, ⟨desc, r', excluded, before, after, hdesc', hr', hex, htable, hbefore, hback⟩, hends⟩
      obtain rfl := Option.some.inj (hdesc.symm.trans hdesc')
      obtain rfl := Except.ok.inj (hr.symm.trans hr')
      exact ⟨excluded, before, t, after, hex, htable, hbefore, hback, hends⟩
  · rw [h.weaveBody_stale hneeds hself]
    simp [hself]

/-- where no label gets the number of another one, it is when a region ends before it starts -/
theorem Analysis.Sound.reversed_iff_not_ordered (h : a.Sound p owner m) (hneeds : a.needsWeaving = true)
    (hfit : LabelsFit m (newLabels (sitesOf a m.nextLabel))) :
    (∃ s e, weaveBody a m = .error (.reversedRegion s e)) ↔ (m.code == m.code) = true ∧ ¬ m.RegionsOrdered := by
  by_cases hself : (m.code == m.code) = true
  · obtain ⟨l, r, -, -, hcode, hexclusions, hlaid, hbody⟩ := h.weaveBody_error_iff hneeds hself
    simp only [hbody, hcode, hexclusions, and_iff_right hself]
    exact hlaid.reversed_iff hfit h.tableDefined
  · rw [h.weaveBody_stale hneeds hself]
    simp [hself]

/-- **Weaving an analyzed method**: clipping ends, and what it leaves of a region lies within it; the analysis has
all that it is asked for; and the woven code has every range that it is asked for unless a region, the first one that
is not clipped, ends before it starts.  Where labels fit, there is such a region if one of the method's is. -/
theorem weave_total {declared : List RestorePoint} {rootEntry : Bool}
    (ha : Analysis.analyze p owner m declared rootEntry = .ok a) (hneeds : a.needsWeaving = true) :
    (∀ exs length r, ∃ end?, Region.Loop exs [r] [] end? ∧
      Region.pieces exs length r = end?.map Region.sortByStart ∧
        ∀ rs, end? = some rs → ∀ s ∈ rs, s = r ∨ s.PartOf r) ∧
    a.Complete m ∧
    (∀ s e, weaveMethod a m = .error ⟨a.method, .reversedRegion s e⟩ ↔
      (∀ i ∈ m.code, i.isNaN = false) ∧ ∃ t, a.Reverses m t ∧ s = t.start ∧ e = t.stop) ∧
    (LabelsFit m (newLabels (sitesOf a m.nextLabel)) →
      ((∃ s e, weaveMethod a m = .error ⟨a.method, .reversedRegion s e⟩) ↔
        (∀ i ∈ m.code, i.isNaN = false) ∧ ¬ m.RegionsOrdered)) := by
  have hsound := Analysis.analyze_sound ha
  have hself : (∀ i ∈ m.code, i.isNaN = false) ↔ (m.code == m.code) = true := by
    rw [Insn.beq_list_iff, and_iff_left rfl]
  refine ⟨fun exs length r => ?_, hsound.complete, fun s e => ?_, fun hfit => ?_⟩
  · obtain ⟨end?, hloop, hpieces⟩ := Region.loop_pieces exs length r
    refine ⟨end?, hloop, hpieces, fun rs hrs s hs => ?_⟩
    rw [hrs] at hpieces
    exact Region.pieces_part hpieces s (Region.mem_sortByStart.2 hs)
  · rw [weaveMethod_eq_error, hsound.reversed_iff hneeds, hself]
  · simp only [weaveMethod_eq_error, hself]
    exact hsound.reversed_iff_not_ordered hneeds hfit

end

namespace Trying

/-- a region in order -/
theorem weave_total_plain :
    Analysis.analyze .empty owner plain [{ RestorePoint.ofName "step" with patchable := false }] false =
        .ok plainAnalysis ∧
      plainAnalysis.needsWeaving = true ∧ LabelsFit plain (newLabels (sitesOf plainAnalysis plain.nextLabel)) ∧
      plainAnalysis.Complete plain ∧
      ∀ s e, weaveMethod plainAnalysis plain ≠ .error ⟨plainAnalysis.method, .reversedRegion s e⟩ := by
  have ha : Analysis.analyze .empty owner plain
      [{ RestorePoint.ofName "step" with patchable := false }] false = .ok plainAnalysis := rfl
  obtain ⟨-, hcomplete, -, hordered⟩ := weave_total ha rfl
  refine ⟨ha, rfl, labelsFit_plain, hcomplete, fun s e he => ?_⟩
  exact ((hordered labelsFit_plain).1 ⟨s, e, he⟩).2 regionsOrdered_plain

/-- the region ends before it starts -/
def backward : Method := { plain with tryCatches := [⟨⟨1⟩, ⟨0⟩, ⟨2⟩, none⟩] }

def backwardAnalysis : Analysis :=
  { analysisOf backward [] with
    frames := [some ⟨[], []⟩, some ⟨[], []⟩, some ⟨[], []⟩, some ⟨[], []⟩, none, none, none, none] }

/-- such a region protects nothing, and the method is analyzed; weaving it asks for a range that there is not -/
theorem not_total_backward :
    Analysis.analyze .empty owner backward [.ofName "step"] false = .ok backwardAnalysis ∧
      backwardAnalysis.needsWeaving = true ∧
      weaveMethod backwardAnalysis backward = .error ⟨backward.id owner, .reversedRegion ⟨1⟩ ⟨0⟩⟩ :=
  ⟨rfl, rfl, rfl⟩

end Trying
end Resumable
