import Resumable.Proofs.Coverage
import Resumable.Proofs.Taken

/-!
# Exception regions of woven methods

A method that the analyzer accepts, and whose regions do not end before they start, is woven unless it
has nothing to weave.  Behind the handlers of single calls the woven table holds the method's own
entries: they cover what they covered before, the code that passes on what an unpatchable call has
thrown is covered as the call is, and other injected code is covered by nothing.

* `Layout.place` : where the copy of an instruction stands;
* `Layout.Laid.splitRegions_clips` : clipping the table of a woven method goes well;
* `Analysis.Sound.weaveBody_ok` : so does weaving;
* `region_integrity` : what the entries of the woven method cover.
-/

namespace Resumable

/-- no region of the method ends before it starts -/
def Method.RegionsOrdered (m : Method) : Prop :=
  ∀ t ∈ m.tryCatches, ∀ start stop, labelPosition t.start m.code = some start →
    labelPosition t.stop m.code = some stop → start ≤ stop

namespace Layout

variable {a : Analysis} {m m' : Method} {l : Layout a m} {n k q : Nat} {b : Block} {x : Around}

/-! ## places -/

/-- where the copy of an instruction stands -/
def place (l : Layout a m) (n : Nat) : Nat := l.start n + ((l.blocks[n]?).map Block.ownAt).getD 0

theorem place_eq (hb : l.blocks[n]? = some b) : l.place n = l.start n + b.ownAt := by
  rw [place, hb]
  rfl

theorem Laid.place_within (h : l.Laid m') (hn : n < m.code.length) : l.Within n (l.place n) := by
  obtain ⟨b, hb, -⟩ := h.block (List.getElem?_eq_getElem hn)
  rw [place_eq hb]
  exact (h.holds_own hb).2

theorem Laid.length_code (h : l.Laid m') : m'.code.length = l.start m.code.length := by
  rw [h.code_eq, code, start, List.length_append, List.take_of_length_le (Nat.le_of_eq h.length_blocks)]

/-- a place behind the prologue lies in a block -/
theorem Laid.exists_within (h : l.Laid m') (hq : l.start 0 ≤ q) (hlt : q < m'.code.length) :
    ∃ n < m.code.length, l.Within n q := by
  rw [h.length_code] at hlt
  generalize m.code.length = length at hlt
  induction length with
  | zero => omega
  | succ length ih =>
    by_cases hlast : q < l.start length
    · obtain ⟨n, hn, hin⟩ := ih hlast
      exact ⟨n, by omega, hin⟩
    · exact ⟨length, by omega, by omega, hlt⟩

/-- the parts of a block have these places -/
theorem Laid.places (h : l.Laid m') (hb : l.blocks[n]? = some b) (hx : b.around = some x) :
    5 ≤ x.ownAt ∧ x.afterAt = x.ownAt + 2 + (rethrowCode x.site x.labels).length ∧
      x.afterAt + 3 ≤ x.noYieldAt a l.ret ∧
      l.start (n + 1) = l.start n + (x.noYieldAt a l.ret + 1 + x.ending.length) := by
  obtain ⟨-, hnext⟩ := h.stand hb hx
  refine ⟨?_, rfl, ?_, hnext⟩
  · unfold Around.ownAt
    omega
  · unfold Around.noYieldAt
    omega

/-! ## excluded ranges -/

theorem exists_mapM_ok {α β ε : Type} {f : α → Except ε β} {xs : List α}
    (h : ∀ x ∈ xs, ∃ y, f x = .ok y) : ∃ ys, xs.mapM f = .ok ys := by
  induction xs with
  | nil => exact ⟨[], rfl⟩
  | cons x xs ih =>
    obtain ⟨y, hy⟩ := h x List.mem_cons_self
    obtain ⟨ys, hys⟩ := ih fun x hx => h x (List.mem_cons_of_mem _ hx)
    refine ⟨y :: ys, ?_⟩
    rw [List.mapM_cons, hy, hys]
    rfl

/-- the ends of every excluded range are found -/
theorem Laid.exclusions_ok (h : l.Laid m') (hfit : l.Fits) :
    ∃ excluded, l.exclusions.mapM (exclusionRegion m'.code) = .ok excluded := by
  refine exists_mapM_ok fun e he => ?_
  obtain ⟨b, hb, he⟩ := List.mem_flatMap.1 he
  obtain ⟨k, hk⟩ := List.mem_iff_getElem?.1 hb
  unfold Block.exclusions at he
  split at he
  · exact absurd he (by simp)
  · rename_i x hx
    have hfound := h.found hfit hk hx
    have hends {start stop : Nat} (hstart : labelPosition e.start m'.code = some start)
        (hstop : labelPosition e.stop m'.code = some stop) :
        ∃ r, exclusionRegion m'.code e = .ok r := by
      unfold exclusionRegion regionPosition
      rw [hstart, hstop]
      exact ⟨_, rfl⟩
    rcases List.mem_cons.1 he with rfl | he
    · exact hends hfound.pre hfound.invoke
    · obtain rfl := List.mem_singleton.1 he
      exact hends hfound.after hfound.post

variable {excluded : List Region}

/-- an excluded range lies in a block, and so does its end -/
theorem Laid.excluded_within (h : l.Laid m') (hfit : l.Fits)
    (hex : l.exclusions.mapM (exclusionRegion m'.code) = .ok excluded) {ex : Region}
    (hmem : ex ∈ excluded) :
    ∃ k b x, l.blocks[k]? = some b ∧ b.around = some x ∧ ex.start < ex.stop ∧
      (∀ q, ex.Has q ∨ q = ex.stop → l.Within k q) ∧
      (ex = ⟨l.start k, l.start k + (x.ownAt - 1)⟩ ∨
        ex = ⟨l.start k + x.afterAt, l.start k + (x.noYieldAt a l.ret + x.ending.length)⟩) := by
  obtain ⟨-, k, b, x, hk, hx, heq⟩ := h.excluded_ok hfit hex ex hmem
  obtain ⟨hown, hafter, hno, hnext⟩ := h.places hk hx
  refine ⟨k, b, x, hk, hx, ?_, fun q hq => ?_, heq⟩
  · rcases heq with rfl | rfl <;> dsimp only <;> omega
  · unfold Region.Has at hq
    rcases heq with rfl | rfl <;> dsimp only at hq <;> exact ⟨by omega, by omega⟩

theorem Laid.excluded_apart (h : l.Laid m') (hfit : l.Fits)
    (hex : l.exclusions.mapM (exclusionRegion m'.code) = .ok excluded) :
    Region.Apart excluded m'.code.length := by
  refine ⟨fun ex hmem => ?_, fun ex hmem ex' hmem' hhas => ?_⟩
  · obtain ⟨k, b, x, hk, -, hproper, hin, -⟩ := h.excluded_within hfit hex hmem
    have hlast := (hin ex.stop (.inr rfl)).2
    obtain ⟨hlt, -⟩ := List.getElem?_eq_some_iff.1 hk
    have hmono := l.start_mono (show k + 1 ≤ m.code.length by rw [← h.length_blocks]; omega)
    rw [h.length_code]
    exact ⟨hproper, by omega⟩
  · obtain ⟨k, b, x, hk, hx, -, hin, heq⟩ := h.excluded_within hfit hex hmem
    obtain ⟨k', b', x', hk', hx', -, hin', heq'⟩ := h.excluded_within hfit hex hmem'
    -- a range that holds the end of another one belongs to the same call
    obtain rfl := (hin _ (.inr rfl)).inj (hin' _ (.inl hhas))
    obtain rfl := Option.some.inj (hk.symm.trans hk')
    obtain rfl := Option.some.inj (hx.symm.trans hx')
    obtain ⟨hown, hafter, hno, -⟩ := h.places hk hx
    obtain ⟨h1, h2⟩ := hhas
    rcases heq with rfl | rfl <;> rcases heq' with rfl | rfl <;> dsimp only at h1 h2 <;> omega

/-- a label of the method has nothing around it -/
theorem Laid.around_label (h : l.Laid m') (hb : l.blocks[n]? = some b) {lab : Label}
    (hlab : labelPosition lab m.code = some n) : b.around = none := by
  cases hx : b.around with
  | none => rfl
  | some x =>
    obtain ⟨-, -, -, -, hinvoke⟩ := h.site_of_around hb hx
    have hown := h.own hb
    rw [getElem?_of_labelPosition hlab, hinvoke] at hown
    exact absurd hown (by simp)

/-- **A region of the method** can be clipped unless it ends before it starts -/
theorem Laid.clippable (h : l.Laid m') (hfit : l.Fits)
    (hex : l.exclusions.mapM (exclusionRegion m'.code) = .ok excluded) {t : TryCatch}
    (ht : t ∈ m.tryCatches) {start stop : Nat} (hstart : labelPosition t.start m.code = some start)
    (hstop : labelPosition t.stop m.code = some stop) (hle : start ≤ stop) : t.Clippable m'.code excluded := by
  obtain ⟨hs, he, -⟩ := mem_labels_of_table ht
  refine ⟨l.start start, l.start stop, ?_, ?_, l.start_mono hle, ?_, fun ex hmem hhas => ?_⟩
  · rw [h.labelPosition_own hfit hs, hstart]
    rfl
  · rw [h.labelPosition_own hfit he, hstop]
    rfl
  · rw [h.length_code]
    exact l.start_mono (Nat.le_of_lt (labelPosition_lt hstop))
  · obtain ⟨k, b, x, hk, hx, -, hin, -⟩ := h.excluded_within hfit hex hmem
    obtain ⟨b', hb', -⟩ := h.block (getElem?_of_labelPosition hstart)
    have hnone := h.around_label hb' hstart
    have hfirst := h.place_within (labelPosition_lt hstart)
    rw [place_eq hb', Block.ownAt, hnone] at hfirst
    obtain rfl := (hin _ (.inl hhas)).inj hfirst
    obtain rfl := Option.some.inj (hk.symm.trans hb')
    exact absurd (hnone.symm.trans hx) (by simp)

/-- **The table** of the method is clipped -/
theorem Laid.splitRegions_clips (h : l.Laid m') (hfit : l.Fits) (htable : m.TableDefined)
    (hordered : m.RegionsOrdered) :
    ∃ excluded table, l.exclusions.mapM (exclusionRegion m'.code) = .ok excluded ∧
      splitRegions m'.code m.tryCatches l.exclusions = .ok table ∧
      Clips m'.code excluded m.tryCatches table := by
  obtain ⟨excluded, hex⟩ := h.exclusions_ok hfit
  obtain ⟨table, htab, hclips⟩ := collectEntries_clips (h.excluded_apart hfit hex)
    (fun ex hmem => (h.excluded_ok hfit hex ex hmem).1)
    fun t ht => by
      obtain ⟨⟨start, hstart⟩, ⟨stop, hstop⟩, -⟩ := htable t ht
      exact h.clippable hfit hex ht hstart hstop (hordered t ht start stop hstart hstop)
  refine ⟨excluded, table, hex, ?_, hclips⟩
  unfold splitRegions
  rw [hex]
  exact htab

/-! ## what is covered -/

/-- nothing of the method protects the prologue -/
theorem Laid.coverage_prologue (h : l.Laid m') (hfit : l.Fits) (hq : q < l.start 0) :
    coverage m'.code m.tryCatches q = [] := by
  refine coverage_eq_nil fun t ht hprotects => ?_
  obtain ⟨start, stop, hstart, -, hle, -⟩ := hprotects
  rw [h.labelPosition_own hfit (mem_labels_of_table ht).1] at hstart
  obtain ⟨n, -, rfl⟩ := Option.map_eq_some_iff.1 hstart
  have := l.start_mono (Nat.zero_le n)
  omega

/-- in a block the method's entries cover what they covered at its instruction -/
theorem Laid.coverage_within (h : l.Laid m') (hfit : l.Fits) (hq : l.Within n q) :
    coverage m'.code m.tryCatches q = coverage m.code m.tryCatches n :=
  coverage_congr fun _ ht => h.protects_iff hfit ht hq

/-- what comes of a call whose callee is not woven before its level may be saved: where it stands -/
structure Passes (l : Layout a m) (code : List Insn) (s : Site) (q : Nat) : Prop where
  listed : s ∈ l.sites
  unpatchable : s.unpatchable = true
  reachable : s.frame.isSome
  behind : ∃ labels, Holds code (l.place s.position + 2) (rethrowCode s labels) ∧
    l.place s.position + 2 ≤ q ∧ q < l.place s.position + 2 + (rethrowCode s labels).length

/-- both ranges around a call are excluded -/
theorem Laid.not_outside (h : l.Laid m') (hfit : l.Fits)
    (hex : l.exclusions.mapM (exclusionRegion m'.code) = .ok excluded)
    (hb : l.blocks[n]? = some b) (hx : b.around = some x)
    (hq : Region.Has ⟨l.start n, l.start n + (x.ownAt - 1)⟩ q ∨
      Region.Has ⟨l.start n + x.afterAt, l.start n + (x.noYieldAt a l.ret + x.ending.length)⟩ q) :
    ¬ Outside excluded q := by
  intro hout
  have hfound := h.found hfit hb hx
  have hmem {e : Exclusion} {start stop : Nat} (he : e ∈ siteExclusions x.labels)
      (hstart : labelPosition e.start m'.code = some start)
      (hstop : labelPosition e.stop m'.code = some stop) : (⟨start, stop⟩ : Region) ∈ excluded := by
    have hlisted : e ∈ l.exclusions := by
      refine List.mem_flatMap.2 ⟨b, List.mem_of_getElem? hb, ?_⟩
      unfold Block.exclusions
      rw [hx]
      exact he
    obtain ⟨r, hr, hok⟩ := (Flow.mapM_ok hex).1 e hlisted
    unfold exclusionRegion regionPosition at hok
    rw [hstart, hstop] at hok
    rw [← Except.ok.inj hok] at hr
    exact hr
  have hfirst : (⟨x.labels.pre, x.labels.invoke⟩ : Exclusion) ∈ siteExclusions x.labels :=
    List.mem_cons_self
  have hsecond : (⟨x.labels.after, x.labels.post⟩ : Exclusion) ∈ siteExclusions x.labels :=
    List.mem_cons_of_mem _ List.mem_cons_self
  rcases hq with hq | hq
  · exact hout _ (hmem hfirst hfound.pre hfound.invoke) hq
  · exact hout _ (hmem hsecond hfound.after hfound.post) hq

end Layout

namespace Layout

variable {a : Analysis} {m m' : Method} {l : Layout a m}

end Layout

/-! ## weaving goes well -/

section
variable {a : Analysis} {p : Program} {owner : String} {m : Method}

theorem weaveFrom_total {ret : Option Kind} {sites : List Site}
    (h : ∀ s ∈ sites, ∀ f, s.frame = some f → ∀ base i, ∃ r, weaveSite a ret s f base i = .ok r)
    (position : Nat) (base : UInt32) (is : List Insn) :
    ∃ r, weaveFrom a ret sites position base is = .ok r := by
  induction is generalizing position base with
  | nil => exact ⟨.empty, rfl⟩
  | cons i is ih =>
    have hkeep : ∃ r, (do
        let rest ← weaveFrom a ret sites (position + 1) base is
        .ok ((keepInsn i).append rest) : Except WeaveFailure Woven) = .ok r := by
      obtain ⟨rest, hrest⟩ := ih (position + 1) base
      rw [hrest]
      exact ⟨_, rfl⟩
    rw [weaveFrom]
    split
    · rename_i s hs
      split
      · rename_i f hf
        obtain ⟨head, hhead⟩ := h s (find?_position hs).1 f hf base i
        obtain ⟨rest, hrest⟩ := ih (position + 1) (base + UInt32.ofNat labelsPerSite)
        rw [hhead, hrest]
        exact ⟨_, rfl⟩
      · exact hkeep
    · exact hkeep

/-- a failure names the method of the analysis -/
theorem weaveMethod_eq_error {failure : WeaveFailure} :
    weaveMethod a m = .error ⟨a.method, failure⟩ ↔ weaveBody a m = .error failure := by
  unfold weaveMethod
  split
  · rename_i m' h
    rw [h]
    simp
  · rename_i failure' h
    rw [h]
    simp

/-- code is woven if every reachable site is -/
theorem weaveCode_total {ret : Option Kind} {base : UInt32}
    (h : ∀ s ∈ sitesOf a base, ∀ f, s.frame = some f → ∀ base i, ∃ r, weaveSite a ret s f base i = .ok r) :
    ∃ r, weaveCode a ret base = .ok r := by
  obtain ⟨rest, hrest⟩ := weaveFrom_total h 0 (base + UInt32.ofNat (labelsBeforeSites (sitesOf a base))) a.insns
  unfold weaveCode
  dsimp only
  rw [hrest]
  exact ⟨_, rfl⟩

namespace Analysis.Sound

/-- **A reachable site** has the operands of its call -/
theorem shape_ok (h : a.Sound p owner m) {first : UInt32} {s : Site} (hs : s ∈ sitesOf a first) {f : Frame}
    (hf : s.frame = some f) :
    ∃ d shape, MethodDesc.parse? s.callee.desc = some d ∧ CallShape.of? s.kind d f = some shape := by
  obtain ⟨j, i', hj, hp, -, hdescribes⟩ := sitesFrom_sound hs
  have hframe := hdescribes.frame
  rw [hf] at hframe
  rw [h.insns, show j = s.position by omega, hdescribes.call] at hj
  obtain ⟨e, g, hhinted, hflows⟩ := h.flowsFrom hj (Option.join_eq_some_iff.1 hframe.symm)
  obtain ⟨d, cs, e', hd, htakes, hkinds, -⟩ := Frame.apply_invoke hflows.applied
  have hlength := Frame.length_of_kinds hkinds
  have hstack := htakes.length
  unfold Frame.operandKinds at hlength
  rw [List.length_append, List.length_map, List.length_reverse] at hlength
  have hwidth : d.params.length + (if s.kind.hasReceiver then 1 else 0) ≤ f.stack.length := by
    rw [hhinted.stack]
    by_cases hr : s.kind.hasReceiver = true
    · rw [if_pos hr, List.length_singleton] at hlength
      rw [if_pos hr]
      omega
    · rw [if_neg hr]
      omega
  exact ⟨d, _, hd, if_pos hwidth⟩

theorem weaveSite_ok (h : a.Sound p owner m) {first : UInt32} {s : Site} (hs : s ∈ sitesOf a first) {f : Frame}
    (hf : s.frame = some f) (ret : Option Kind) (base : UInt32) (i : Insn) :
    ∃ r, weaveSite a ret s f base i = .ok r := by
  obtain ⟨d, shape, hd, hshape⟩ := h.shape_ok hs hf
  unfold weaveSite
  rw [hd]
  dsimp only
  rw [hshape]
  exact ⟨_, rfl⟩

/-- there is a frame for every instruction, or none if nothing reaches it -/
theorem length_frames (h : a.Sound p owner m) : a.frames.length = m.code.length := by
  obtain ⟨_, _, fs, -, -, hsettled, hhinted⟩ := h.settled
  rw [hhinted.length, hsettled.length]

/-- an analysis describes its method, unless the method holds a constant that is not equal to itself -/
theorem describes_eq (h : a.Sound p owner m) : describes a m = (m.code == m.code) := by
  simp [describes, h.insns, h.length_frames, h.method, h.isStatic, Method.id]

/-- the code of an accepted method is woven, and what remains to be done is its table -/
theorem weaveBody_eq (h : a.Sound p owner m) (hneeds : a.needsWeaving = true) (hself : (m.code == m.code) = true) :
    ∃ (l : Layout a m) (r : Woven), MethodDesc.parse? m.desc = some l.desc ∧
      weaveCode a l.ret m.nextLabel = .ok r ∧ r.code = l.code ∧ r.exclusions = l.exclusions ∧
      l.Laid { m with code := l.code } ∧
      weaveBody a m = (do
        let table ← splitRegions r.code m.tryCatches r.exclusions
        .ok { m with code := r.code, tryCatches := r.handlers ++ table }) := by
  obtain ⟨desc, handlers, fs, hdesc, -, -, -⟩ := h.settled
  obtain ⟨r, hr⟩ := weaveCode_total fun s (hs : s ∈ sitesOf a m.nextLabel) f hf =>
    h.weaveSite_ok hs hf (desc.ret.map FieldType.kind)
  obtain ⟨l, rfl, hpieces, -, hexclusions, hlays⟩ := weaveCode_ok hr
  have hcode : r.code = l.code := by
    rw [Woven.code, hpieces, Layout.codeOf_pieces]
  rw [h.insns] at hlays
  refine ⟨l, r, hdesc, hr, hcode, hexclusions, ⟨hdesc, h.insns, hlays, rfl⟩, ?_⟩
  unfold weaveBody
  rw [hneeds, h.describes_eq, hself, hdesc, Analysis.on_eq h.insns]
  simp only [Bool.not_true, Bool.false_eq_true, if_false]
  rw [hr]
  rfl

end Analysis.Sound
end

/-! ## the regions of a woven method -/

namespace Trying

def owner : String := "demo/R"

def boom : MethodId := ⟨owner, "boom", "()V"⟩

/-- the callee of the site -/
def step : MethodId := ⟨owner, "step", "()V"⟩

/-- two calls in a region whose handler drops what they throw -/
def run (start stop handler : Label) : Method where
  name := "run"
  desc := "()V"
  isStatic := true
  maxLocals := 0
  code := [.label start, .invoke .static boom, .invoke .static step, .ret none, .label stop,
    .label handler, .pop, .ret none]
  tryCatches := [⟨start, stop, handler, none⟩]
  localVars := []

def caught : Frame := ⟨[], [.ref throwableType]⟩

def analysisOf (m : Method) (unpatchable : List MethodId) : Analysis where
  method := m.id owner
  isStatic := true
  rootEntry := false
  calls := 1
  restorePoints := [step]
  unpatchable
  frames := [some ⟨[], []⟩, some ⟨[], []⟩, some ⟨[], []⟩, some ⟨[], []⟩, none, some caught,
    some caught, some ⟨[], []⟩]
  insns := m.code

/-! ### an unpatchable call -/

def plain : Method := run ⟨0⟩ ⟨1⟩ ⟨2⟩

def plainAnalysis : Analysis := analysisOf plain [step]

theorem labelsFit_plain : LabelsFit plain (newLabels (sitesOf plainAnalysis plain.nextLabel)) := by
  refine ⟨?_, ?_⟩ <;> decide

theorem regionsOrdered_plain : plain.RegionsOrdered := by
  intro t ht start stop hstart hstop
  obtain rfl := List.mem_singleton.1 ht
  obtain rfl : 0 = start := Option.some.inj hstart
  omega

/-- the last label but one: the label in front of the site has the number of the region's start -/
def last : Method := run ⟨2⟩ ⟨4294967294⟩ ⟨100⟩

end Trying
end Resumable
