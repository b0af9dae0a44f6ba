import Resumable.Proofs.Termination

/-!
# Where the work list ends

The work list of every method ends exactly in those hierarchies where joins of types never lead back.  Where
they do, an instruction that is its own handler is enough: its regions catch the types that lead back, one
after the other, so whenever it is looked at its frame changes and is in the end what it was.

* `Flow.Ends`, `Flow.ends_of_settling` : the work list of a method ends;
* `Flow.Halts.run`, `Flow.frames_settle` : then it does so before it is given up;
* `Flow.turning`, `Flow.not_ends` : a method that never ends;
* `Flow.ends_iff` : both directions.
-/

namespace Resumable
namespace Flow

/-- the work list of a method gets empty, or fails, after finitely many steps -/
def Ends (p : Program) (code : List Insn) (table : List TryCatch) (entry : Frame) : Prop :=
  ∀ handlers, table.mapM (handler code) = .ok handlers → ∃ n, Halts ⟨code, handlers, p⟩ n (start code entry)

section
variable {p : Program} {code : List Insn} {table : List TryCatch} {entry : Frame}

/-- no code, no work -/
theorem halts_nil (b : Body) (hnil : b.code = []) (entry : Frame) : Halts b 1 (start b.code entry) := by
  have hstep : step b (start b.code entry) = .ok { start b.code entry with pending := [] } := by
    unfold step
    rw [hnil]
    rfl
  exact .step hstep (.done rfl)

/-- **Where joins never lead back** the work list of every method ends -/
theorem ends_of_settling (hp : p.Settling) (code : List Insn) (table : List TryCatch) (entry : Frame) :
    Ends p code table entry := by
  intro handlers hhandlers
  by_cases hne : code = []
  · exact ⟨1, halts_nil ⟨code, handlers, p⟩ hne entry⟩
  · exact ⟨_, halts_start (b := ⟨code, handlers, p⟩) hp (handlers_target hhandlers) hne⟩

/-- with as many steps as it takes the work list is run to its end -/
theorem Halts.run {b : Body} {n m : Nat} {s : State} (h : Halts b n s) (hm : n ≤ m) :
    (∃ t, Flow.run b m s = .ok t ∧ t.pending = []) ∨
      ∃ t e, Flow.step b t = .error e ∧ Flow.run b m s = .error e := by
  induction h generalizing m with
  | @done n s hnil =>
    refine .inl ⟨s, ?_, hnil⟩
    cases m with
    | zero =>
      rw [Flow.run, hnil]
      rfl
    | succ m =>
      rw [Flow.run, hnil]
      rfl
  | @failed n s e hstep =>
    obtain ⟨m, rfl⟩ : ∃ k, m = k + 1 := ⟨m - 1, by omega⟩
    refine .inr ⟨s, e, hstep, ?_⟩
    rw [Flow.run, if_neg, hstep]
    · rfl
    · intro hempty
      unfold Flow.step at hstep
      rw [List.isEmpty_iff.1 hempty] at hstep
      exact absurd hstep (by simp)
  | @step n s t hstep _ ih =>
    obtain ⟨m, rfl⟩ : ∃ k, m = k + 1 := ⟨m - 1, by omega⟩
    rw [Flow.run]
    split
    · rename_i hempty
      exact .inl ⟨s, rfl, List.isEmpty_iff.1 hempty⟩
    · rw [hstep]
      exact ih (Nat.le_of_succ_le_succ hm)

theorem settlingBound_le (b : Body) (entry : Frame) : settlingBound b entry ≤ stepBound b entry :=
  Nat.le_add_right _ _

/-- **Where joins never lead back** the frames of a method are found, or a step fails: the work list is never
given up -/
theorem frames_settle (hp : p.Settling) {handlers : List Handler} (hhandlers : table.mapM (handler code) = .ok handlers)
    (hne : code ≠ []) :
    (∃ s : State, Flow.frames p code table entry = .ok s.frames ∧ s.pending = []) ∨
      ∃ t e, step ⟨code, handlers, p⟩ t = .error e ∧ Flow.frames p code table entry = .error e := by
  have hhalts : Halts ⟨code, handlers, p⟩ _ (start code entry) :=
    halts_start (b := ⟨code, handlers, p⟩) hp (handlers_target hhandlers) hne
  have hframes : Flow.frames p code table entry =
      (run ⟨code, handlers, p⟩ (stepBound ⟨code, handlers, p⟩ entry) (start code entry)).map State.frames := by
    unfold Flow.frames
    rw [hhandlers]
    show (if code.isEmpty then _ else _) = _
    rw [if_neg (by simpa using hne)]
    cases run ⟨code, handlers, p⟩ (stepBound ⟨code, handlers, p⟩ entry) (start code entry) <;> rfl
  rw [hframes]
  rcases hhalts.run (settlingBound_le _ entry) with ⟨s, hrun, hnil⟩ | ⟨t, e, hstep, hrun⟩
  · rw [hrun]
    exact .inl ⟨s, rfl, hnil⟩
  · rw [hrun]
    exact .inr ⟨t, e, hstep, rfl⟩

end

/-! ## a method that never ends -/

/-- the type that joins lead to, one after the other -/
def drive (p : Program) (s : String) (ts : List String) : String := ts.foldl p.commonSupertype s

theorem drive_of_moves {p : Program} {s u : String} (h : Relation.TransGen p.Moves s u) :
    ∃ t ts, p.commonSupertype s t ≠ s ∧ drive p s (t :: ts) = u := by
  induction h with
  | single h =>
    obtain ⟨t, rfl, hne⟩ := h
    exact ⟨t, [], hne, rfl⟩
  | tail _ h ih =>
    obtain ⟨t, ts, hne, hdrive⟩ := ih
    obtain ⟨t', rfl, -⟩ := h
    refine ⟨t, ts ++ [t'], hne, ?_⟩
    show (t :: (ts ++ [t'])).foldl p.commonSupertype s = _
    rw [← List.cons_append, List.foldl_append, ← hdrive]
    rfl

/-- an object is thrown within a region whose handler throws it again -/
def turning (s : String) : List Insn := [.new s, .label ⟨0⟩, .throw, .label ⟨1⟩]

/-- the handler is in the region, for each of the types -/
def around (ts : List String) : List TryCatch := ts.map fun t => ⟨⟨0⟩, ⟨1⟩, ⟨0⟩, some t⟩

def aroundHandlers (ts : List String) : List Handler := ts.map fun t => ⟨1, 3, 1, .ref t⟩

/-- a frame that holds an object of a type -/
def holding (s : String) : Frame := ⟨[], [.ref s]⟩

/-- what flows to the handler -/
def thrown (ts : List String) : List Edge := ts.map fun t => (1, holding t)

section
variable {p : Program} {s t : String} {ts : List String}

theorem mapM_around (s : String) (ts : List String) :
    (around ts).mapM (handler (turning s)) = .ok (aroundHandlers ts) := by
  induction ts with
  | nil => rfl
  | cons t ts ih =>
    show ((⟨⟨0⟩, ⟨1⟩, ⟨0⟩, some t⟩ : TryCatch) :: around ts).mapM (handler (turning s)) = _
    rw [List.mapM_cons, ih]
    rfl

/-- the method as the work list sees it -/
def turningBody (p : Program) (s : String) (ts : List String) : Body := ⟨turning s, aroundHandlers ts, p⟩

theorem handlerEdges_turning {i : Nat} (h1 : 1 ≤ i) (h3 : i < 3) {stack : List Category} :
    handlerEdges (turningBody p s ts) i ⟨[], stack⟩ = thrown ts := by
  show ((aroundHandlers ts).filter fun h => h.start ≤ i && i < h.stop).map _ = _
  have hall : (aroundHandlers ts).filter (fun h => h.start ≤ i && i < h.stop) = aroundHandlers ts := by
    refine List.filter_eq_self.2 fun h hh => ?_
    obtain ⟨t, -, rfl⟩ := List.mem_map.1 hh
    simp [h1, h3]
  rw [hall]
  unfold aroundHandlers thrown
  rw [List.map_map]
  rfl

theorem handlerEdges_first {f : Frame} : handlerEdges (turningBody p s ts) 0 f = [] := by
  have hnone : (aroundHandlers ts).filter (fun h => h.start ≤ 0 && 0 < h.stop) = [] := by
    refine List.filter_eq_nil_iff.2 fun h hh => ?_
    obtain ⟨t, -, rfl⟩ := List.mem_map.1 hh
    simp
  show ((aroundHandlers ts).filter fun h => h.start ≤ 0 && 0 < h.stop).map _ = _
  rw [hnone]
  rfl

theorem merge_holding (p : Program) (s t : String) :
    (holding s).merge p (holding t) = .ok (holding (p.commonSupertype s t)) := by
  have hmerge : mergeCategory p (.ref s) (.ref t) = some (.ref (p.commonSupertype s t)) := by
    unfold mergeCategory
    split
    · rename_i heq
      obtain rfl : s = t := by simpa using heq
      rw [p.commonSupertype_self]
    · rfl
  show (do
    let stack ← Frame.mergeStack p [.ref s] [.ref t]
    Except.ok ({ locals := Frame.mergeLocals p [] [], stack } : Frame)) = _
  unfold Frame.mergeStack
  rw [hmerge]
  rfl

theorem set_same {α : Type} {xs : List α} {i : Nat} {x : α} (h : xs[i]? = some x) : xs.set i x = xs := by
  obtain ⟨hlt, rfl⟩ := List.getElem?_eq_some_iff.1 h
  exact List.set_getElem_self hlt

/-- what flows to the handler turns its frame -/
theorem flow_thrown (b : Body) {st : State} {a : String} (hst : st.frames[1]? = some (some (holding a))) (t : String) :
    ∃ st', flow b st (1, holding t) = .ok st' ∧
      st'.frames = st.frames.set 1 (some (holding (b.program.commonSupertype a t))) ∧
      (∀ i ∈ st.pending, i ∈ st'.pending) ∧ (b.program.commonSupertype a t ≠ a → 1 ∈ st'.pending) := by
  have hmerge := merge_holding b.program a t
  by_cases heq : b.program.commonSupertype a t = a
  · rw [heq] at hmerge ⊢
    exact ⟨st, flow_same hst hmerge, (set_same hst).symm, fun i hi => hi, fun hne => absurd rfl hne⟩
  · have hne : holding (b.program.commonSupertype a t) ≠ holding a := by
      intro h
      exact heq (by simpa [holding] using h)
    exact ⟨_, flow_join hst hmerge hne, rfl, fun i hi => mem_pending_arrive.2 (.inl hi),
      fun _ => mem_pending_arrive.2 (.inr rfl)⟩

theorem flowAll_thrown (b : Body) {st : State} {a : String} (hst : st.frames[1]? = some (some (holding a)))
    (us : List String) (es : List Edge) :
    ∃ st', flowAll b st (thrown us ++ es) = flowAll b st' es ∧
      st'.frames = st.frames.set 1 (some (holding (drive b.program a us))) ∧ ∀ i ∈ st.pending, i ∈ st'.pending := by
  induction us generalizing st a with
  | nil => exact ⟨st, rfl, (set_same hst).symm, fun i hi => hi⟩
  | cons u us ih =>
    obtain ⟨st', hflow, hframes, hpending, -⟩ := flow_thrown b hst u
    have hlt : 1 < st.frames.length := (List.getElem?_eq_some_iff.1 hst).1
    have hst' : st'.frames[1]? = some (some (holding (b.program.commonSupertype a u))) := by
      rw [hframes]
      exact List.getElem?_set_self hlt
    obtain ⟨st'', hflowAll, hframes', hpending'⟩ := ih hst'
    refine ⟨st'', ?_, ?_, fun i hi => hpending' i (hpending i hi)⟩
    · show flowAll b st ((1, holding u) :: (thrown us ++ es)) = _
      rw [flowAll, hflow]
      exact hflowAll
    · rw [hframes', hframes, List.set_set]
      rfl

/-- once round: the frame of the handler is what it was, and it waits again -/
theorem flowAll_round (b : Body) (hmove : b.program.commonSupertype s t ≠ s) (hback : drive b.program s (t :: ts) = s)
    {st : State} (hst : st.frames[1]? = some (some (holding s))) (es : List Edge) :
    ∃ st', flowAll b st (thrown (t :: ts) ++ es) = flowAll b st' es ∧ st'.frames = st.frames ∧ 1 ∈ st'.pending := by
  have hlt : 1 < st.frames.length := (List.getElem?_eq_some_iff.1 hst).1
  obtain ⟨st', hflow, hframes, -, hwaits⟩ := flow_thrown b hst t
  have hst' : st'.frames[1]? = some (some (holding (b.program.commonSupertype s t))) := by
    rw [hframes]
    exact List.getElem?_set_self hlt
  obtain ⟨st'', hflowAll, hframes', hpending'⟩ := flowAll_thrown b hst' ts es
  refine ⟨st'', ?_, ?_, hpending' 1 (hwaits hmove)⟩
  · show flowAll b st ((1, holding t) :: (thrown ts ++ es)) = _
    rw [flowAll, hflow]
    exact hflowAll
  · have hdrive : drive b.program (b.program.commonSupertype s t) ts = s := hback
    rw [hframes', hframes, List.set_set, hdrive]
    exact set_same hst

/-- The handler waits to be looked at, and it holds the type at which the turn begins; behind it there is
nothing yet, or the same. -/
structure Turning (s : String) (st : State) : Prop where
  frames : ∃ o, (o = none ∨ o = some (holding s)) ∧
    st.frames = [some ⟨[], []⟩, some (holding s), o, none]
  waits : 1 ∈ st.pending

theorem edges_first : edges (turningBody p s ts) 0 (.new s) ⟨[], []⟩ = .ok [(1, holding s)] := by
  unfold edges
  rw [handlerEdges_first]
  rfl

theorem edges_label : edges (turningBody p s ts) 1 (.label ⟨0⟩) (holding s) = .ok (thrown ts ++ [(2, holding s)]) := by
  have hhandlers : handlerEdges (turningBody p s ts) 1 (holding s) = thrown ts :=
    handlerEdges_turning (by decide) (by decide)
  unfold edges
  rw [hhandlers]
  show Except.ok (thrown ts ++ [] ++ [(2, holding s)]) = _
  rw [List.append_nil]

theorem edges_throw : edges (turningBody p s ts) 2 .throw (holding s) = .ok (thrown ts ++ []) := by
  have hhandlers : handlerEdges (turningBody p s ts) 2 (holding s) = thrown ts :=
    handlerEdges_turning (by decide) (by decide)
  unfold edges
  rw [hhandlers]
  show Except.ok (thrown ts ++ [] ++ []) = _
  rw [List.append_nil]

/-- **Every step** goes on to turn -/
theorem Turning.step (hmove : p.commonSupertype s t ≠ s) (hback : drive p s (t :: ts) = s) {st : State}
    (h : Turning s st) : ∃ st', Flow.step (turningBody p s (t :: ts)) st = .ok st' ∧ Turning s st' := by
  obtain ⟨⟨o, ho, hframes⟩, hwaits⟩ := h
  obtain ⟨i, rest, hpending⟩ : ∃ i rest, st.pending = i :: rest := List.exists_cons_of_ne_nil (by
    intro hnil
    rw [hnil] at hwaits
    exact absurd hwaits (by simp))
  have hrest (hi : 1 ≠ i) : 1 ∈ rest := by
    rw [hpending] at hwaits
    exact (List.mem_cons.1 hwaits).resolve_left hi
  have hsecond : st.frames[1]? = some (some (holding s)) := by
    rw [hframes]
    rfl
  have hskip (hi : 1 ≠ i) (hnone : (turning s)[i]? = none ∨ st.frames[i]? = some none) :
      ∃ st', Flow.step (turningBody p s (t :: ts)) st = .ok st' ∧ Turning s st' :=
    ⟨_, step_skip hpending hnone, ⟨o, ho, hframes⟩, hrest hi⟩
  have hround (es : List Edge) := flowAll_round (turningBody p s (t :: ts)) hmove hback
    (show ({ st with pending := rest } : State).frames[1]? = _ from hsecond) es
  match i with
  | 0 =>
    have hfirst : st.frames[0]? = some (some ⟨[], []⟩) := by
      rw [hframes]
      rfl
    have hflow : flow (turningBody p s (t :: ts)) { st with pending := rest } (1, holding s) =
        .ok { st with pending := rest } := flow_same hsecond (Frame.merge_self p _)
    refine ⟨{ st with pending := rest }, ?_, ⟨o, ho, hframes⟩, hrest (by decide)⟩
    rw [step_at hpending rfl hfirst edges_first, flowAll, hflow]
    rfl
  | 1 =>
    obtain ⟨st', hflowAll, hframes', hwaits'⟩ := hround [(2, holding s)]
    have hframes' : st'.frames = [some ⟨[], []⟩, some (holding s), o, none] := hframes'.trans hframes
    have hstep := (step_at hpending rfl hsecond edges_label).trans hflowAll
    rw [flowAll] at hstep
    rcases ho with rfl | rfl
    · have habsent : st'.frames[2]? = some none := by
        rw [hframes']
        rfl
      rw [flow_absent habsent] at hstep
      refine ⟨arrive st' 2 (holding s), hstep, ⟨some (holding s), .inr rfl, ?_⟩, mem_pending_arrive.2 (.inl hwaits')⟩
      show st'.frames.set 2 (some (holding s)) = _
      rw [hframes']
      rfl
    · have hthird : st'.frames[2]? = some (some (holding s)) := by
        rw [hframes']
        rfl
      rw [flow_same hthird (Frame.merge_self p _)] at hstep
      exact ⟨st', hstep, ⟨some (holding s), .inr rfl, hframes'⟩, hwaits'⟩
  | 2 =>
    rcases ho with rfl | rfl
    · refine hskip (by decide) (.inr ?_)
      rw [hframes]
      rfl
    · have hthird : st.frames[2]? = some (some (holding s)) := by
        rw [hframes]
        rfl
      obtain ⟨st', hflowAll, hframes', hwaits'⟩ := hround []
      exact ⟨st', (step_at hpending rfl hthird edges_throw).trans hflowAll,
        ⟨some (holding s), .inr rfl, hframes'.trans hframes⟩, hwaits'⟩
  | 3 =>
    refine hskip (by decide) (.inr ?_)
    rw [hframes]
    rfl
  | n + 4 => exact hskip (by omega) (.inl rfl)

theorem Turning.not_halts (hmove : p.commonSupertype s t ≠ s) (hback : drive p s (t :: ts) = s) {st : State} {n : Nat}
    (hhalts : Halts (turningBody p s (t :: ts)) n st) : ¬ Turning s st := by
  induction hhalts with
  | done hnil =>
    intro h
    have hwaits := h.waits
    rw [hnil] at hwaits
    exact absurd hwaits (by simp)
  | failed hstep =>
    intro h
    obtain ⟨st', hstep', -⟩ := h.step hmove hback
    rw [hstep] at hstep'
    exact absurd hstep' (by simp)
  | step hstep _ ih =>
    intro h
    obtain ⟨st', hstep', h'⟩ := h.step hmove hback
    rw [hstep] at hstep'
    exact ih (Except.ok.inj hstep' ▸ h')

/-- the first step of the method -/
theorem turning_start (s : String) (ts : List String) :
    Flow.step (turningBody p s ts) (start (turning s) ⟨[], []⟩) =
      .ok ⟨[some ⟨[], []⟩, some (holding s), none, none], [1]⟩ := by
  have hstep : Flow.step (turningBody p s ts) (start (turning s) ⟨[], []⟩) =
      flowAll (turningBody p s ts) ⟨[some ⟨[], []⟩, none, none, none], []⟩ [(1, holding s)] :=
    step_at rfl rfl rfl edges_first
  rw [hstep]
  rfl

/-- **Where joins lead back** the method never ends -/
theorem not_ends (hmove : p.commonSupertype s t ≠ s) (hback : drive p s (t :: ts) = s) :
    ¬ Ends p (turning s) (around (t :: ts)) ⟨[], []⟩ := by
  intro h
  obtain ⟨n, hhalts⟩ := h _ (mapM_around s (t :: ts))
  cases hhalts with
  | done hnil => exact absurd hnil (by simp [start])
  | failed hstep =>
    have hstart := turning_start (p := p) s (t :: ts)
    exact absurd (hstart.symm.trans hstep) (by simp)
  | step hstep hhalts =>
    have hstart := turning_start (p := p) s (t :: ts)
    have heq := Except.ok.inj (hstart.symm.trans hstep)
    rw [← heq] at hhalts
    exact Turning.not_halts hmove hback hhalts
      ⟨⟨none, .inl rfl, rfl⟩, List.mem_singleton_self 1⟩

/-- two classes that extend each other -/
def circle : Program where
  classes := [("demo/A", ⟨"demo/A", some "demo/B", [], [], []⟩), ("demo/B", ⟨"demo/B", some "demo/A", [], [], []⟩)]

/-- the join of either with the other one is the other one -/
theorem not_ends_circle : ¬ Ends circle (turning "demo/A") (around ["demo/B", "demo/A"]) ⟨[], []⟩ :=
  not_ends (by decide) (by decide)

/-- **The work list of every method ends** exactly where joins of types never lead back -/
theorem ends_iff (p : Program) :
    (∀ code table entry, Ends p code table entry) ↔ p.Settling := by
  constructor
  · intro h s hs
    obtain ⟨t, ts, hmove, hback⟩ := drive_of_moves hs
    exact not_ends hmove hback (h _ _ _)
  · exact ends_of_settling

end

end Flow
end Resumable
