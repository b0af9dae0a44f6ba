import Resumable.Proofs.RoundTrip
import Resumable.Proofs.Staging

/-!
# What staging leaves behind

Staging the operands of a call opens one frame with copies of them and changes nothing else: the
operands stay where they are, and so do storage and the frames that were open before.  An operand is
found again by its depth among the staged values of its kind, a number of 31 bits.  One that lies
deeper ends the activation with a fault.

* `stagedOf`, `Coroutine.Stages` : the values in a frame, and what a new frame leaves as it was;
* `exists_deep` : the first operand that lies too deep;
* `Machine.leads_fault_of_deep` : the run ends with a fault there;
* `staging_transparent_iff` : staging leaves everything where it is if and only if no operand does.
-/

namespace Resumable

/-! ## the new frame -/

/-- the values of the operands of a kind that are staged, the first operand uppermost -/
def stagedOf (k : Kind) (es : List (Category × Value)) : List Value :=
  (es.filter fun e => isStored k e.1).map Prod.snd

theorem stagedOf_eq {es : List (Category × Value)} (he : Operands es) (k : Kind) :
    stagedOf k es = (keptOf es).filter fun v => v.kind? = some k := by
  unfold stagedOf keptOf
  rw [List.filter_map, List.filter_filter]
  congr 1
  apply List.filter_congr
  intro e hmem
  obtain ⟨k', hk, hv⟩ := he e hmem
  by_cases hn : e.1 = .null <;> by_cases hkk : k' = k <;>
    simp [isStored, Category.isKept, hk, hv, hn, hkk]

/-- one more frame with the operands of a call, over everything that was there -/
structure Coroutine.Stages {β κ : Type} (c c' : Coroutine β κ) (es : List (Category × Value)) :
    Prop where
  kept : { c' with staging := c.staging, floors := c.floors } = c
  floors : c'.floors = c.staging.depths :: c.floors
  earlier : c'.staging.below c.staging.depths = c.staging
  window : ∀ k, (c'.staging.above c.staging.depths).stack k = stagedOf k es

theorem Coroutine.stages_opening {β κ : Type} (c : Coroutine β κ) {es : List (Category × Value)}
    (he : Operands es) : c.Stages (c.opening (keptOf es.reverse)) es := by
  refine ⟨rfl, rfl, Storage.below_putAll _ _, fun k => ?_⟩
  show ((c.staging.putAll (keptOf es.reverse)).above c.staging.depths).stack k = _
  rw [Storage.above_putAll, Storage.stack_putAll, Storage.stack_empty, List.append_nil,
    keptOf_reverse, List.filter_reverse, List.reverse_reverse, stagedOf_eq he]

/-! ## depths that are too large -/

theorem unstageFrom_append (before cs ds : List Category) :
    unstageFrom before (cs ++ ds) = unstageFrom before cs ++ unstageFrom (before ++ cs) ds := by
  induction cs generalizing before with
  | nil => rw [List.append_nil]; rfl
  | cons c cs ih =>
    rw [List.cons_append, unstageFrom, unstageFrom, ih, List.append_assoc, List.append_assoc]
    rfl

/-- the staging code up to an operand and the question for it -/
theorem stageCode_split (cs ds : List Category) {c : Category} {k : Kind}
    (hc : isStored k c = true) (staged : Label) :
    ∃ is, stageCode (cs ++ c :: ds) staged =
      ([Intrinsic.exists.call, .branch .eq staged, Intrinsic.beginStaging.call] ++
        (cs ++ c :: ds).reverse.flatMap stageValue ++ unstageFrom [] cs) ++
      ([.intConst (Int32.ofNat (cs.countP (isStored k))), (Intrinsic.peekStaged k).call] ++
        is) := by
  obtain ⟨hk, hn⟩ : c.kind? = some k ∧ c ≠ .null := by simpa [isStored] using hc
  have hvalue : unstageValue cs c =
      [.intConst (Int32.ofNat (cs.countP (isStored k))), (Intrinsic.peekStaged k).call] ++
        k.castCode c := by
    simp only [unstageValue, hk, if_neg hn, Kind.peekCode]
  refine ⟨k.castCode c ++ (unstageFrom (cs ++ [c]) ds ++ [.label staged]), ?_⟩
  unfold stageCode
  rw [unstageFrom_append, unstageFrom, List.nil_append, hvalue]
  simp only [List.append_assoc]

/-- the first operand whose depth does not fit -/
theorem exists_deep {es : List (Category × Value)} (h : ¬ DepthsFit (es.map Prod.fst)) :
    ∃ before e after k, es = before ++ e :: after ∧ isStored k e.1 = true ∧
      (before.map Prod.fst).countP (isStored k) = 2 ^ 31 ∧ DepthsFit (before.map Prod.fst) := by
  induction es using List.reverseRecOn with
  | nil => exact absurd (DepthsFit.of_length (Nat.zero_le _)) h
  | append_singleton es e ih =>
    by_cases hes : DepthsFit (es.map Prod.fst)
    · unfold DepthsFit at h
      push Not at h
      obtain ⟨k, hk⟩ := h
      have hle := hes k
      rw [List.map_append, List.countP_append, List.map_singleton, List.countP_singleton] at hk
      by_cases hstored : isStored k e.1 = true
      · rw [if_pos hstored] at hk
        exact ⟨es, e, [], k, rfl, hstored, by omega, hes⟩
      · rw [if_neg hstored] at hk
        omega
    · obtain ⟨before, f, after, k, rfl, hstored, hcount, hfit⟩ := ih hes
      exact ⟨before, f, after ++ [e], k, by rw [List.append_assoc, List.cons_append], hstored,
        hcount, hfit⟩

namespace Machine

variable {w : World} {s t : Machine} {x y : Activation} {rest : List Pending} {S : Nat → Prop}

/-- a fault is on its way -/
def Faults (m : Machine) : Prop := ∃ f, m.mode = .throwing (.fault f)

/-- a run that ends with a fault does not get beyond the places it passes -/
theorem Leads.not_reaches (h : Leads w S Faults s) (hp : t.pending = .activation y :: rest)
    (hm : t.mode = .executing) (hy : ¬ S y.position) : ¬ Reaches w s t := by
  obtain ⟨n, ⟨f, hf⟩, hcalm⟩ := h
  rintro ⟨j, rfl⟩
  rcases Nat.lt_or_ge j n with hj | hj
  · exact hy ((hcalm j hj).stands y rest hp)
  · obtain ⟨i, rfl⟩ := Nat.exists_eq_add_of_le hj
    rw [after_add, mode_after_fault hf i] at hm
    exact absurd hm (by simp)

/-- a negative depth names no staged value -/
theorem run_peekStaged_negative (k : Kind) {n : Int32} (hn : n < 0) (m : Machine) :
    ((Intrinsic.peekStaged k).perform [.int n]).run m =
      (.error (.fault (.violation (.stagingUnderflow k 0))), m) := by
  have hpeek : (performPeek k [.int n]).run m =
      (.error (.fault (.violation (.stagingUnderflow k 0))), m) := by
    unfold performPeek
    rw [Effect.run_bind_ok (Performing.run_intArg rfl), if_pos hn]
    rfl
  show (performPeek k [.int n] >>= fun v => _).run m = _
  rw [Effect.run_bind, hpeek]

theorem leads_fault_of_negative {k : Kind} {n : Int32} (hS : S x.position)
    (hS' : S (x.position + 1)) (hw : w.Supplies) (hn : n < 0)
    (hcode : Holds x.method.code x.position [.intConst n, (Intrinsic.peekStaged k).call]) :
    Leads w S Faults (s.goOn x rest) := by
  let asked : Activation := { x with position := x.position + 1, stack := .int n :: x.stack }
  let called : Activation := { x with position := x.position + 1 }
  let asking : Machine :=
    { s with
      pending := .activation called :: rest
      mode := .calling ⟨.static, (Intrinsic.peekStaged k).id, [.int n]⟩ }
  have hpush : (s.goOn x rest).step w = s.goOn asked rest := step_next hcode.head rfl
  have hcall : (s.goOn asked rest).step w = asking := by
    obtain ⟨d, hd, hlen⟩ := (Intrinsic.peekStaged k).parse?_desc
    have hinvoke : ((Intrinsic.peekStaged k).call.exec w.program).run ⟨s.heap, s.statics, asked⟩ =
        (.ok (.call ⟨.static, (Intrinsic.peekStaged k).id, [.int n]⟩),
          ⟨s.heap, s.statics, { asked with stack := x.stack }⟩) :=
      Insn.run_invoke hd (by rw [hlen]; rfl) rfl
    exact step_call (a := asked) hcode.tail.head hinvoke
  have hfault : asking.step w =
      { asking with mode := .throwing (.fault (.violation (.stagingUnderflow k 0))) } := by
    rw [step_injected (i := .peekStaged k) hw rfl rfl]
    unfold runNative
    rw [show (Native.intrinsic (.peekStaged k)).perform [.int n] =
      (Intrinsic.peekStaged k).perform [.int n] from rfl, run_peekStaged_negative k hn]
    rfl
  refine (Passes.of_step hS hpush rfl).leads ?_
  have hcalm : (s.goOn asked rest).Calm w S := .of_step rfl hS' hcall (by rintro r ⟨⟩)
  refine .step hcalm ?_
  rw [hcall]
  have hcalm' : asking.Calm w S := .of_step rfl hS' hfault (by rintro r ⟨⟩)
  refine .step hcalm' ?_
  rw [hfault]
  exact .here ⟨_, rfl⟩

/-- an operand that lies too deep ends the run with a fault before the end of the staging code -/
theorem leads_fault_of_deep {c : Coroutine Call Call} {es : List (Category × Value)}
    {staged : Label} {below : List Value} (rest : List Pending) (hw : w.Supplies) (hc : s.engine.Runs c)
    (he : Admitted w.program s.heap es) (hdeep : ¬ DepthsFit (es.map Prod.fst))
    (hs : x.stack = (es.map Prod.snd).reverse ++ below)
    (hcode : Holds x.method.code x.position (stageCode (es.map Prod.fst) staged)) :
    Leads w (· < x.position + (stageCode (es.map Prod.fst) staged).length) Faults
      (s.goOn x rest) := by
  obtain ⟨before, e, after, k, rfl, hstored, hcount, hfit⟩ := exists_deep hdeep
  obtain ⟨is, hsplit⟩ := stageCode_split (before.map Prod.fst) (after.map Prod.fst) hstored staged
  rw [← List.map_cons, ← List.map_append, hcount] at hsplit
  rw [hsplit] at hcode ⊢
  -- up to the operand everything goes well
  have haside : Takes w s.heap
      ([Intrinsic.exists.call, .branch .eq staged, Intrinsic.beginStaging.call] ++
        ((before ++ e :: after).map Prod.fst).reverse.flatMap stageValue)
      ⟨c, x.locals, ((before ++ e :: after).map Prod.snd).reverse ++ below⟩
      ⟨c.opening (keptOf (before ++ e :: after).reverse), x.locals, below⟩ :=
    .stageAside hw he.operands
  have hback : Takes w s.heap (unstageFrom [] (before.map Prod.fst))
      ⟨c.opening (keptOf (before ++ e :: after).reverse), x.locals, below⟩
      ⟨c.opening (keptOf (before ++ e :: after).reverse), x.locals,
        (before.map Prod.snd).reverse ++ below⟩ :=
    .unstageFrom below [] (e :: after) hw he hfit
  refine ((haside.append hback).passes rest (fun i hi => ?_) rfl hc rfl hs hcode.left).leads ?_
  · rw [List.length_append]
    omega
  -- and then its depth is a negative number
  refine leads_fault_of_negative ?_ ?_ hw (show Int32.ofNat (2 ^ 31) < 0 by decide)
    hcode.right.left
  · show x.position + _ < x.position + _
    simp only [List.length_append, List.length_cons]
    omega
  · show x.position + _ + 1 < x.position + _
    simp only [List.length_append, List.length_cons]
    omega

end Machine

/-! ## staging -/

/-- an activation is about to stage the operands of a call, which are what their categories say -/
structure StandsAtStaging (w : World) (s : Machine) (x : Activation) (c : Coroutine Call Call)
    (es : List (Category × Value)) (staged : Label) : Prop where
  runs : s.engine.Runs c
  admitted : Admitted w.program s.heap es
  operands : ∃ below, x.stack = (es.map Prod.snd).reverse ++ below
  code : Holds x.method.code x.position (stageCode (es.map Prod.fst) staged)

/-- the run gets behind the staging code, with one more frame and everything else as it was -/
def StagesAside (w : World) (s : Machine) (x : Activation) (rest : List Pending)
    (c : Coroutine Call Call) (es : List (Category × Value)) (staged : Label) : Prop :=
  ∃ c', c.Stages c' es ∧ Machine.Reaches w (s.goOn x rest) ((s.put c').goOn
    { x with position := x.position + (stageCode (es.map Prod.fst) staged).length } rest)

namespace StandsAtStaging

variable {w : World} {s : Machine} {x : Activation} {c : Coroutine Call Call}
  {es : List (Category × Value)} {staged : Label}

theorem stages (h : StandsAtStaging w s x c es staged) (hw : w.Supplies)
    (hfit : DepthsFit (es.map Prod.fst)) (rest : List Pending) :
    StagesAside w s x rest c es staged := by
  obtain ⟨below, hs⟩ := h.operands
  refine ⟨_, c.stages_opening h.admitted.operands, ?_⟩
  have htakes : Takes w s.heap (stageCode (es.map Prod.fst) staged)
      ⟨c, x.locals, (es.map Prod.snd).reverse ++ below⟩
      ⟨c.opening (keptOf es.reverse), x.locals, (es.map Prod.snd).reverse ++ below⟩ :=
    .stageCode hw h.admitted hfit
  have hreach := htakes.reaches rest rfl h.runs rfl hs h.code
  rw [Activation.behind, ← hs] at hreach
  exact hreach

theorem not_stages (h : StandsAtStaging w s x c es staged) (hw : w.Supplies)
    (hdeep : ¬ DepthsFit (es.map Prod.fst)) (rest : List Pending) :
    ¬ StagesAside w s x rest c es staged := by
  obtain ⟨below, hs⟩ := h.operands
  rintro ⟨c', -, hreach⟩
  have hfault := Machine.leads_fault_of_deep rest hw h.runs h.admitted hdeep hs h.code
  exact hfault.not_reaches rfl rfl (Nat.lt_irrefl _) hreach

end StandsAtStaging

/-- **Staging is transparent.**  Run with a coroutine, the staging code of a call whose operands are
what their categories say leads to its end with operands, locals, heap and storage as they were, and
opens one frame over the earlier ones that holds exactly the operands that are no exact nulls, of each
kind the first one uppermost.  It does so if and only if every operand has fewer than `2^31` staged
operands of its kind before it. -/
theorem staging_transparent_iff {w : World} {s : Machine} {x : Activation}
    {c : Coroutine Call Call} {es : List (Category × Value)} {staged : Label} (hw : w.Supplies)
    (h : StandsAtStaging w s x c es staged) (rest : List Pending) :
    StagesAside w s x rest c es staged ↔ DepthsFit (es.map Prod.fst) := by
  constructor
  · intro hstages
    by_contra hdeep
    exact h.not_stages hw hdeep rest hstages
  · intro hfit
    exact h.stages hw hfit rest

namespace Demo

/-- an activation that is about to stage operands, with nothing below them -/
def staging (es : List (Category × Value)) : Activation where
  method :=
    { name := "run"
      desc := "()V"
      isStatic := true
      maxLocals := 0
      code := stageCode (es.map Prod.fst) ⟨0⟩
      tryCatches := []
      localVars := [] }
  position := 0
  locals := []
  stack := (es.map Prod.snd).reverse

theorem standsAt_staging {w : World} {es : List (Category × Value)}
    (he : Admitted w.program .empty es) :
    StandsAtStaging w machine (staging es) running es ⟨0⟩ :=
  ⟨runs_machine, he, ⟨[], (List.append_nil _).symm⟩, ⟨[], [], (List.append_nil _).symm, rfl⟩⟩

/-- operands of three kinds, with an exact null between them -/
def mixed : List (Category × Value) :=
  [(.ref owner, .null), (.int, .int 5), (.null, .null), (.long, .long 6), (.int, .int 7)]

theorem admitted_mixed : Admitted world.program .empty mixed := by
  intro e he
  simp only [mixed, List.mem_cons, List.not_mem_nil, or_false] at he
  rcases he with rfl | rfl | rfl | rfl | rfl
  · exact ⟨⟨.ref, rfl⟩, none, rfl, by simp⟩
  · exact ⟨⟨.int, rfl⟩, fun k hk => hk⟩
  · exact ⟨⟨.ref, rfl⟩, rfl⟩
  · exact ⟨⟨.long, rfl⟩, fun k hk => hk⟩
  · exact ⟨⟨.int, rfl⟩, fun k hk => hk⟩

theorem staging_transparent_mixed :
    world.Supplies ∧ StandsAtStaging world machine (staging mixed) running mixed ⟨0⟩ ∧
      StagesAside world machine (staging mixed) [] running mixed ⟨0⟩ :=
  ⟨supplies_world, standsAt_staging admitted_mixed,
    (staging_transparent_iff supplies_world (standsAt_staging admitted_mixed) []).2
      (.of_length (by decide))⟩

/-! ### operands that do not come back -/

/-- a class of coroutines with a method that drops what is to be staged -/
def shadowing : ClassDef where
  name := coroutineType
  superName := some objectType
  interfaces := []
  fields := []
  methods := [{
    name := "stageInt"
    desc := "(I)V"
    isStatic := true
    maxLocals := 1
    code := [.ret none]
    tryCatches := []
    localVars := [] }]

def shadowed : World := ⟨Program.empty.insert shadowing, []⟩

def single : List (Category × Value) := [(.int, .int 1)]

/-- one operand more than there are depths -/
def tooMany : List (Category × Value) := List.replicate (2 ^ 31 + 1) (.int, .int 0)

theorem admitted_replicate (p : Program) (n : Nat) (v : Int32) :
    Admitted p .empty (List.replicate n (.int, .int v)) := by
  intro e he
  rw [List.eq_of_mem_replicate he]
  exact ⟨⟨.int, rfl⟩, fun k hk => hk⟩

theorem not_depthsFit_tooMany : ¬ DepthsFit (tooMany.map Prod.fst) := by
  intro hfit
  have hle := hfit .int
  rw [tooMany, List.map_replicate, List.countP_replicate,
    if_pos (show isStored .int .int = true from rfl)] at hle
  omega

-- the question for a value that was not staged ends the run with a fault; behind the staging code the
-- method falls off its end, which is another fault
theorem not_stages_shadowed :
    ¬ StagesAside shadowed machine (staging single) [] running single ⟨0⟩ := by
  rintro ⟨c', -, hreach⟩
  have hfaults : Machine.Reaches shadowed (machine.goOn (staging single) [])
      ((machine.goOn (staging single) []).after shadowed 15) := ⟨15, rfl⟩
  have hresult : ((machine.goOn (staging single) []).after shadowed 15).result? =
      some (.error (.fault (.violation (.stagingUnderflow .int 0)))) := rfl
  obtain ⟨n, hn⟩ := hreach.of_result? hfaults hresult
  rw [← hn] at hresult
  cases n with
  | zero => exact absurd hresult (by simp [Machine.after_zero, Machine.result?, Machine.goOn])
  | succ n =>
    rw [Machine.after_succ, Machine.after_of_result? rfl] at hresult
    cases hresult

/-- the two ways in which a window does not come back -/
theorem no_transparency :
    (StandsAtStaging shadowed machine (staging single) running single ⟨0⟩ ∧
      ¬ StagesAside shadowed machine (staging single) [] running single ⟨0⟩) ∧
    (world.Supplies ∧ StandsAtStaging world machine (staging tooMany) running tooMany ⟨0⟩ ∧
      ¬ StagesAside world machine (staging tooMany) [] running tooMany ⟨0⟩) := by
  have hmany : StandsAtStaging world machine (staging tooMany) running tooMany ⟨0⟩ :=
    standsAt_staging (admitted_replicate _ _ _)
  exact ⟨⟨standsAt_staging (admitted_replicate _ 1 1), not_stages_shadowed⟩,
    supplies_world, hmany, hmany.not_stages supplies_world not_depthsFit_tooMany []⟩

end Demo

end Resumable
