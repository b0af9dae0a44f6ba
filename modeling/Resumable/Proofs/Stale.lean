import Resumable.Proofs.Literals
import Resumable.Proofs.Refusals
import Resumable.Proofs.Regions

/-!
# Analyses of other code

An analysis is applied to a method only if it describes the method: the instructions that it was made of are
compared with those of the method one by one, and so are name, descriptor and whether the method is static.  As
comparing constants is comparing numbers, an analysis does not even describe the method that it was made of if that
holds a constant that is no number, and it describes methods that differ from it in the sign of a zero.  Nothing else
speaks of other code: calls stand at the same places in both methods, and the frames have the operands of the calls.

* `Analysis.Sound.describes_iff` : the methods that an analysis describes;
* `sitesOf_on` : their sites;
* `Analysis.Sound.weaveBody_ne_stale` : they are not refused as other code;
* `stale_iff` : which methods are.
-/

namespace Resumable

/-! ## sites of methods that differ in the sign of a zero -/

section
variable {a : Analysis} {m : Method} {base : UInt32}

/-- only calls are sites -/
theorem sitesFrom_unsigned (a : Analysis) (base : UInt32) (index position : Nat) (is : List Insn) :
    sitesFrom a base index position (is.map Insn.unsigned) = sitesFrom a base index position is := by
  induction is generalizing index position with
  | nil => rfl
  | cons i is ih =>
    cases i <;> simp only [List.map_cons, Insn.unsigned, sitesFrom, ih]

theorem sitesFrom_on (index position : Nat) (is : List Insn) :
    sitesFrom (a.on m) base index position is = sitesFrom a base index position is := by
  induction is generalizing index position with
  | nil => rfl
  | cons i is ih =>
    cases i with
    | invoke kind callee =>
      simp only [sitesFrom, ih]
      rfl
    | _ => exact ih _ _

theorem sitesOf_on (h : a.insns.map Insn.unsigned = m.code.map Insn.unsigned) :
    sitesOf (a.on m) base = sitesOf a base := by
  unfold sitesOf
  rw [sitesFrom_on, ← sitesFrom_unsigned a base 0 0 a.insns, h, sitesFrom_unsigned]
  rfl

end

/-! ## the methods that an analysis describes -/

namespace Analysis.Sound

variable {a : Analysis} {p : Program} {owner : String} {m m' : Method}

/-- an analysis of `m'` describes `m` -/
theorem describes_iff (h : a.Sound p owner m') : describes a m = true ↔
    (∀ i ∈ m'.code, i.isNaN = false) ∧ m'.code.map Insn.unsigned = m.code.map Insn.unsigned ∧
      m'.name = m.name ∧ m'.desc = m.desc ∧ m'.isStatic = m.isStatic := by
  unfold describes
  rw [h.insns, h.length_frames, h.method, h.isStatic]
  simp only [Bool.and_eq_true, beq_iff_eq, Insn.beq_list_iff, Method.id, and_assoc]
  refine and_congr_right fun _ => and_congr_right fun hcode => ?_
  rw [and_iff_right]
  simpa using congrArg List.length hcode

/-- **A method that an analysis describes** is not refused as other code -/
theorem weaveBody_ne_stale (h : a.Sound p owner m') (hdescribes : describes a m = true) :
    weaveBody a m ≠ .error .staleAnalysis := by
  obtain ⟨-, hcode, -, hdesc, -⟩ := h.describes_iff.1 hdescribes
  obtain ⟨desc, -, -, hparse, -⟩ := h.settled
  have hparse : MethodDesc.parse? m.desc = some desc := by rw [← hdesc, hparse]
  obtain ⟨r, hr⟩ : ∃ r, weaveCode (a.on m) (desc.ret.map FieldType.kind) m.nextLabel = .ok r := by
    refine weaveCode_total fun s hs f hf => ?_
    rw [sitesOf_on (by rw [h.insns, hcode])] at hs
    exact h.weaveSite_ok hs hf _
  intro he
  unfold weaveBody at he
  rw [hdescribes, hparse] at he
  split at he
  · exact absurd he (by simp)
  · dsimp only at he
    rcases Effect.bind_eq_error.1 he with he | ⟨r', -, he⟩
    · rw [hr] at he
      exact absurd he (by simp)
    · rcases Effect.bind_eq_error.1 he with he | ⟨table, -, he⟩
      · exact splitRegions_ne_stale _ _ _ he
      · exact absurd he (by simp)

end Analysis.Sound

/-! ## methods that are refused -/

/-- **Other code**: an analysis of `m'` is refused for `m` exactly if `m'` holds a constant that is no number, or if
the two differ in name, descriptor, being static, or code apart from the signs of zeros -/
theorem stale_iff {p : Program} {owner : String} {m' : Method} {declared : List RestorePoint} {rootEntry : Bool}
    {a : Analysis} (ha : Analysis.analyze p owner m' declared rootEntry = .ok a) (hneeds : a.needsWeaving = true)
    (m : Method) : weaveMethod a m = .error ⟨a.method, .staleAnalysis⟩ ↔
      (∃ i ∈ m'.code, i.isNaN = true) ∨ m'.code.map Insn.unsigned ≠ m.code.map Insn.unsigned ∨
        m'.name ≠ m.name ∨ m'.desc ≠ m.desc ∨ m'.isStatic ≠ m.isStatic := by
  have hsound := Analysis.analyze_sound ha
  have hrefused : weaveMethod a m = .error ⟨a.method, .staleAnalysis⟩ ↔ describes a m = false := by
    rw [weaveMethod_eq_error]
    constructor
    · exact fun he => Bool.eq_false_iff.2 fun hdescribes => hsound.weaveBody_ne_stale hdescribes he
    · intro hother
      unfold weaveBody
      rw [hneeds, hother]
      rfl
  rw [hrefused, Bool.eq_false_iff, Ne, hsound.describes_iff]
  simp only [not_and_or, not_forall, Bool.not_eq_false, exists_prop]

namespace Measured

def owner : String := "demo/R"

def step : MethodId := ⟨owner, "step", "()V"⟩

/-- a constant before a call of a restore point -/
def run (v : Float) : Method where
  name := "run"
  desc := "()V"
  isStatic := true
  maxLocals := 0
  code := [.doubleConst v, .pop2, .invoke .static step, .ret none]
  tryCatches := []
  localVars := []

def analysisOf (v : Float) : Analysis where
  method := (run v).id owner
  isStatic := true
  rootEntry := false
  calls := 1
  restorePoints := [step]
  unpatchable := []
  frames := [some ⟨[], []⟩, some ⟨[], [.double]⟩, some ⟨[], []⟩, some ⟨[], []⟩]
  insns := (run v).code

theorem parse_run (v : Float) : MethodDesc.parse? (run v).desc = some ⟨[], none⟩ := by
  show MethodDesc.parse? "()V" = _
  rfl

theorem analyze_run (v : Float) :
    Analysis.analyze .empty owner (run v) [.ofName "step"] false = .ok (analysisOf v) := by
  unfold Analysis.analyze Analysis.definiteFrames
  rw [parse_run]
  rfl

/-- a method of another name -/
theorem stale_iff_renamed : Analysis.analyze .empty owner (run 1.5) [.ofName "step"] false = .ok (analysisOf 1.5) ∧
    (analysisOf 1.5).needsWeaving = true ∧
    weaveMethod (analysisOf 1.5) { run 1.5 with name := "start" } = .error ⟨(run 1.5).id owner, .staleAnalysis⟩ :=
  ⟨analyze_run 1.5, rfl, (stale_iff (analyze_run 1.5) rfl _).2 (.inr (.inr (.inl (by decide))))⟩

/-- an analysis is refused for the method that it was made of, and another one is not although a constant differs -/
theorem not_refused_exactly :
    (Analysis.analyze .empty owner (run (0.0 / 0.0)) [.ofName "step"] false = .ok (analysisOf (0.0 / 0.0)) ∧
      (analysisOf (0.0 / 0.0)).needsWeaving = true ∧
      weaveMethod (analysisOf (0.0 / 0.0)) (run (0.0 / 0.0)) =
        .error ⟨(run (0.0 / 0.0)).id owner, .staleAnalysis⟩) ∧
    Analysis.analyze .empty owner (run (-0.0)) [.ofName "step"] false = .ok (analysisOf (-0.0)) ∧
      (analysisOf (-0.0)).needsWeaving = true ∧ (run (-0.0)).code ≠ (run 0.0).code ∧
      weaveMethod (analysisOf (-0.0)) (run 0.0) ≠ .error ⟨(run (-0.0)).id owner, .staleAnalysis⟩ := by
  refine ⟨⟨analyze_run _, rfl, rfl⟩, analyze_run _, rfl, fun hcode => ?_, fun hstale => ?_⟩
  · exact absurd (Insn.doubleConst.inj (List.cons.inj hcode).1) (by decide)
  · obtain ⟨m', hm⟩ : ∃ m', weaveMethod (analysisOf (-0.0)) (run 0.0) = .ok m' := ⟨_, rfl⟩
    exact absurd (hm.symm.trans hstale) (by simp)

end Measured
end Resumable
