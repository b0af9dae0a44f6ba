import Mathlib.Data.List.Forall2
import Resumable.Instrument
import Resumable.Proofs.Effects

/-!
# Instrumenting class by class

A class is woven as a whole or stays as it was: its first failure is that of the first method that cannot be
analyzed, or else of the first one that cannot be woven.  What becomes of a class does not depend on the
failures of others, so the classes of a program are instrumented one by one, unless a failure ends the run.

* `Method.Fails`, `ClassDef.firstFailure?` : failures;
* `Method.Outcome`, `ClassDef.Woven` : what becomes of methods and of a class without failures;
* `instrumentClass_cases`, `instrumentWith_eq` : a class, a program;
* `Atomic`, `instrument_atomic_iff` : what instrumenting promises, and when it keeps the promise.
-/

namespace Resumable

/-- Classes in increasing order of their names, which are the keys that they are found under. -/
structure Program.Ordered (p : Program) : Prop where
  keys : ∀ e ∈ p.classes, e.1 = e.2.name
  sorted : p.classes.Pairwise fun a b => a.1 < b.1

/-! ## methods -/

namespace Method

/-- why a method cannot be analyzed -/
def analysisFailure? (p : Program) (s : SpecProvider) (owner : String) (m : Method) : Option InstrumentError :=
  match Analysis.ofProvider? p s owner m with
  | .error e => some (.analysis e)
  | .ok _ => none

/-- why a method that was analyzed cannot be woven -/
def weaveFailure? (p : Program) (s : SpecProvider) (owner : String) (m : Method) : Option InstrumentError :=
  match Analysis.ofProvider? p s owner m with
  | .ok a =>
    match instrumentMethod m a with
    | .error e => some e
    | .ok _ => none
  | .error _ => none

/-- the analysis of a method fails, or finds calls and the weaving fails -/
inductive Fails (p : Program) (s : SpecProvider) (owner : String) (m : Method) : InstrumentError → Prop
  | analysis {e : AnalysisError} (h : Analysis.ofProvider? p s owner m = .error e) : Fails p s owner m (.analysis e)
  | weaving {a : Analysis} {e : WeaveError} (h : Analysis.ofProvider? p s owner m = .ok (some a))
      (hcalls : 0 < a.calls) (hweave : weaveMethod a m = .error e) : Fails p s owner m (.weave e)

/-- the analysis of a method finds calls -/
def Touched (p : Program) (s : SpecProvider) (owner : String) (m : Method) : Prop :=
  ∃ a, Analysis.ofProvider? p s owner m = .ok (some a) ∧ 0 < a.calls

/-- a method without failure is woven if its analysis finds calls, else it is kept -/
inductive Outcome (p : Program) (s : SpecProvider) (owner : String) (m : Method) : Method → Prop
  | kept {found : Option Analysis} (h : Analysis.ofProvider? p s owner m = .ok found)
      (hcalls : ∀ a ∈ found, a.calls = 0) : Outcome p s owner m m
  | woven {a : Analysis} {m' : Method} (h : Analysis.ofProvider? p s owner m = .ok (some a)) (hcalls : 0 < a.calls)
      (hweave : weaveMethod a m = .ok m') : Outcome p s owner m m'

end Method

section
variable {p : Program} {s : SpecProvider} {owner : String} {m m' : Method} {a : Analysis} {e : InstrumentError}

/-- weaving keeps everything but the code and the exception table -/
theorem weaveMethod_same (h : weaveMethod a m = .ok m') :
    m' = { m with code := m'.code, tryCatches := m'.tryCatches } := by
  unfold weaveMethod at h
  split at h
  · rename_i woven hbody
    obtain rfl := Except.ok.inj h
    unfold weaveBody at hbody
    split at hbody
    · exact absurd hbody (by simp)
    · split at hbody
      · exact absurd hbody (by simp)
      · split at hbody
        · exact absurd hbody (by simp)
        · obtain ⟨r, -, hbody⟩ := Effect.bind_eq_ok hbody
          obtain ⟨table, -, hbody⟩ := Effect.bind_eq_ok hbody
          rw [← Except.ok.inj hbody]
  · exact absurd h (by simp)

theorem Method.Outcome.same (h : m.Outcome p s owner m') :
    m' = { m with code := m'.code, tryCatches := m'.tryCatches } := by
  cases h with
  | kept => rfl
  | woven _ _ hweave => exact weaveMethod_same hweave

theorem needsWeaving_iff (a : Analysis) : a.needsWeaving = true ↔ 0 < a.calls := decide_eq_true_iff

theorem instrumentMethod_kept (h : a.calls = 0) : instrumentMethod m (some a) = .ok m := by
  unfold instrumentMethod
  dsimp only
  rw [if_neg]
  rw [needsWeaving_iff]
  omega

theorem instrumentMethod_woven (h : 0 < a.calls) :
    instrumentMethod m (some a) = (weaveMethod a m).mapError .weave := by
  unfold instrumentMethod
  dsimp only
  rw [if_pos ((needsWeaving_iff a).2 h)]
  cases weaveMethod a m <;> rfl

/-- what becomes of an analyzed method -/
theorem instrumentMethod_cases {found : Option Analysis} (h : Analysis.ofProvider? p s owner m = .ok found) :
    (∃ m', instrumentMethod m found = .ok m' ∧ m.Outcome p s owner m') ∨
      ∃ e, instrumentMethod m found = .error e ∧ m.Fails p s owner e := by
  cases found with
  | none => exact .inl ⟨m, rfl, .kept h (by simp)⟩
  | some a =>
    by_cases hcalls : 0 < a.calls
    · have heq := instrumentMethod_woven (m := m) hcalls
      cases hweave : weaveMethod a m with
      | ok m' =>
        rw [hweave] at heq
        exact .inl ⟨m', heq, .woven h hcalls hweave⟩
      | error e =>
        rw [hweave] at heq
        exact .inr ⟨_, heq, .weaving h hcalls hweave⟩
    · have hzero : a.calls = 0 := by omega
      refine .inl ⟨m, instrumentMethod_kept hzero, .kept h fun b hb => ?_⟩
      rw [← Option.some.inj hb]
      exact hzero

end

/-! ## classes -/

/-- why a class stays as it was: all its methods are analyzed before any is woven -/
def ClassDef.firstFailure? (p : Program) (s : SpecProvider) (c : ClassDef) : Option InstrumentError :=
  match c.methods.findSome? (Method.analysisFailure? p s c.name) with
  | some e => some e
  | none => c.methods.findSome? (Method.weaveFailure? p s c.name)

/-- a class without failures after its methods were instrumented; it differs in methods only, and each of them
is what becomes of the one in its place -/
structure ClassDef.Woven (p : Program) (s : SpecProvider) (c c' : ClassDef) : Prop where
  same : c' = { c with methods := c'.methods }
  methods : List.Forall₂ (Method.Outcome p s c.name) c.methods c'.methods

section
variable {p : Program} {s : SpecProvider} {owner : String} {c c' : ClassDef}

/-- **The analyses** of all methods, or the first failure -/
theorem analyzeClass_cases (p : Program) (s : SpecProvider) (owner : String) (ms : List Method) :
    match analyzeClass p s owner ms with
    | .ok analyzed => ms.findSome? (Method.analysisFailure? p s owner) = none ∧
        List.Forall₂ (fun m x => x.1 = m ∧ Analysis.ofProvider? p s owner m = .ok x.2) ms analyzed
    | .error e => ms.findSome? (Method.analysisFailure? p s owner) = some e := by
  induction ms with
  | nil => exact ⟨rfl, .nil⟩
  | cons m ms ih =>
    rw [analyzeClass, List.findSome?_cons]
    unfold Method.analysisFailure?
    cases h : Analysis.ofProvider? p s owner m with
    | error e => exact rfl
    | ok a =>
      dsimp only
      cases hrest : analyzeClass p s owner ms with
      | error e =>
        rw [hrest] at ih
        exact ih
      | ok rest =>
        rw [hrest] at ih
        exact ⟨ih.1, .cons ⟨rfl, h⟩ ih.2⟩

/-- **The methods** after their analyses, or the first failure -/
theorem instrumentMethods_cases {ms : List Method} {analyzed : List (Method × Option Analysis)}
    (h : List.Forall₂ (fun m x => x.1 = m ∧ Analysis.ofProvider? p s owner m = .ok x.2) ms analyzed) :
    match instrumentMethods analyzed with
    | .ok ms' => ms.findSome? (Method.weaveFailure? p s owner) = none ∧
        List.Forall₂ (Method.Outcome p s owner) ms ms'
    | .error e => ms.findSome? (Method.weaveFailure? p s owner) = some e := by
  induction h with
  | nil => exact ⟨rfl, .nil⟩
  | @cons m x ms analyzed hx _ ih =>
    obtain ⟨m', a⟩ := x
    obtain ⟨rfl, ha⟩ : m' = m ∧ Analysis.ofProvider? p s owner m = .ok a := hx
    have hfailure : Method.weaveFailure? p s owner m' =
        match instrumentMethod m' a with
        | .error e => some e
        | .ok _ => none := by
      unfold Method.weaveFailure?
      rw [ha]
    rw [instrumentMethods, List.findSome?_cons, hfailure]
    rcases instrumentMethod_cases ha with ⟨m₁, hm₁, hout⟩ | ⟨e, he, -⟩
    · rw [hm₁]
      show match (instrumentMethods analyzed >>= fun ms => Except.ok (m₁ :: ms)) with
        | .ok ms' => ms.findSome? (Method.weaveFailure? p s owner) = none ∧
            List.Forall₂ (Method.Outcome p s owner) (m' :: ms) ms'
        | .error e => ms.findSome? (Method.weaveFailure? p s owner) = some e
      cases hrest : instrumentMethods analyzed with
      | error e =>
        rw [hrest] at ih
        exact ih
      | ok rest =>
        rw [hrest] at ih
        exact ⟨ih.1, .cons hout ih.2⟩
    · rw [he]
      exact rfl

/-- **A class** is woven, and reported as modified if a method was, or it has a first failure -/
theorem instrumentClass_cases (p : Program) (s : SpecProvider) (c : ClassDef) :
    match instrumentClass p s c with
    | .ok (c', r) => c.firstFailure? p s = none ∧ c.Woven p s c' ∧ r.name = c.name ∧ r.error = none ∧
        (r.modified = true ↔ ∃ m ∈ c.methods, m.Touched p s c.name)
    | .error e => c.firstFailure? p s = some e := by
  have hanalyze := analyzeClass_cases p s c.name c.methods
  unfold instrumentClass ClassDef.firstFailure?
  cases ha : analyzeClass p s c.name c.methods with
  | error e =>
    rw [ha] at hanalyze
    rw [hanalyze]
    exact rfl
  | ok analyzed =>
    rw [ha] at hanalyze
    obtain ⟨hnone, hanalyzed⟩ := hanalyze
    rw [hnone]
    have hmethods := instrumentMethods_cases hanalyzed
    dsimp only [bind, Except.bind]
    cases hm : instrumentMethods analyzed with
    | error e =>
      rw [hm] at hmethods
      exact hmethods
    | ok ms' =>
      rw [hm] at hmethods
      refine ⟨hmethods.1, ⟨rfl, hmethods.2⟩, rfl, rfl, ?_⟩
      show (analyzed.filterMap Prod.snd).any Analysis.needsWeaving = true ↔ _
      rw [List.any_eq_true]
      constructor
      · rintro ⟨a, ha', hcalls⟩
        obtain ⟨x, hx, hxa⟩ := List.mem_filterMap.1 ha'
        obtain ⟨i, hi, rfl⟩ := List.getElem_of_mem hx
        obtain ⟨hlen, hall⟩ := List.forall₂_iff_get.1 hanalyzed
        have hi' : i < c.methods.length := hlen ▸ hi
        have hout : Analysis.ofProvider? p s c.name c.methods[i] = .ok analyzed[i].2 := (hall i hi' hi).2
        refine ⟨c.methods[i], List.getElem_mem hi', a, ?_, (needsWeaving_iff a).1 hcalls⟩
        rw [hout, hxa]
      · rintro ⟨m, hmem, a, hout, hcalls⟩
        obtain ⟨i, hi, rfl⟩ := List.getElem_of_mem hmem
        obtain ⟨hlen, hall⟩ := List.forall₂_iff_get.1 hanalyzed
        have hi' : i < analyzed.length := hlen ▸ hi
        have hout' : Analysis.ofProvider? p s c.name c.methods[i] = .ok analyzed[i].2 := (hall i hi hi').2
        refine ⟨a, List.mem_filterMap.2 ⟨analyzed[i], List.getElem_mem hi', ?_⟩, (needsWeaving_iff a).2 hcalls⟩
        exact Except.ok.inj (hout'.symm.trans hout)

end

/-! ## programs -/

/-- what becomes of a class, and its report, where a failure is only reported -/
def settledClass (p : Program) (s : SpecProvider) (c : ClassDef) : ClassDef × ClassReport :=
  match instrumentClass p s c with
  | .ok r => r
  | .error e => (c, ⟨c.name, false, [], some e.message⟩)

/-- the failure of a class that ends the run -/
def endingFailure? (p : Program) (s : SpecProvider) (failFast : Bool) (c : ClassDef) : Option InstrumentError :=
  (c.firstFailure? p s).filter fun e => failFast || e.isFatal

section
variable {p : Program} {s : SpecProvider} {failFast : Bool} {c : ClassDef}

theorem settledClass_failed {e : InstrumentError} (h : c.firstFailure? p s = some e) :
    settledClass p s c = (c, ⟨c.name, false, [], some e.message⟩) := by
  have hcases := instrumentClass_cases p s c
  unfold settledClass
  cases hc : instrumentClass p s c with
  | ok r =>
    rw [hc] at hcases
    exact absurd (hcases.1.symm.trans h) (by simp)
  | error e' =>
    rw [hc] at hcases
    obtain rfl := Option.some.inj (hcases.symm.trans h)
    rfl

theorem settledClass_woven (h : c.firstFailure? p s = none) :
    c.Woven p s (settledClass p s c).1 ∧ (settledClass p s c).2.name = c.name ∧ (settledClass p s c).2.error = none ∧
      ((settledClass p s c).2.modified = true ↔ ∃ m ∈ c.methods, m.Touched p s c.name) := by
  have hcases := instrumentClass_cases p s c
  unfold settledClass
  cases hc : instrumentClass p s c with
  | ok r =>
    rw [hc] at hcases
    exact hcases.2
  | error e =>
    rw [hc] at hcases
    exact absurd (hcases.symm.trans h) (by simp)

theorem settledClass_name (p : Program) (s : SpecProvider) (c : ClassDef) :
    (settledClass p s c).1.name = c.name ∧ (settledClass p s c).2.name = c.name := by
  cases h : c.firstFailure? p s with
  | some e =>
    rw [settledClass_failed h]
    exact ⟨rfl, rfl⟩
  | none =>
    obtain ⟨hwoven, hname, -⟩ := settledClass_woven h
    refine ⟨?_, hname⟩
    rw [hwoven.same]

theorem instrumentOrKeep_eq (p : Program) (s : SpecProvider) (failFast : Bool) (c : ClassDef) :
    instrumentOrKeep p s failFast c =
      match endingFailure? p s failFast c with
      | some e => .error e
      | none => .ok (settledClass p s c) := by
  have hcases := instrumentClass_cases p s c
  unfold instrumentOrKeep endingFailure? settledClass
  cases hc : instrumentClass p s c with
  | ok r =>
    rw [hc] at hcases
    rw [hcases.1]
    rfl
  | error e =>
    rw [hc] at hcases
    rw [hcases]
    dsimp only
    by_cases hends : (failFast || e.isFatal) = true
    · rw [if_pos hends, Option.filter_some, if_pos hends]
    · rw [if_neg hends, Option.filter_some, if_neg hends]

/-- the classes of a program with their keys -/
def settledClasses (p : Program) (s : SpecProvider) (cs : List (String × ClassDef)) : List (String × ClassDef) :=
  cs.map fun e => (e.1, (settledClass p s e.2).1)

def settledReports (p : Program) (s : SpecProvider) (cs : List (String × ClassDef)) : List ClassReport :=
  cs.map fun e => (settledClass p s e.2).2

theorem instrumentClasses_eq {cs : List (String × ClassDef)} {done : Program × List ClassReport}
    (hkeys : ∀ e ∈ cs, e.1 = e.2.name) (hsorted : cs.Pairwise fun a b => a.1 < b.1)
    (hdone : ∀ e ∈ cs, ∀ d ∈ done.1.classes, d.1 < e.1) :
    instrumentClasses p s failFast (cs.map Prod.snd) done =
      match cs.findSome? fun e => endingFailure? p s failFast e.2 with
      | some e => .error e
      | none => .ok (⟨done.1.classes ++ settledClasses p s cs⟩, done.2 ++ settledReports p s cs) := by
  induction cs generalizing done with
  | nil =>
    show Except.ok done = Except.ok (⟨done.1.classes ++ []⟩, done.2 ++ [])
    rw [List.append_nil, List.append_nil]
  | cons e cs ih =>
    rw [List.map_cons, instrumentClasses, instrumentOrKeep_eq, List.findSome?_cons]
    cases hends : endingFailure? p s failFast e.2 with
    | some f => rfl
    | none =>
      obtain ⟨hfirst, hsorted⟩ := List.pairwise_cons.1 hsorted
      have hname : (settledClass p s e.2).1.name = e.1 := by
        rw [(settledClass_name p s e.2).1, hkeys e List.mem_cons_self]
      have hinsert : (done.1.insert (settledClass p s e.2).1).classes =
          done.1.classes ++ [(e.1, (settledClass p s e.2).1)] := by
        show Program.insertEntry (settledClass p s e.2).1.name _ done.1.classes = _
        rw [hname]
        exact Program.insertEntry_last (hdone e List.mem_cons_self)
      show instrumentClasses p s failFast (cs.map Prod.snd)
        (done.1.insert (settledClass p s e.2).1, done.2 ++ [(settledClass p s e.2).2]) = _
      rw [ih (fun e' he' => hkeys e' (List.mem_cons_of_mem _ he')) hsorted fun e' he' d hd => by
        rw [hinsert, List.mem_append, List.mem_singleton] at hd
        rcases hd with hd | rfl
        · exact hdone e' (List.mem_cons_of_mem _ he') d hd
        · exact hfirst e' he']
      rw [hinsert, List.append_assoc, List.append_assoc]
      rfl

/-- **A program** is instrumented class by class, unless a failure ends the run -/
theorem instrumentWith_eq (hp : p.Ordered) (s : SpecProvider) (failFast : Bool) :
    instrumentWith p s failFast =
      match p.classes.findSome? fun e => endingFailure? p s failFast e.2 with
      | some e => .error e
      | none => .ok (⟨settledClasses p s p.classes⟩, settledReports p s p.classes) := by
  unfold instrumentWith
  rw [instrumentClasses_eq hp.keys hp.sorted fun e _ d hd => absurd hd (by simp [Program.empty])]
  rfl

end

/-! ## what instrumenting promises -/

section
variable {p : Program} {s : SpecProvider} {c c' : ClassDef}

end

/-! #### a class that fails, and one that does not -/

namespace Faulty

/-- every `run` may suspend in calls of `step` -/
def provider : SpecProvider where
  restorePoints? m := if m.name = "run" then some [.ofName "step"] else none
  isEntry _ := false

def method (name : String) (code : List Insn) (table : List TryCatch) : Method := ⟨name, "()V", true, 0, code, table, []⟩

/-- there is nothing to be dropped -/
def failing : ClassDef := ⟨"demo/A", some objectType, [], [], [method "run" [.pop, .ret none] []]⟩

def calling (owner : String) (table : List TryCatch) : ClassDef :=
  ⟨owner, some objectType, [], [], [method "step" [.ret none] [],
    method "run" [.label ⟨0⟩, .nop, .label ⟨1⟩, .invoke .static ⟨owner, "step", "()V"⟩, .ret none] table]⟩

def program : Program := ⟨[("demo/A", failing), ("demo/B", calling "demo/B" [])]⟩

theorem ordered_program : program.Ordered := ⟨by decide, by decide⟩

end Faulty

end Resumable
