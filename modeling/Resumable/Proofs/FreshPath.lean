import Resumable.Proofs.Simulation

/-!
# Runs without suspensions

A run in which nothing is suspended ends in the rewritten program as it ends in the program itself:
with the same result, heap, statics and console.  If it does not end with a fault, all coroutines end
as they do there, and the one that ran from the beginning has saved and staged what it had before.

* `Sim.run` : a whole run side by side;
* `fresh_path_equivalence` : calls from outside.
-/

namespace Resumable

section
variable {p p' : Program} {t : RestoreTable} {hosts : List HostMethod} {v : Veil} {m m' : Machine}

/-- **A whole run** of the program is a run of the rewritten program -/
theorem Sim.run (hpair : Paired p t p' hosts hosts) (hmark : v.mark = none)
    (h : Sim p t p' v m [] m')
    (hplain : ∀ n, Plain p t p' hosts (m.after ⟨p, hosts⟩ n) (m.owners ⟨p, hosts⟩ n)) (n : Nat) :
    ∃ m'', Machine.Reaches ⟨p', hosts⟩ m' m'' ∧
      Sim p t p' v (m.after ⟨p, hosts⟩ n) (m.owners ⟨p, hosts⟩ n) m'' := by
  induction n with
  | zero => exact ⟨m', .refl _ _, h⟩
  | succ n ih =>
    obtain ⟨m₁, hreach, hsim⟩ := ih
    have hafter := (hplain (n + 1)).fresh
    rw [Machine.after_succ'] at hafter ⊢
    obtain ⟨m₂, hreach', hsim'⟩ := hsim.step hpair (Machine.findsSame_self _ _) (fun _ _ _ _ _ => hmark)
      (hplain n) hafter
    exact ⟨m₂, hreach.trans hreach', hsim'⟩

/-! ## the two ends of a run -/

/-- what the running coroutine has saved, if one runs -/
def Veil.of (e : Engine Call Call) : Veil := ⟨none, e.current?.map Coroutine.savings⟩

/-- both sides begin with the same machine -/
theorem Sim.begin (hfresh : m.engine.Fresh) (hnumbered : m.engine.Numbered) (c : Call) :
    Sim p t p' (.of m.engine) (m.begin c) [] (m.begin c) := by
  have hhides : Hides (.of m.engine) [] m.engine m.engine := by
    rcases hfresh with hidle | ⟨d, hd, hactive, -, -⟩
    · refine .idle hidle rfl rfl ?_ hnumbered rfl
      unfold Veil.of Engine.current? Engine.currentId?
      rw [hidle]
      rfl
    · refine .running hd hactive (fun s hs => ?_) hnumbered ?_
      · unfold Veil.of at hs
        rw [hd.current?_eq] at hs
        exact Option.some.inj hs
      · exact hd.put_eq.symm
  have hexists : (Veil.of m.engine).kept.isSome = m.engine.exists := by
    rcases hfresh with hidle | ⟨d, hd, hactive, -, -⟩
    · unfold Veil.of Engine.current? Engine.currentId? Engine.exists
      rw [hidle]
      rfl
    · unfold Veil.of
      rw [hd.current?_eq, hd.exists_eq]
      rfl
  refine .waiting ⟨rfl, rfl, rfl, hhides⟩ ?_ rfl (by simp [Machine.begin]) (by simp [Machine.begin])
  show Stacked p t p' _ m.engine.exists [] [] [] []
  rw [← hexists]
  exact .nil

/-- what both sides have in common once the run has ended -/
structure SameEnd (v : Veil) (r : Except Throw (Option Value)) (m m' : Machine) : Prop where
  result : m'.result? = some r
  heap : m'.heap = m.heap
  statics : m'.statics = m.statics
  console : m'.console = m.console
  engine : (∀ f, r ≠ .error (.fault f)) → m'.engine = m.engine
  kept : (∀ f, r ≠ .error (.fault f)) → ∀ s, v.kept = some s →
    ∃ c, m.engine.Runs c ∧ c.savings = s

/-- both sides end together -/
theorem Sim.end {owners : List String} {r : Except Throw (Option Value)}
    (h : Sim p t p' v m owners m') (hmark : v.mark = none) (hr : m.result? = some r) :
    SameEnd v r m m' := by
  have hdone : m.pending = [] := by
    unfold Machine.result? at hr
    split at hr
    · assumption
    · assumption
    · exact absurd hr (by simp)
  have hsame (hpending : m'.pending = []) (hmode : m'.mode = m.mode) : m'.result? = some r := by
    unfold Machine.result? at hr ⊢
    rw [hpending, hmode, ← hdone]
    exact hr
  cases h with
  | executing => exact absurd hdone (by simp [Machine.goOn])
  | thrown => exact absurd hdone (by simp [Machine.throwTo])
  | faulted mode mode' heap statics console length =>
    have hpending : m'.pending = [] := List.length_eq_zero_iff.1 (by rw [length, hdone]; rfl)
    have hfault : ∃ f, r = .error (.fault f) := by
      unfold Machine.result? at hr
      rw [hdone, mode] at hr
      exact ⟨_, (Option.some.inj hr).symm⟩
    obtain ⟨f, rfl⟩ := hfault
    exact ⟨hsame hpending (mode'.trans mode.symm), heap, statics, console,
      fun h => absurd rfl (h f), fun h => absurd rfl (h f)⟩
  | waiting like stacked mode waits goes =>
    rw [hdone] at stacked
    generalize hactive : m.engine.exists = active at stacked
    generalize hpending : m'.pending = pending at stacked
    cases stacked with
    | nil =>
      refine ⟨hsame hpending mode, like.heap, like.statics, like.console, fun _ => ?_,
        fun _ s hs => ?_⟩
      · cases like.engine with
        | idle _ _ _ _ _ same => exact same
        | running runs active kept numbered put =>
          rw [put, hmark, Option.getD_none, Coroutine.veiled_nil, runs.put_eq]
      · cases like.engine with
        | idle _ _ _ kept _ _ => exact absurd hs (by rw [kept]; simp)
        | running runs active kept numbered put => exact ⟨_, runs, kept s hs⟩

end

/-! ## calls from outside -/

/-- the rewritten program is supplied with the same built-in methods -/
theorem Rewritten.supplies {p p' : Program} {t : RestoreTable} {hosts : List HostMethod}
    (h : Rewritten p t p') (hw : (⟨p, hosts⟩ : World).Supplies) :
    (⟨p', hosts⟩ : World).Supplies := by
  intro i hi
  have halike : HostsAlike hosts hosts := fun _ => rfl
  have hresolve := h.resolve halike .static i.id none
  rw [hw i hi] at hresolve
  obtain ⟨x', hx', hsame⟩ := hresolve
  rw [hx']
  cases hsame with
  | native found found' => rw [Option.some.inj (found'.symm.trans found)]

/-- the labels of no analyzed method run out of numbers -/
def Program.LabelsFit (p : Program) (t : RestoreTable) : Prop :=
  ∀ owner m a, p.method? (m.id owner) = some m → Analysis.ofTable? p t owner m = .ok (some a) →
    Resumable.LabelsFit m (newLabels (sitesOf a m.nextLabel))

/-- **A call during which nothing is suspended** ends in the rewritten program as in the program -/
theorem fresh_path_equivalence {p p' : Program} {t : RestoreTable} {failFast : Bool}
    {reports : List ClassReport} {hosts : List HostMethod} {m m₁ : Machine} {c : Call} {fuel : Nat}
    {r : Except Throw (Option Value)} (ordered : p.Ordered)
    (instrumented : instrument p t failFast = .ok (p', reports))
    (supplies : (⟨p, hosts⟩ : World).Supplies) (fits : p.LabelsFit t)
    (numbered : m.engine.Numbered) (run : m.invoke? ⟨p, hosts⟩ fuel c = some (r, m₁))
    (plain : ∀ n, Plain p t p' hosts ((m.begin c).after ⟨p, hosts⟩ n)
      ((m.begin c).owners ⟨p, hosts⟩ n)) :
    ∃ fuel' m₂, m.invoke? ⟨p', hosts⟩ fuel' c = some (r, m₂) ∧ m₂.heap = m₁.heap ∧
      m₂.statics = m₁.statics ∧ m₂.console = m₁.console ∧
      ((∀ f, r ≠ .error (.fault f)) → m₂.engine = m₁.engine ∧
        ∀ a, m.engine.Runs a → ∃ b, m₁.engine.Runs b ∧ b.savings = a.savings) := by
  have hrewritten := instrument_ok ordered instrumented
  have hpair : Paired p t p' hosts hosts :=
    ⟨hrewritten, fun _ => rfl, hrewritten.supplies supplies, fits⟩
  obtain ⟨⟨n, hn⟩, hr⟩ := Machine.run?_eq_some run
  have hfresh : m.engine.Fresh := (plain 0).fresh
  obtain ⟨m₂, hreach, hsim⟩ := (Sim.begin hfresh numbered c).run hpair rfl plain n
  rw [hn] at hsim
  have hend := hsim.end rfl hr
  obtain ⟨fuel', hfuel'⟩ := Machine.run?_of_reaches hreach hend.result
  refine ⟨fuel', m₂, hfuel', hend.heap, hend.statics, hend.console, fun hf =>
    ⟨hend.engine hf, fun a ha => hend.kept hf a.savings ?_⟩⟩
  unfold Veil.of
  rw [ha.current?_eq]
  rfl

/-! ## steps that ask for little -/

namespace Plain

variable {p p' : Program} {t : RestoreTable} {hosts : List HostMethod} {m : Machine}
  {owners : List String}

/-- a method of the program is called -/
theorem calling {c : Call} {target : Method} (hfresh : m.engine.Fresh) (hm : m.mode = .calling c)
    (hc : (⟨p, hosts⟩ : World).target? m.heap c = some (.code target)) :
    Plain p t p' hosts m owners where
  fresh := hfresh
  storage c' n hc' hn := by
    obtain rfl : c = c' := by simpa using hm.symm.trans hc'
    exact absurd (hc.symm.trans hn) (by simp)
  operands x rest owner os hx := absurd (hm.symm.trans hx) (by simp)

/-- an activation goes on -/
theorem executing {x : Activation} {rest : List Pending} {owner : String} {os : List String}
    (hfresh : m.engine.Fresh) (hm : m.mode = .executing) (hx : m.pending = .activation x :: rest)
    (hos : owners = owner :: os) (hoperands : OperandsAdmitted p t p' m.heap owner x) :
    Plain p t p' hosts m owners where
  fresh := hfresh
  storage c n hc := absurd (hm.symm.trans hc) (by simp)
  operands x' rest' owner' os' _ hx' hos' _ := by
    obtain ⟨rfl, -⟩ : x = x' ∧ rest = rest' := by simpa using hx.symm.trans hx'
    obtain ⟨rfl, -⟩ : owner = owner' ∧ os = os' := by simpa using hos.symm.trans hos'
    exact hoperands

/-- a call has ended -/
theorem returning {r : Option Value} (hfresh : m.engine.Fresh) (hm : m.mode = .returning r) :
    Plain p t p' hosts m owners where
  fresh := hfresh
  storage c n hc := absurd (hm.symm.trans hc) (by simp)
  operands x rest owner os hx := absurd (hm.symm.trans hx) (by simp)

end Plain

/-! ## a call whose operand is staged -/

namespace Feed

def owner : String := "demo/R"

/-- the callee, which takes a number and is not woven -/
def sink : MethodId := ⟨owner, "sink", "(I)V"⟩

def sinking : Method := ⟨"sink", "(I)V", true, 1, [.ret none], [], []⟩

def feeding (code : List Insn) : Method := ⟨"feed", "()V", true, 0, code, [], []⟩

def program (code : List Insn) : Program :=
  ⟨[(owner, ⟨owner, some objectType, [], [], [sinking, feeding code]⟩)]⟩

/-- a call of `sink` in `feed` may suspend -/
def table : RestoreTable :=
  ⟨none, [⟨owner, "feed", "", none, [{ RestorePoint.ofName "sink" with patchable := false }]⟩]⟩

/-- the code of a program with its calls woven -/
def rewritten (code : List Insn) : Program :=
  match instrument (program code) table true with
  | .ok r => r.1
  | .error _ => .empty

/-- a coroutine that runs alone -/
def running : Coroutine Call Call :=
  { Coroutine.create 1 (⟨.static, sink, []⟩ : Call) with
    body := none
    status := .running }

def machine : Machine := { Machine.empty with engine := ⟨#[running], [1]⟩ }

def call : Call := ⟨.static, ⟨owner, "feed", "()V"⟩, []⟩

theorem fresh_machine : machine.engine.Fresh := .inr ⟨running, ⟨rfl, rfl⟩, rfl, rfl, rfl⟩

theorem numbered_machine : machine.engine.Numbered := by
  intro n c hc
  match n with
  | 1 =>
    obtain rfl : running = c := Option.some.inj hc
    rfl
  | 0 | n + 2 => exact absurd hc (by simp [machine, Engine.get?])

theorem ordered_program (code : List Insn) : (program code).Ordered :=
  ⟨fun e he => by rw [List.mem_singleton.1 he], List.pairwise_singleton _ _⟩

theorem supplies_program (code : List Insn) : (⟨program code, []⟩ : World).Supplies :=
  World.supplies_of (fun _ _ => rfl) fun _ _ _ hmem => absurd hmem (by simp)

theorem analysis_sinking (code : List Insn) :
    Analysis.ofTable? (program code) table owner sinking = .ok none := rfl

/-! ### a number is fed -/

/-- a number for a number -/
def wellFed : List Insn := [.intConst 1, .invoke .static sink, .ret none]

/-- the frame of the call, with the number on its stack -/
def site : Site := ⟨0, 1, .static, sink, true, some ⟨[], [.int]⟩, ⟨0⟩⟩

def analysis : Analysis where
  method := ⟨owner, "feed", "()V"⟩
  isStatic := true
  rootEntry := false
  calls := 1
  restorePoints := [sink]
  unpatchable := [sink]
  frames := [some ⟨[], []⟩, some ⟨[], [.int]⟩, some ⟨[], []⟩]
  insns := wellFed

theorem analysis_feeding :
    Analysis.ofTable? (program wellFed) table owner (feeding wellFed) = .ok (some analysis) := rfl

theorem sites_feeding : sitesOf analysis (feeding wellFed).nextLabel = [site] := rfl

theorem labelsFit_program : (program wellFed).LabelsFit table := by
  intro o m a hm ha
  by_cases ho : o = owner
  · subst ho
    have hfind : ([sinking, feeding wellFed].find? fun m' =>
        m'.name == m.name && m'.desc == m.desc) = some m := hm
    rcases List.mem_cons.1 (List.mem_of_find?_eq_some hfind) with rfl | hmem
    · exact absurd ((analysis_sinking wellFed).symm.trans ha) (by simp)
    · obtain rfl := List.mem_singleton.1 hmem
      obtain rfl : analysis = a := by simpa using analysis_feeding.symm.trans ha
      have hnone : (feeding wellFed).labels = [] := rfl
      exact ⟨fun l hl => absurd hl (by rw [hnone]; simp), by decide⟩
  · have hnone : (program wellFed).class? o = none := by
      unfold Program.class? program
      rw [List.find?_cons_of_neg (by simpa using Ne.symm ho)]
      rfl
    unfold Program.method? at hm
    rw [show (m.id o).owner = o from rfl, hnone] at hm
    exact absurd hm (by simp)

/-- where the call is made, its operand is a number -/
theorem operands_feeding {x : Activation} (hx : x.method = feeding wellFed)
    (hs : x.position = 1 → x.stack = [.int 1]) (h : Heap) :
    OperandsAdmitted (program wellFed) table (rewritten wellFed) h owner x := by
  intro a m' s f d shape ha _ _ hmem hp _ hf hd hshape
  rw [hx, analysis_feeding] at ha
  obtain rfl : analysis = a := by simpa using ha
  rw [hx, sites_feeding] at hmem
  obtain rfl := List.mem_singleton.1 hmem
  obtain rfl : ⟨[], [.int]⟩ = f := Option.some.inj hf
  obtain rfl : ⟨[.int], none⟩ = d := Option.some.inj hd
  obtain rfl : ⟨[], [.int], false, none⟩ = shape := Option.some.inj hshape
  rw [hs hp.symm]
  refine ⟨[(.int, .int 1)], [], fun e he => ?_, rfl, by decide, rfl⟩
  obtain rfl := List.mem_singleton.1 he
  exact ⟨⟨.int, rfl⟩, fun k hk => hk⟩

theorem plain_feeding (n : Nat) : Plain (program wellFed) table (rewritten wellFed) []
    ((machine.begin call).after ⟨program wellFed, []⟩ n)
    ((machine.begin call).owners ⟨program wellFed, []⟩ n) := by
  match n with
  | 0 => exact .calling fresh_machine rfl rfl
  | 1 =>
    exact .executing fresh_machine rfl rfl rfl
      (operands_feeding rfl (fun h => absurd h (by decide)) _)
  | 2 => exact .executing fresh_machine rfl rfl rfl (operands_feeding rfl (fun _ => rfl) _)
  | 3 => exact .calling fresh_machine rfl rfl
  | 4 =>
    exact .executing fresh_machine rfl rfl rfl fun a m' s f d shape ha =>
      absurd ((analysis_sinking _).symm.trans ha) (by simp)
  | 5 => exact .returning fresh_machine (r := none) rfl
  | 6 =>
    exact .executing fresh_machine rfl rfl rfl
      (operands_feeding rfl (fun h => absurd h (by decide)) _)
  | n + 7 =>
    have hdone : ((machine.begin call).after ⟨program wellFed, []⟩ 7).result?.isSome := rfl
    rw [Nat.add_comm, Machine.after_add, Machine.after_of_result? hdone]
    exact .returning fresh_machine (r := none) rfl

/-- The woven call ends as the call does, with the coroutine as it was. -/
theorem fresh_path_equivalence_wellFed : ∃ fuel m,
    machine.invoke? ⟨rewritten wellFed, []⟩ fuel call = some (.ok none, m) ∧
      m.engine = machine.engine ∧ m.console = [] := by
  have hrun : machine.invoke? ⟨program wellFed, []⟩ 7 call =
      some (.ok none, (machine.begin call).after ⟨program wellFed, []⟩ 7) := rfl
  obtain ⟨reports, hinstrumented⟩ : ∃ reports,
      instrument (program wellFed) table true = .ok (rewritten wellFed, reports) := ⟨_, rfl⟩
  obtain ⟨fuel, m, hinvoke, -, -, hconsole, hend⟩ := fresh_path_equivalence (ordered_program _)
    hinstrumented (supplies_program _) labelsFit_program numbered_machine hrun plain_feeding
  exact ⟨fuel, m, hinvoke, (hend (by simp)).1, hconsole⟩

/-! ### something else is fed -/

/-- a long is read from a static that is said to hold a number -/
def illFed : List Insn :=
  [.longConst 1, .putStatic ⟨owner, "x", "J"⟩, .getStatic ⟨owner, "x", "I"⟩, .invoke .static sink,
    .ret none]

/-- Where the operand of a call is no reference, and not of the kind that the frame says, the program
ends without a fault and the rewritten one does not. -/
theorem no_equivalence_illFed :
    (program illFed).Ordered ∧
    (∃ reports, instrument (program illFed) table true = .ok (rewritten illFed, reports)) ∧
    machine.engine.Runs running ∧ running.states = [] ∧
    (∀ n, ((machine.begin call).after ⟨program illFed, []⟩ n).engine = machine.engine) ∧
    ((machine.begin call).after ⟨program illFed, []⟩ 4).pending =
      [.activation ⟨feeding illFed, 3, [], [.long 1]⟩] ∧
    (∃ m, machine.invoke? ⟨program illFed, []⟩ 9 call = some (.ok none, m)) ∧
    ¬ ∃ fuel m, machine.invoke? ⟨rewritten illFed, []⟩ fuel call = some (.ok none, m) := by
  refine ⟨ordered_program _, ⟨_, rfl⟩, ⟨rfl, rfl⟩, rfl, fun n => ?_, rfl, ⟨_, rfl⟩, ?_⟩
  · match n with
    | 0 | 1 | 2 | 3 | 4 | 5 | 6 | 7 | 8 => rfl
    | n + 9 =>
      have hdone : ((machine.begin call).after ⟨program illFed, []⟩ 9).result?.isSome := rfl
      rw [Nat.add_comm, Machine.after_add, Machine.after_of_result? hdone]
      rfl
  · rintro ⟨fuel, m, h⟩
    obtain ⟨f, m', h'⟩ : ∃ f m', machine.invoke? ⟨rewritten illFed, []⟩ 100 call =
        some (.error (.fault f), m') := ⟨_, _, rfl⟩
    obtain ⟨hreach, hr⟩ := Machine.run?_eq_some h
    obtain ⟨hreach', hr'⟩ := Machine.run?_eq_some h'
    obtain ⟨n, hn⟩ := hreach.of_result? hreach' hr'
    rw [Machine.after_of_result? (by rw [hr]; rfl)] at hn
    subst hn
    exact absurd (hr.symm.trans hr') (by simp)

end Feed

end Resumable
