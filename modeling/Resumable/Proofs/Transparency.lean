import Resumable.Proofs.Driving
import Resumable.Proofs.FreshPath
import Resumable.Proofs.Suspension

/-!
# Suspensions make no difference

A coroutine of the rewritten program, resumed until it has ended, does what the program itself does in one run where
yields do nothing: with the same result, heap, statics and console.  Each time that it is suspended, the numbers of
the sites of all calls under way are saved, the outermost first.

* `Suspendable` : what is asked of the program before each step;
* `Sim.leaving`, `Sim.step_spared` : one step;
* `Sim.finishes` : both programs from some step on;
* `transparency` : both programs from the beginning.
-/

namespace Resumable

/-! ## the end of the body -/

/-- What both programs have in common once the coroutine has ended.  Unless they have faulted, all coroutines are the
same, but for the mark of this one. -/
structure SameEnding (id : Nat) (r : Except Throw (Option Value)) (m m' : Machine) : Prop where
  heap : m'.heap = m.heap
  statics : m'.statics = m.statics
  console : m'.console = m.console
  engine : (∀ f, r ≠ .error (.fault f)) → ∃ c mark, m.engine.get? id = some c ∧ c.status = .terminal ∧
    m'.engine = m.engine.put { c with companionOnTop := mark }

section
variable {p p' : Program} {t : RestoreTable} {hosts : List HostMethod} {v : Veil} {m m' : Machine}
  {owners : List String} {id : Nat} {body : Call}

/-- **The body ends** in both programs -/
theorem Sim.leaving (w w' : World) (h : Sim p t p' v m owners m') (hbody : m.InBody (.started id body false) body)
    (hleaving : m.Leaving id body) : ∃ r m'', (m.step w).result? = some r ∧ Machine.Reaches w' m' m'' ∧
      m''.result? = some r ∧ Drives w' id (some (r, m'')) [] r m'' ∧ SameEnding id r (m.step w) m'' := by
  obtain ⟨hp, hmode⟩ := hleaving
  have hleft : m.step w = { m with
      engine := ({ m.engine with active := [] } : Engine Call Call).put ((Coroutine.started id body false).ended body)
      pending := [], mode := m.mode.last } :=
    Machine.step_leaving hbody.alone.runs hbody.alone.active rfl ⟨hp, hmode⟩
  cases h with
  | executing => exact absurd hp (by simp [Machine.goOn])
  | thrown => exact absurd hp (by simp [Machine.throwTo])
  | @faulted _ _ _ f fmode fmode' heap statics console length =>
    obtain ⟨h1, h2, h3, h4, h5⟩ := Machine.step_fault (w := w') fmode'
    have hpending : (m'.step w').pending = [] := by
      rw [h5, ← List.length_eq_zero_iff, List.length_tail, length, hp]
      rfl
    refine ⟨.error (.fault f), m'.step w', ?_, .of_step rfl, ?_, .threw, ?_, ?_, ?_, fun hf => absurd rfl (hf f)⟩
    · rw [hleft, fmode]
      rfl
    · unfold Machine.result?
      rw [hpending, h1]
    · rw [h2, heap, hleft]
    · rw [h3, statics, hleft]
    · rw [h4, console, hleft]
  | waiting like stacked same waits goes =>
    rw [hp, hbody.alone.runs.exists_eq] at stacked
    generalize hactive : true = active at stacked
    generalize hpending : m'.pending = ps' at stacked
    cases stacked with
    | body rest =>
      generalize hactive : false = active at rest
      cases rest with
      | nil =>
        obtain ⟨mark, hengine⟩ := like.engine.marked hbody.alone.runs
        have hruns : m'.engine.Runs (.started id body mark) := by
          rw [hengine]
          exact hbody.alone.runs.put rfl
        have hleft' : m'.step w' = { m' with
            engine := ({ m'.engine with active := [] } : Engine Call Call).put
              ((Coroutine.started id body mark).ended body)
            pending := [], mode := m'.mode.last } :=
          Machine.step_leaving hruns (by rw [hengine]; exact hbody.alone.active) rfl
            ⟨hpending, by rw [same]; exact hmode⟩
        -- both engines hold the coroutine that has ended
        have hput : ({ m'.engine with active := [] } : Engine Call Call).put
            ((Coroutine.started id body mark).ended body) =
            ({ m.engine with active := [] } : Engine Call Call).put
              ((Coroutine.started id body mark).ended body) := by
          rw [hengine]
          exact Engine.put_put { m.engine with active := [] } rfl
        have hfound (mark : Bool) : (({ m.engine with active := [] } : Engine Call Call).put
            ((Coroutine.started id body mark).ended body)).get? id =
              some ((Coroutine.started id body mark).ended body) :=
          Engine.get?_put_self (c := (Coroutine.started id body mark).ended body) hbody.alone.runs.found
        rw [hput, like.heap, like.statics, like.console, same] at hleft'
        have hboth (r : Except Throw (Option Value)) : SameEnding id r (m.step w) (m'.step w') := by
          rw [hleft, hleft']
          refine ⟨rfl, rfl, rfl, fun _ => ⟨_, mark, hfound false, rfl, ?_⟩⟩
          refine (Engine.put_put _ ?_).symm
          rfl
        rcases hmode with ⟨v, hm⟩ | ⟨th, hm⟩
        · refine ⟨.ok none, m'.step w', ?_, .of_step rfl, ?_, ?_, hboth _⟩
          · rw [hleft, hm]
            rfl
          · rw [hleft', hm]
            rfl
          · rw [hleft']
            exact .ended (hfound mark) rfl
        · refine ⟨.error th, m'.step w', ?_, .of_step rfl, ?_, .threw, hboth _⟩
          · rw [hleft, hm]
            rfl
          · rw [hleft', hm]
            rfl

end

/-! ## one step -/

namespace Machine

/-- the next step asks for a suspension -/
def asks (w : World) (m : Machine) : Bool :=
  match m.mode with
  | .calling c =>
    match w.target? m.heap c with
    | some (.native n) => n.isYield
    | _ => false
  | _ => false

theorem asks_native {w : World} {m : Machine} {c : Call} {n : Native} (hc : m.mode = .calling c)
    (hn : w.target? m.heap c = some (.native n)) : m.asks w = n.isYield := by
  unfold asks
  rw [hc]
  dsimp only
  rw [hn]

theorem exists_of_asks {w : World} {m : Machine} (h : m.asks w = true) : ∃ c i, m.mode = .calling c ∧
    w.target? m.heap c = some (.native (.intrinsic i)) ∧ i.isYield = true := by
  unfold asks at h
  split at h
  · rename_i c hc
    split at h
    · rename_i n hn
      cases n with
      | intrinsic i => exact ⟨c, i, hc, hn, h⟩
      | _ => exact absurd h (by simp [Native.isYield])
    · exact absurd h (by simp)
  · exact absurd h (by simp)

end Machine

/-- What is asked of the program before each step: it uses no storage of coroutines and resumes none; it yields on the
coroutine that runs, deferring nothing, where the calls under way can be suspended; and operands are what frames
say. -/
structure Suspendable (p : Program) (t : RestoreTable) (p' : Program) (hosts : List HostMethod) (id : Nat)
    (body : Call) (m : Machine) (owners : List String) : Prop where
  natives : ∀ c n, m.mode = .calling c → (⟨p, hosts⟩ : World).target? m.heap c = some (.native n) →
    n.isYield = false → n.spares = true
  yields : ∀ c i, m.mode = .calling c → (⟨p, hosts⟩ : World).target? m.heap c = some (.native (.intrinsic i)) →
    i.isYield = true → c.kind.hasReceiver = true ∧ c.args = i.suspendArgs id ∧
      Chain ⟨p, hosts⟩ t p' m.heap id body c owners m.pending
  operands : ∀ x rest owner os, m.mode = .executing → m.pending = .activation x :: rest → owners = owner :: os →
    OperandsAdmitted p t p' m.heap owner x

section
variable {p p' : Program} {t : RestoreTable} {hosts : List HostMethod} {v : Veil} {m m' : Machine}
  {owners : List String} {id : Nat} {body : Call}

/-- **A step** of the program that asks for no suspension is some steps of the rewritten program -/
theorem Sim.step_spared (hpair : Paired p t p' hosts hosts) (h : Sim p t p' v m owners m')
    (hbody : m.InBody (.started id body false) body) (hs : Suspendable p t p' hosts id body m owners)
    (hasks : m.asks ⟨p, hosts⟩ = false) (hleaving : ¬ m.Leaving id body) :
    (m.step (World.muted ⟨p, hosts⟩)).InBody (.started id body false) body ∧ ∃ m'',
      Machine.Reaches ⟨p', hosts⟩ m' m'' ∧
      Sim p t p' v (m.step (World.muted ⟨p, hosts⟩)) (m.ownersAfter (World.muted ⟨p, hosts⟩) owners) m'' := by
  have hquiet (c : Call) (n : Native) (hc : m.mode = .calling c)
      (hn : (⟨p, hosts⟩ : World).target? m.heap c = some (.native n)) : n.isYield = false :=
    (Machine.asks_native hc hn).symm.trans hasks
  have hspares (c : Call) (n : Native) (hc : m.mode = .calling c)
      (hn : (World.muted ⟨p, hosts⟩).target? m.heap c = some (.native n)) : n.spares = true := by
    obtain ⟨n₀, hn₀, rfl⟩ := World.native_of_muted hn
    rw [Native.mute_of_not_isYield (hquiet c n₀ hc hn₀)]
    exact hs.natives c n₀ hc hn₀ (hquiet c n₀ hc hn₀)
  have hfresh {m : Machine} (hbody : m.InBody (.started id body false) body) : m.engine.Fresh :=
    .inr ⟨_, hbody.alone.runs, hbody.alone.active, rfl, rfl⟩
  have hafter := hbody.step hspares hleaving
  have hmuted : Paired p t p' (World.muted ⟨p, hosts⟩).hosts hosts :=
    ⟨hpair.rewritten, World.hostsAlike_muted ⟨p, hosts⟩, hpair.supplies, hpair.fits⟩
  have hmark : m.LeavesUnmarked v := by
    intro id' call rest hp hmode
    obtain ⟨above, habove⟩ := hbody.under
    cases above with
    | nil => exact absurd ⟨habove, hmode⟩ hleaving
    | cons a as => exact absurd (hp.symm.trans habove) (by simp)
  exact ⟨hafter, h.step hmuted (World.findsSame_muted hquiet) hmark ⟨hfresh hbody,
    fun c n hc hn => Native.not_isStorage_of_spares (hspares c n hc hn),
    fun x rest owner os hx hp ho _ => hs.operands x rest owner os hx hp ho⟩ (hfresh hafter)⟩

end

/-! ## the whole run -/

namespace Machine

/-- the numbers of the sites of all calls under way, the outermost first, if a suspension is asked for after a number
of steps -/
def positionsAt (w : World) (t : RestoreTable) (m : Machine) (n : Nat) : List (List Int32) :=
  if (m.after w.muted n).asks w then
    [(siteNumbers w.program t (m.owners w.muted n) (m.after w.muted n).pending).reverse]
  else []

/-- these numbers for each suspension that is asked for within a number of steps -/
def positions (w : World) (t : RestoreTable) (m : Machine) (fuel : Nat) : List (List Int32) :=
  (List.range fuel).flatMap (m.positionsAt w t)

/-- nothing is asked for once a run has ended -/
theorem asks_of_result? {w : World} {m : Machine} (h : m.result?.isSome) : m.asks w = false := by
  unfold result? at h
  unfold asks
  split at h
  · rename_i hmode
    rw [hmode]
  · rename_i hmode
    rw [hmode]
  · exact absurd h (by simp)

/-- nothing is asked for once the body has ended -/
theorem asks_of_leaving {w : World} {m : Machine} {id : Nat} {body : Call} (h : m.Leaving id body) :
    m.asks w = false := by
  unfold asks
  rcases h.2 with ⟨v, hmode⟩ | ⟨t, hmode⟩
  · rw [hmode]
  · rw [hmode]

theorem positionsAt_of_not_asks {w : World} {t : RestoreTable} {m : Machine} {n : Nat}
    (h : (m.after w.muted n).asks w = false) : m.positionsAt w t n = [] := by
  unfold positionsAt
  rw [h, if_neg (by simp)]

theorem positionsAt_of_result? {w : World} {t : RestoreTable} {m : Machine} {n : Nat}
    (h : (m.after w.muted n).result?.isSome) (k : Nat) :
    (List.range' n k).flatMap (m.positionsAt w t) = [] := by
  rw [List.flatMap_eq_nil_iff]
  intro j hj
  obtain ⟨i, -, rfl⟩ := List.mem_range'.1 hj
  refine positionsAt_of_not_asks (asks_of_result? ?_)
  rw [after_add, after_of_result? h]
  exact h

end Machine

section
variable {p p' : Program} {t : RestoreTable} {hosts : List HostMethod} {start m₁ : Machine} {id : Nat} {body : Call}
  {r : Except Throw (Option Value)}

/-- **From some step on** the rewritten program does what the program does -/
theorem Sim.finishes (hpair : Paired p t p' hosts hosts) (hcount : p.Countable t) {N : Nat}
    (hs : ∀ n, Suspendable p t p' hosts id body (start.after (World.muted ⟨p, hosts⟩) n)
      (start.owners (World.muted ⟨p, hosts⟩) n))
    (hN : start.after (World.muted ⟨p, hosts⟩) N = m₁) (hr : m₁.result? = some r) (k : Nat) :
    ∀ {n : Nat} {v : Veil} {m' : Machine}, n + k = N →
      (start.after (World.muted ⟨p, hosts⟩) n).InBody (.started id body false) body →
      Sim p t p' v (start.after (World.muted ⟨p, hosts⟩) n) (start.owners (World.muted ⟨p, hosts⟩) n) m' →
      ∃ m₂, Finishes ⟨p', hosts⟩ id m' ((List.range' n k).flatMap (start.positionsAt ⟨p, hosts⟩ t)) r m₂ ∧
        SameEnding id r m₁ m₂ := by
  induction k with
  | zero =>
    intro n v m' hn hbody
    -- the body is still under way, but the run has ended
    obtain rfl : n = N := hn
    obtain ⟨above, hp⟩ := hbody.under
    rw [hN] at hp
    unfold Machine.result? at hr
    rw [hp] at hr
    exact absurd hr (by cases above <;> simp)
  | succ k ih =>
    intro n v m' hn hbody hsim
    have hafter := Machine.after_succ' (w := World.muted ⟨p, hosts⟩) n start
    have hnext : n + 1 + k = N := by omega
    rw [List.range'_succ, List.flatMap_cons]
    by_cases hleaving : (start.after (World.muted ⟨p, hosts⟩) n).Leaving id body
    · obtain ⟨r', m₂, hr', hreach, hr₂, hdrives, hsame⟩ :=
        hsim.leaving (World.muted ⟨p, hosts⟩) ⟨p', hosts⟩ hbody hleaving
      rw [← hafter] at hr' hsame
      have hdone : (start.after (World.muted ⟨p, hosts⟩) (n + 1)).result?.isSome := by
        rw [hr']
        rfl
      have hend : start.after (World.muted ⟨p, hosts⟩) (n + 1) = m₁ := by
        rw [← hN, ← hnext, Machine.after_add _ (n + 1), Machine.after_of_result? hdone]
      rw [hend] at hr' hsame
      obtain rfl : r' = r := Option.some.inj (hr'.symm.trans hr)
      refine ⟨m₂, ?_, hsame⟩
      rw [Machine.positionsAt_of_result? hdone, Machine.positionsAt_of_not_asks]
      · exact .of_reaches hreach (.of_result? hr₂ hdrives)
      · exact Machine.asks_of_leaving hleaving
    · cases hasks : (start.after (World.muted ⟨p, hosts⟩) n).asks ⟨p, hosts⟩ with
      | false =>
        obtain ⟨hbody', m'', hreach, hsim'⟩ := hsim.step_spared hpair hbody (hs n) hasks hleaving
        rw [← hafter] at hbody' hsim'
        obtain ⟨m₂, hfinishes, hsame⟩ := ih hnext hbody' hsim'
        rw [Machine.positionsAt_of_not_asks hasks]
        exact ⟨m₂, hfinishes.of_reaches hreach, hsame⟩
      | true =>
        obtain ⟨c, i, hmode, ht, hi⟩ := Machine.exists_of_asks hasks
        obtain ⟨hkind, hargs, chain⟩ := (hs n).yields c i hmode ht hi
        obtain ⟨s, d, s₁, mark, m'', hreach, hres, hfound, hstatus, hstates, hresume, hagain, hsim'⟩ :=
          hsim.suspended hpair hcount hbody hmode ht hi hkind hargs chain
        have hstep := Machine.step_muted hmode ht hi
        have howners : start.owners (World.muted ⟨p, hosts⟩) (n + 1) = start.owners (World.muted ⟨p, hosts⟩) n :=
          Machine.ownersAfter_same (by rw [hstep])
        rw [← hstep, ← hafter, ← howners] at hsim'
        obtain ⟨m₂, hfinishes, hsame⟩ := ih hnext (by
          rw [hafter, hstep]
          exact ⟨hbody.alone, hbody.under⟩) hsim'
        refine ⟨m₂, ?_, hsame⟩
        have hpositions : start.positionsAt ⟨p, hosts⟩ t n = [d.states] := by
          unfold Machine.positionsAt
          rw [if_pos hasks, hstates]
        rw [hpositions]
        exact .of_reaches hreach (.of_suspended hres hfound hstatus hresume (hfinishes.of_reaches hagain))

end

/-! ## the first run -/

/-- the first run of a coroutine begins -/
def Machine.starting (m : Machine) (id : Nat) (body : Call) : Machine :=
  { m with
    engine := { m.engine.put (.started id body false) with active := [id] }
    pending := [.body id body], mode := .calling body }

section
variable {m : Machine} {id : Nat} {body : Call}

/-- a coroutine that never ran is resumed -/
theorem Machine.resume?_created (hidle : m.engine.active = []) (hcreated : m.engine.get? id = some (.create id body))
    (w : World) (fuel : Nat) : m.resume? w fuel id = (m.starting id body).run? w fuel := by
  have hbegin : (Coroutine.create id body : Coroutine Call Call).beginRun = (.ok body, .started id body false) := rfl
  have henter : m.engine.enter id =
      (.ok body, { m.engine.put (.started id body false) with active := [id] }) := by
    unfold Engine.enter Engine.on
    rw [hcreated]
    dsimp only
    rw [hbegin]
    dsimp only
    rw [Engine.active_put, hidle]
  unfold resume?
  rw [henter]
  rfl

theorem Machine.inBody_starting (hnumbered : m.engine.Numbered)
    (hcreated : m.engine.get? id = some (.create id body)) :
    (m.starting id body).InBody (.started id body false) body where
  alone := {
    runs := ⟨rfl, Engine.get?_put_self (c := .started id body false) hcreated⟩
    active := rfl
    numbered := hnumbered.put (.started id body false) (Engine.pos_of_get? hcreated) }
  under := ⟨[], rfl⟩

/-- both sides begin with the same machine -/
theorem Sim.starting {p p' : Program} {t : RestoreTable}
    (hbody : (m.starting id body).InBody (.started id body false) body) :
    Sim p t p' ⟨none, none⟩ (m.starting id body) [] (m.starting id body) := by
  have hhides : Hides ⟨none, none⟩ [] (m.starting id body).engine (m.starting id body).engine :=
    .running hbody.alone.runs rfl (fun s hs => absurd hs (by simp)) hbody.alone.numbered hbody.alone.runs.put_eq.symm
  refine .waiting ⟨rfl, rfl, rfl, hhides⟩ ?_ rfl (by simp [Machine.starting]) (by simp [Machine.starting])
  exact .body .nil

end

/-- **Suspensions make no difference**: a coroutine of the rewritten program, resumed until it has ended, ends as the
program ends in one run where yields do nothing.  Each time it is suspended, it has saved the numbers of the sites of
all calls under way, the outermost first. -/
theorem transparency {p p' : Program} {t : RestoreTable} {failFast : Bool} {reports : List ClassReport}
    {hosts : List HostMethod} {m m₁ : Machine} {id fuel : Nat} {body : Call} {r : Except Throw (Option Value)}
    (ordered : p.Ordered) (instrumented : instrument p t failFast = .ok (p', reports))
    (supplies : (⟨p, hosts⟩ : World).Supplies) (fits : p.LabelsFit t) (countable : p.Countable t)
    (numbered : m.engine.Numbered) (idle : m.engine.active = [])
    (created : m.engine.get? id = some (.create id body))
    (run : m.resume? (World.muted ⟨p, hosts⟩) fuel id = some (r, m₁))
    (suspendable : ∀ n, Suspendable p t p' hosts id body
      ((m.starting id body).after (World.muted ⟨p, hosts⟩) n)
      ((m.starting id body).owners (World.muted ⟨p, hosts⟩) n)) :
    ∃ fuel' m₂, Drives ⟨p', hosts⟩ id (m.resume? ⟨p', hosts⟩ fuel' id)
      ((m.starting id body).positions ⟨p, hosts⟩ t fuel) r m₂ ∧ SameEnding id r m₁ m₂ := by
  have hrewritten := instrument_ok ordered instrumented
  have hpair : Paired p t p' hosts hosts := ⟨hrewritten, fun _ => rfl, hrewritten.supplies supplies, fits⟩
  have hbody := Machine.inBody_starting numbered created
  rw [Machine.resume?_created idle created] at run
  obtain ⟨m₂, ⟨fuel', hdrives⟩, hsame⟩ := Sim.finishes hpair countable suspendable (Machine.after_of_run? run)
    (Machine.run?_eq_some run).2 fuel (Nat.zero_add fuel) hbody (.starting hbody)
  refine ⟨fuel', m₂, ?_, hsame⟩
  rw [Machine.resume?_created idle created]
  unfold Machine.positions
  rw [List.range_eq_range']
  exact hdrives

/-! ## steps that ask for little -/

namespace Suspendable

variable {p p' : Program} {t : RestoreTable} {hosts : List HostMethod} {m : Machine} {owners : List String} {id : Nat}
  {body : Call}

/-- a method of the program is called, or a built-in one that leaves coroutines alone -/
theorem calling {c : Call} (target : Target) (hm : m.mode = .calling c)
    (hc : (⟨p, hosts⟩ : World).target? m.heap c = some target)
    (hspares : ∀ n, target = .native n → n.spares = true) : Suspendable p t p' hosts id body m owners where
  natives c' n hc' hn _ := by
    obtain rfl : c = c' := by simpa using hm.symm.trans hc'
    exact hspares n (Option.some.inj (hc.symm.trans hn))
  yields c' i hc' hn hi := by
    obtain rfl : c = c' := by simpa using hm.symm.trans hc'
    have hquiet := Native.not_isYield_of_spares (hspares _ (Option.some.inj (hc.symm.trans hn)))
    exact absurd (hi.symm.trans hquiet) (by simp)
  operands x rest owner os hx := absurd (hm.symm.trans hx) (by simp)

/-- a yield is called -/
theorem yielding {c : Call} {i : Intrinsic} (hm : m.mode = .calling c)
    (hc : (⟨p, hosts⟩ : World).target? m.heap c = some (.native (.intrinsic i))) (hi : i.isYield = true)
    (hkind : c.kind.hasReceiver = true) (hargs : c.args = i.suspendArgs id)
    (chain : Chain ⟨p, hosts⟩ t p' m.heap id body c owners m.pending) :
    Suspendable p t p' hosts id body m owners where
  natives c' n hc' hn hn' := by
    obtain rfl : c = c' := by simpa using hm.symm.trans hc'
    obtain rfl : .intrinsic i = n := by simpa using hc.symm.trans hn
    exact absurd (hi.symm.trans hn') (by simp)
  yields c' j hc' hn _ := by
    obtain rfl : c = c' := by simpa using hm.symm.trans hc'
    obtain rfl : i = j := by simpa using hc.symm.trans hn
    exact ⟨hkind, hargs, chain⟩
  operands x rest owner os hx := absurd (hm.symm.trans hx) (by simp)

/-- an activation goes on in whose method no operands are staged -/
theorem executing {x : Activation} {rest : List Pending} {owner : String} {os : List String} {a : Analysis}
    (hm : m.mode = .executing) (hx : m.pending = .activation x :: rest) (hos : owners = owner :: os)
    (ha : Analysis.ofTable? p t owner x.method = .ok (some a))
    (hpatchable : ∀ s ∈ sitesOf a x.method.nextLabel, s.unpatchable = false) :
    Suspendable p t p' hosts id body m owners where
  natives c n hc := absurd (hm.symm.trans hc) (by simp)
  yields c i hc := absurd (hm.symm.trans hc) (by simp)
  operands x' rest' owner' os' _ hx' hos' := by
    obtain ⟨rfl, -⟩ : x = x' ∧ rest = rest' := by simpa using hx.symm.trans hx'
    obtain ⟨rfl, -⟩ : owner = owner' ∧ os = os' := by simpa using hos.symm.trans hos'
    intro b m' s f d shape hb _ _ hs _ hu
    obtain rfl : a = b := by simpa using ha.symm.trans hb
    exact absurd (hu.symm.trans (hpatchable s hs)) (by simp)

/-- a call has ended -/
theorem returning {r : Option Value} (hm : m.mode = .returning r) : Suspendable p t p' hosts id body m owners where
  natives c n hc := absurd (hm.symm.trans hc) (by simp)
  yields c i hc := absurd (hm.symm.trans hc) (by simp)
  operands x rest owner os hx := absurd (hm.symm.trans hx) (by simp)

end Suspendable

/-! ## a coroutine that is suspended two calls deep -/

namespace Pause

def owner : String := "demo/R"

/-- a method that asks for a suspension -/
def pausing : Method :=
  ⟨"pause", "()V", true, 0, [.invoke .static Intrinsic.get.id, .invoke .virtual Intrinsic.yield.id, .ret none], [], []⟩

/-- the entry calls it, with a number in a local that it prints afterwards -/
def running : Method :=
  ⟨"run", "()V", true, 1, [.intConst 7, .store .int 0, .invoke .static (pausing.id owner), .load .int 0,
    .invoke .static (LibraryMethod.println .int).id, .ret none], [], []⟩

def classOf (methods : List Method) : Program := ⟨[(owner, ⟨owner, some objectType, [], [], methods⟩)]⟩

def program : Program := classOf [pausing, running]

/-- both calls may suspend -/
def table : RestoreTable :=
  ⟨none, [⟨owner, "pause", "", none, [RestorePoint.ofName "yield"]⟩,
    ⟨owner, "run", "", none, [RestorePoint.ofName "pause", RestorePoint.ofName "yield"]⟩]⟩

/-- a program with these calls woven -/
def rewritten (p : Program) : Program :=
  match instrument p table true with
  | .ok r => r.1
  | .error _ => .empty

def body : Call := ⟨.static, running.id owner, []⟩

/-- nothing runs yet -/
def machine : Machine := { Machine.empty with engine := ⟨#[Coroutine.create 1 body], []⟩ }

def pauseSite : Site :=
  ⟨0, 1, .virtual, Intrinsic.yield.id, false, some ⟨[], [.ref coroutineType]⟩, ⟨0⟩⟩

def runSite : Site := ⟨0, 2, .static, pausing.id owner, false, some ⟨[.int], []⟩, ⟨0⟩⟩

def pauseAnalysis : Analysis where
  method := pausing.id owner
  isStatic := true
  rootEntry := false
  calls := 1
  restorePoints := [Intrinsic.yield.id]
  unpatchable := []
  frames := [some ⟨[], []⟩, some ⟨[], [.ref coroutineType]⟩, some ⟨[], []⟩]
  insns := pausing.code

def runAnalysis : Analysis where
  method := running.id owner
  isStatic := true
  rootEntry := true
  calls := 1
  restorePoints := [pausing.id owner]
  unpatchable := []
  frames := [some ⟨[.empty], []⟩, some ⟨[.empty], [.int]⟩, some ⟨[.int], []⟩, some ⟨[.int], []⟩,
    some ⟨[.int], [.int]⟩, some ⟨[.int], []⟩]
  insns := running.code

theorem analysis_pausing : Analysis.ofTable? program table owner pausing = .ok (some pauseAnalysis) := rfl

theorem analysis_running : Analysis.ofTable? program table owner running = .ok (some runAnalysis) := rfl

theorem sites_pausing : sitesOf pauseAnalysis pausing.nextLabel = [pauseSite] := rfl

theorem sites_running : sitesOf runAnalysis running.nextLabel = [runSite] := rfl

theorem ordered_program : program.Ordered := ⟨by decide, by decide⟩

theorem supplies_program : (⟨program, []⟩ : World).Supplies :=
  World.supplies_of (fun _ _ => rfl) fun _ _ _ hmem => absurd hmem (by simp)

theorem eq_of_analyzed {o : String} {m : Method} {a : Analysis} (hm : program.method? (m.id o) = some m)
    (ha : Analysis.ofTable? program table o m = .ok (some a)) :
    m = pausing ∧ a = pauseAnalysis ∨ m = running ∧ a = runAnalysis := by
  obtain ⟨c, hc, hm⟩ := Option.bind_eq_some_iff.1 hm
  obtain ⟨e, he, rfl⟩ := Option.map_eq_some_iff.1 hc
  have ho : e.1 = (m.id o).owner := by simpa using List.find?_some he
  obtain rfl := List.mem_singleton.1 (List.mem_of_find?_eq_some he)
  obtain rfl : owner = o := ho
  have hmethod : m = pausing ∨ m = running := by simpa using List.mem_of_find?_eq_some hm
  rcases hmethod with rfl | rfl
  · exact .inl ⟨rfl, by simpa using ha.symm.trans analysis_pausing⟩
  · exact .inr ⟨rfl, by simpa using ha.symm.trans analysis_running⟩

theorem labelsFit_program : program.LabelsFit table := by
  intro o m a hm ha
  rcases eq_of_analyzed hm ha with ⟨rfl, rfl⟩ | ⟨rfl, rfl⟩
  · have hnone : pausing.labels = [] := rfl
    exact ⟨fun l hl => absurd hl (by rw [hnone]; simp), by decide⟩
  · have hnone : running.labels = [] := rfl
    exact ⟨fun l hl => absurd hl (by rw [hnone]; simp), by decide⟩

theorem countable_program : program.Countable table := by
  intro o m a hm ha
  rcases eq_of_analyzed hm ha with ⟨rfl, rfl⟩ | ⟨rfl, rfl⟩
  · refine ⟨fun n f hf => ?_, by decide⟩
    match n with
    | 0 | 1 | 2 =>
      obtain rfl := Option.some.inj (Option.some.inj hf)
      exact ⟨by decide, by decide⟩
    | n + 3 => exact absurd hf (by simp [pauseAnalysis])
  · refine ⟨fun n f hf => ?_, by decide⟩
    match n with
    | 0 | 1 | 2 | 3 | 4 | 5 =>
      obtain rfl := Option.some.inj (Option.some.inj hf)
      exact ⟨by decide, by decide⟩
    | n + 6 => exact absurd hf (by simp [runAnalysis])

theorem numbered_machine : machine.engine.Numbered := by
  intro n c hc
  match n with
  | 1 =>
    obtain rfl : Coroutine.create 1 body = c := Option.some.inj hc
    rfl
  | 0 | n + 2 => exact absurd hc (by simp [machine, Engine.get?])

/-- the activation that asks for the suspension -/
def yielding : Activation := ⟨pausing, 1, [], []⟩

/-- the one below it -/
def waiting : Activation := ⟨running, 2, [.int 7], []⟩

theorem savable_yielding (h : Heap) :
    Savable program table (rewritten program) h owner yielding pauseAnalysis pauseSite
      ⟨[], [.ref coroutineType]⟩ ⟨[], [.ref coroutineType], true, none⟩ (.coroutine 1) where
  analyzed := analysis_pausing
  woven := ⟨_, rfl, rfl⟩
  listed := List.mem_singleton_self _
  position := rfl
  reachable := rfl
  patchable := rfl
  shaped := ⟨_, rfl, rfl⟩
  locals i c hc := absurd hc (by simp)
  below := .nil
  receiver c hc := by
    obtain rfl : Category.ref coroutineType = c := Option.some.inj hc
    refine ⟨some (.coroutine 1), rfl, fun x hx => ?_⟩
    obtain rfl : Ref.coroutine 1 = x := Option.some.inj hx
    exact program.isAssignable_self _

theorem savable_waiting (h : Heap) (r : Ref) :
    Savable program table (rewritten program) h owner waiting runAnalysis runSite
      ⟨[.int], []⟩ ⟨[], [], false, none⟩ r where
  analyzed := analysis_running
  woven := ⟨_, rfl, rfl⟩
  listed := List.mem_singleton_self _
  position := rfl
  reachable := rfl
  patchable := rfl
  shaped := ⟨_, rfl, rfl⟩
  locals i c hc := by
    match i with
    | 0 =>
      obtain rfl : Category.int = c := Option.some.inj hc
      exact ⟨_, rfl, fun k hk => hk⟩
    | i + 1 => exact absurd hc (by simp)
  below := .nil
  receiver c hc := absurd hc (by simp [CallShape.receiver])

/-- both calls can be suspended -/
theorem chain_yielding (h : Heap) : Chain ⟨program, []⟩ table (rewritten program) h 1 body
    (pauseSite.callAgain ⟨[], [.ref coroutineType], true, none⟩ (.coroutine 1)) [owner, owner]
    [.activation yielding, .activation waiting, .body 1 body] := by
  have hbody : Chain ⟨program, []⟩ table (rewritten program) h 1 body body [] [.body 1 body] := by
    refine .body fun m hm => ?_
    obtain rfl : running = m := by simpa using Option.some.inj hm
    intro d hd
    obtain rfl : ⟨[], none⟩ = d := Option.some.inj hd
    rfl
  have hwaiting : Chain ⟨program, []⟩ table (rewritten program) h 1 body
      (runSite.callAgain ⟨[], [], false, none⟩ (.coroutine 1)) [owner] [.activation waiting, .body 1 body] :=
    .level hbody rfl rfl (fun hstatic => absurd hstatic (by simp [waiting, running])) (fun _ => rfl)
      (savable_waiting h _)
  exact .level hwaiting rfl rfl (fun hstatic => absurd hstatic (by simp [yielding, pausing])) (fun _ => rfl)
    (savable_yielding h)

/-- the machine in the first run, where yields do nothing -/
def first (n : Nat) : Machine := (machine.starting 1 body).after (World.muted ⟨program, []⟩) n

theorem suspendable_running {n : Nat} {x : Activation} {rest : List Pending} {os : List String}
    (hm : (first n).mode = .executing) (hx : (first n).pending = .activation x :: rest)
    (hos : (machine.starting 1 body).owners (World.muted ⟨program, []⟩) n = owner :: os)
    (hmethod : x.method = pausing ∨ x.method = running) :
    Suspendable program table (rewritten program) [] 1 body (first n)
      ((machine.starting 1 body).owners (World.muted ⟨program, []⟩) n) := by
  rcases hmethod with h | h
  · refine .executing hm hx hos (by rw [h]; exact analysis_pausing) ?_
    rw [h, sites_pausing]
    simp [pauseSite]
  · refine .executing hm hx hos (by rw [h]; exact analysis_running) ?_
    rw [h, sites_running]
    simp [runSite]

theorem suspendable_first (n : Nat) : Suspendable program table (rewritten program) [] 1 body (first n)
    ((machine.starting 1 body).owners (World.muted ⟨program, []⟩) n) := by
  match n with
  | 0 | 4 => exact .calling (.code _) rfl rfl (by simp)
  | 1 | 2 | 3 | 13 | 14 | 17 => exact suspendable_running rfl rfl rfl (.inr rfl)
  | 5 | 8 | 11 => exact suspendable_running rfl rfl rfl (.inl rfl)
  | 6 => exact .calling (.native (.intrinsic .get)) rfl rfl (by rintro _ ⟨⟩; rfl)
  | 7 | 10 | 12 | 16 | 18 => exact .returning (r := _) rfl
  | 9 => exact .yielding rfl (i := .yield) rfl rfl rfl rfl (chain_yielding _)
  | 15 => exact .calling (.native (.library (.println .int))) rfl rfl (by rintro _ ⟨⟩; rfl)
  | n + 19 =>
    have hdone : (first 19).result?.isSome := rfl
    have hend : first (n + 19) = first 19 := by
      unfold first
      rw [Nat.add_comm, Machine.after_add]
      exact Machine.after_of_result? hdone n
    rw [hend]
    exact .returning (r := none) rfl

/-- The entry is suspended once, at its call of the other method, and at the yield in there.  Afterwards it prints the
number, as if it had never been. -/
theorem transparency_paused : ∃ fuel m, Drives ⟨rewritten program, []⟩ 1
    (machine.resume? ⟨rewritten program, []⟩ fuel 1) [[0, 0]] (.ok none) m ∧ m.console = ["7"] := by
  have hrun : machine.resume? (World.muted ⟨program, []⟩) 19 1 = some (.ok none, first 19) := rfl
  obtain ⟨reports, hinstrumented⟩ :
    ∃ reports, instrument program table true = .ok (rewritten program, reports) := ⟨_, rfl⟩
  obtain ⟨fuel, m, hdrives, hsame⟩ := transparency ordered_program hinstrumented supplies_program labelsFit_program
    countable_program numbered_machine rfl rfl hrun suspendable_first
  have hpositions : (machine.starting 1 body).positions ⟨program, []⟩ table 19 = [[0, 0]] := by decide +kernel
  rw [hpositions] at hdrives
  exact ⟨fuel, m, hdrives, hsame.console⟩

/-! ### a long that is said to be a number -/

/-- the entry yields with a long below that is read from a static said to hold a number -/
def spoiling : Method :=
  ⟨"run", "()V", true, 0, [.longConst 1, .putStatic ⟨owner, "x", "J"⟩, .getStatic ⟨owner, "x", "I"⟩,
    .invoke .static Intrinsic.get.id, .invoke .virtual Intrinsic.yield.id, .pop, .ret none], [], []⟩

def spoiled : Program := classOf [spoiling]

/-- the first run of the rewritten program -/
def stopped : Machine := (machine.starting 1 body).after ⟨rewritten spoiled, []⟩ 45

/-- Where a number is said to lie that is none, the rewritten program faults once it is resumed.  Every condition on
calls is met: the entry is the only method under way, and stands at a reachable call of a woven yield, with no
reference to save. -/
theorem no_transparency_spoiled :
    spoiled.Ordered ∧ (∃ reports, instrument spoiled table true = .ok (rewritten spoiled, reports)) ∧
    (∃ a s, Analysis.ofTable? spoiled table owner spoiling = .ok (some a) ∧ a.rootEntry = true ∧
      s ∈ sitesOf a spoiling.nextLabel ∧ s.position = 4 ∧ s.unpatchable = false ∧
      s.frame = some ⟨[], [.ref coroutineType, .int]⟩) ∧
    (∀ n, ((machine.starting 1 body).after (World.muted ⟨spoiled, []⟩) n).asks ⟨spoiled, []⟩ = true → n = 8) ∧
    ((machine.starting 1 body).after (World.muted ⟨spoiled, []⟩) 8).pending =
      [.activation ⟨spoiling, 4, [], [.long 1]⟩, .body 1 body] ∧
    (∃ m, machine.resume? (World.muted ⟨spoiled, []⟩) 13 1 = some (.ok none, m)) ∧
    ¬ ∃ fuel positions m, Drives ⟨rewritten spoiled, []⟩ 1 (machine.resume? ⟨rewritten spoiled, []⟩ fuel 1) positions
      (.ok none) m := by
  refine ⟨⟨by decide, by decide⟩, ⟨_, rfl⟩, ⟨_, _, rfl, rfl, List.mem_singleton_self _, rfl, rfl, rfl⟩,
    fun n hn => ?_, rfl, ⟨_, rfl⟩, ?_⟩
  · match n with
    | 8 => rfl
    | 0 | 1 | 2 | 3 | 4 | 5 | 6 | 7 | 9 | 10 | 11 | 12 => exact absurd (show false = true from hn) (by simp)
    | n + 13 =>
      have hdone : ((machine.starting 1 body).after (World.muted ⟨spoiled, []⟩) 13).result?.isSome := rfl
      rw [Nat.add_comm, Machine.after_add, Machine.after_of_result? hdone] at hn
      exact absurd (show false = true from hn) (by simp)
  · rintro ⟨fuel, positions, m, h⟩
    have hstopped : machine.resume? ⟨rewritten spoiled, []⟩ 45 1 = some (.ok none, stopped) := rfl
    obtain ⟨f, m', hfault⟩ : ∃ f m', stopped.resume? ⟨rewritten spoiled, []⟩ 100 1 = some (.error (.fault f), m') :=
      ⟨_, _, rfl⟩
    obtain ⟨c, hc, hsuspended⟩ : ∃ c, stopped.engine.get? 1 = some c ∧ c.status = .suspended := ⟨_, rfl, rfl⟩
    have hfaults : Drives ⟨rewritten spoiled, []⟩ 1 (machine.resume? ⟨rewritten spoiled, []⟩ 45 1) [c.states]
        (.error (.fault f)) m' := by
      have hrest : Drives ⟨rewritten spoiled, []⟩ 1 (stopped.resume? ⟨rewritten spoiled, []⟩ 100 1) []
          (.error (.fault f)) m' := by
        rw [hfault]
        exact .threw
      rw [hstopped]
      exact .again hc hsuspended hrest
    obtain ⟨q, hq⟩ := Option.ne_none_iff_exists'.1 h.ne_none
    rw [hq, Machine.resume?_unique hstopped hq, ← hstopped] at h
    exact absurd (hfaults.unique h).2.1 (by simp)

end Pause

end Resumable
