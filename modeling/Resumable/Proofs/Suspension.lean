import Resumable.Proofs.Unwinding

/-!
# One suspension

A program whose yields do nothing goes on after one.  The rewritten program, whose yields are real, unwinds the calls
above the body of the coroutine and ends the run; resumed, it calls the body again, restores every level, and
calls the yield once more, which then does nothing either.

* `Intrinsic.suspendArgs`, `Machine.runNative_yield` : yields of the running coroutine;
* `Suspends.stops`, `Suspends.goesOn` : the end of the run, and the next one;
* `Sim.suspended` : both programs, before and after.
-/

namespace Resumable

/-! ## yields -/

/-- the arguments of a yield that defers nothing -/
def Intrinsic.suspendArgs (i : Intrinsic) (id : Nat) : List Value :=
  match i with
  | .yieldWith => [.coroutine id, .null]
  | _ => [.coroutine id]

/-- a method without a result ends with none -/
theorem Intrinsic.endsWithZero {i : Intrinsic} (hi : i.isYield = true) {c : Call} (hdesc : c.method.desc = i.desc) :
    c.EndsWithZero none := by
  intro d hd
  rw [hdesc] at hd
  cases i with
  | yield =>
    obtain rfl : (⟨[], none⟩ : MethodDesc) = d := Option.some.inj hd
    rfl
  | yieldWith =>
    obtain rfl : (⟨[.ref runnableType], none⟩ : MethodDesc) = d := Option.some.inj hd
    rfl
  | _ => exact absurd hi (by simp [Intrinsic.isYield])

namespace Coroutine

/-- a coroutine in its first run, with nothing saved -/
def started (id : Nat) (body : Call) (mark : Bool) : Coroutine Call Call :=
  { create id body with body := none, status := .running, companionOnTop := mark }

/-- the coroutine once it is asked to suspend -/
def asked (id : Nat) (body : Call) : Coroutine Call Call :=
  { started id body true with yielding := true, storage := Storage.empty.pushRef (some (.coroutine id)) }

theorem yield_started (id : Nat) (body : Call) (mark : Bool) :
    (started id body mark : Coroutine Call Call).yield none = (.ok (), asked id body) := rfl

/-- the coroutine once the calls above its body are saved -/
def unwound (id : Nat) (body : Call) (states : List Int32) (storage : Storage) (mark : Bool) : Coroutine Call Call :=
  { asked id body with states, storage, companionOnTop := mark }

/-- a coroutine that has unwound to its body, between two runs -/
def suspended (c : Coroutine Call Call) (body : Call) : Coroutine Call Call :=
  { c with body := some body, status := .suspended, yielding := false, yieldPending := true, deferred := none }

/-- the coroutine when it is resumed, with the storage below the reference on top -/
def resumed (c : Coroutine Call Call) (storage : Storage) : Coroutine Call Call :=
  { c with body := none, status := .running, yielding := false, yieldPending := true, deferred := none, storage }

/-- the coroutine once the calls are restored -/
def rewound (id : Nat) (body : Call) (mark : Bool) : Coroutine Call Call :=
  { started id body mark with yieldPending := true }

/-- the yield that is made again does nothing -/
theorem yield_rewound (id : Nat) (body : Call) (mark : Bool) :
    (rewound id body mark : Coroutine Call Call).yield none = (.ok (), started id body mark) := rfl

end Coroutine

namespace Machine

open Effect Performing

variable {w : World} {s : Machine} {c d : Coroutine Call Call} {id : Nat}

/-- a yield works on the coroutine that it is called on -/
theorem runNative_yield {i : Intrinsic} (hi : i.isYield = true) (hc : s.engine.get? id = some c)
    (hy : c.yield none = (.ok (), d)) :
    s.runNative (.intrinsic i) (i.suspendArgs id) = { s.put d with mode := .returning none } := by
  have hon : (s.engine.on id fun c => c.yield none) = (.ok (), s.engine.put d) := by
    unfold Engine.on
    rw [hc]
    dsimp only
    rw [hy]
  have harg (args : List Value) : (coroutineArg (.coroutine id :: args) 0).run s = (.ok id, s) := rfl
  have hrun : (i.perform (i.suspendArgs id)).run s = (.ok (.result none), s.put d) := by
    cases i with
    | yield =>
      show (Intrinsic.yield.perform [.coroutine id]).run s = _
      unfold Intrinsic.perform
      rw [run_bind_ok (harg []), run_bind_ok (run_engine_ok hon)]
      rfl
    | yieldWith =>
      have hperform : (performYieldWith [.coroutine id, .null]).run s = (.ok (), s.put d) := by
        unfold performYieldWith
        rw [run_bind_ok (harg [.null]),
          run_bind_ok (show (refArg [.coroutine id, .null] 1).run s = (.ok none, s) from rfl)]
        exact run_engine_ok hon
      show (Intrinsic.yieldWith.perform [.coroutine id, .null]).run s = _
      unfold Intrinsic.perform
      rw [run_bind_ok hperform]
      rfl
    | _ => exact absurd hi (by simp [Intrinsic.isYield])
  unfold runNative
  rw [show ((Native.intrinsic i).perform (i.suspendArgs id)).run s = _ from hrun]
  rfl

/-! ## between two runs -/

/-- **A run ends** where its coroutine has unwound to the body, and the coroutine is suspended -/
theorem step_suspended {v : Option Value} (body : Call) (hc : s.engine.Runs c) (hactive : s.engine.active = [c.id])
    (hyield : c.yielding = true) (hnone : c.deferred = none) (hmode : s.mode = .returning v)
    (hp : s.pending = [.body c.id body]) :
    s.step w = { s with
      engine := ({ s.engine with active := [] } : Engine Call Call).put (c.suspended body)
      pending := [], mode := .returning none } := by
  have hstep : s.step w = s.leaveBody c.id body [] := by
    unfold step
    rw [hmode, hp]
    rfl
  have hend : c.endRun body true = (none, c.suspended body) := by
    unfold Coroutine.endRun Coroutine.suspended
    rw [hyield, hnone]
    rfl
  have hleave : s.engine.leave c.id body true =
      (none, ({ s.engine with active := [] } : Engine Call Call).put (c.suspended body)) := by
    unfold Engine.leave
    dsimp only
    rw [show Engine.get? ⟨s.engine.coroutines, s.engine.active.tail⟩ c.id = some c from hc.found, hactive]
    dsimp only
    rw [hend]
    rfl
  rw [hstep, leaveBody_none [] hleave]

/-- **The next run** starts with the body again -/
theorem resume?_suspended (body : Call) {r : Option Ref} {N : Storage} (hc : s.engine.Runs c)
    (hactive : s.engine.active = [c.id]) (hstorage : c.storage = N.pushRef r) (fuel : Nat) :
    Machine.resume? w fuel { s with
        engine := ({ s.engine with active := [] } : Engine Call Call).put (c.suspended body)
        pending := [], mode := .returning none } c.id =
      run? w fuel { s.put (c.resumed N) with pending := [.body c.id body], mode := .calling body } := by
  have hget : (({ s.engine with active := [] } : Engine Call Call).put (c.suspended body)).get? c.id =
      some (c.suspended body) :=
    Engine.get?_put_self (c := c.suspended body) (d := c) hc.found
  have hbegin : (c.suspended body).beginRun = (.ok body, c.resumed N) := by
    unfold Coroutine.beginRun Coroutine.suspended
    dsimp only
    rw [hstorage]
    rfl
  have henter : (({ s.engine with active := [] } : Engine Call Call).put (c.suspended body)).enter c.id =
      (.ok body, s.engine.put (c.resumed N)) := by
    unfold Engine.enter Engine.on
    rw [hget]
    dsimp only
    rw [hbegin]
    dsimp only
    have hput : (({ s.engine with active := [] } : Engine Call Call).put (c.suspended body)).put (c.resumed N) =
        { s.engine.put (c.resumed N) with active := [] } := Engine.put_put _ rfl
    rw [hput]
    show _ = (Except.ok body, { s.engine.put (c.resumed N) with active := s.engine.active })
    rw [hactive]
  unfold resume?
  dsimp only
  rw [henter]
  rfl

end Machine

namespace Suspends

variable {w : World} {s : Machine} {id : Nat} {body call : Call} {outermost : Bool} {numbers : List Int32}
  {ps : List Pending} {Restored : List Pending → Prop} {N : Storage}

/-- **A run ends** once its coroutine is asked to suspend, and the next one begins with the body -/
theorem stops (hN : Suspends w s id body call outermost numbers ps Restored .empty N)
    (hbody : s.InBody (.started id body false) body) (hleft : call.left outermost = [.coroutine id])
    (hzero : call.EndsWithZero none) :
    ∃ stopped T mark, Machine.Reaches w (s.holding (.asked id body) ps (.returning none)) stopped ∧
      stopped.result? = some (.ok none) ∧
      stopped.engine.get? id = some ((Coroutine.unwound id body numbers.reverse T mark).suspended body) ∧
      ∀ fuel, stopped.resume? w fuel id =
        (s.holding ((Coroutine.unwound id body numbers.reverse T mark).resumed N) [.body id body]
          (.calling body)).run? w fuel := by
  obtain ⟨mark, v, hunwound⟩ := hN.saves (c := .asked id body) rfl rfl (by rw [hleft]; rfl) hzero
  rw [show (Coroutine.asked id body).states = [] from rfl, List.append_nil] at hunwound
  obtain ⟨r, hr⟩ := body.exists_left
  rw [hr] at hunwound
  generalize hc : Coroutine.unwound id body numbers.reverse (N.putAll [.ref r]) mark = c
  replace hunwound : Machine.Reaches w (s.holding (.asked id body) ps (.returning none))
    (s.holding c [.body id body] (.returning v)) := hc ▸ hunwound
  have hid : c.id = id := by rw [← hc]; rfl
  have hruns : (s.holding c [.body id body] (.returning v)).engine.Runs c := hbody.alone.runs.put hid
  have hactive : (s.holding c [.body id body] (.returning v)).engine.active = [c.id] := hid ▸ hbody.alone.active
  have hend := Machine.step_suspended (w := w) body hruns hactive (by rw [← hc]; rfl) (by rw [← hc]; rfl) rfl
    (by rw [hid]; rfl)
  have hagain := Machine.resume?_suspended (w := w) body hruns hactive
    (show c.storage = N.pushRef r by rw [← hc]; rfl)
  have hfound : (({ s.engine.put c with active := [] } : Engine Call Call).put (c.suspended body)).get? c.id =
      some (c.suspended body) := Engine.get?_put_self (c := c.suspended body) (d := c) hruns.found
  have hput : { (s.holding c [.body id body] (.returning v)).put (c.resumed N) with
      pending := [.body id body], mode := .calling body } =
      s.holding (c.resumed N) [.body id body] (.calling body) := Machine.put_holding rfl
  rw [hid] at hagain hfound
  rw [hput] at hagain
  subst hc
  exact ⟨_, _, mark, hunwound.trans (.of_step hend), rfl, hfound, hagain⟩

/-- **The next run** makes the call again -/
theorem goesOn (hN : Suspends w s id body call outermost numbers ps Restored .empty N) (T : Storage) (mark : Bool) :
    ∃ mark' ps', Machine.Reaches w
      (s.holding ((Coroutine.unwound id body numbers.reverse T mark).resumed N) [.body id body] (.calling body))
      (s.holding (.rewound id body mark') ps' (.calling call)) ∧ Restored ps' :=
  hN.restores (c := (Coroutine.unwound id body numbers.reverse T mark).resumed N) rfl rfl (List.append_nil _).symm

end Suspends

/-! ## both programs -/

section
variable {p p' : Program} {t : RestoreTable} {hosts : List HostMethod} {v : Veil} {m m' : Machine}
  {owners : List String} {id : Nat} {body call : Call} {i : Intrinsic}

/-- a yield does nothing in the first program -/
theorem Machine.step_muted {w : World} (hmode : m.mode = .calling call)
    (ht : w.target? m.heap call = some (.native (.intrinsic i))) (hi : i.isYield = true) :
    m.step w.muted = { m with mode := .returning none } := by
  have hcall : m.call w.muted call = m.enter call.args (.native (.host i.mute)) :=
    Machine.call_of_target? (by rw [World.target?_muted, ht, ← Native.mute_yield hi]; rfl)
  have hstep : m.step w.muted = m.call w.muted call := by
    unfold Machine.step
    rw [hmode]
  rw [hstep, hcall]
  rfl

/-- both programs are about to make a call -/
theorem Sim.calling (h : Sim p t p' v m owners m') (hmode : m.mode = .calling call) :
    ∃ frames, m.Like v frames m' ∧
      Stacked p t p' v m.engine.exists frames owners m.pending m'.pending ∧ m'.mode = .calling call := by
  cases h with
  | executing => exact absurd hmode (by simp [Machine.goOn])
  | waiting like stacked mode => exact ⟨_, like, stacked, mode.trans hmode⟩
  | thrown => exact absurd hmode (by simp [Machine.throwTo])
  | faulted mode => exact absurd (mode.symm.trans hmode) (by simp)

/-- only the mark of the coroutine is different where nothing is staged -/
theorem Hides.marked {e e' : Engine Call Call} {c : Coroutine Call Call} (h : Hides v [] e e') (hc : e.Runs c) :
    ∃ mark, e' = e.put { c with companionOnTop := mark } := by
  cases h with
  | idle active => exact absurd active hc.active_ne
  | @running d runs active kept numbered put =>
    obtain rfl := runs.unique hc
    exact ⟨_, put⟩

/-- **A yield** ends the run of the rewritten program, with the numbers of the sites of its calls saved.  Once the
coroutine is resumed, the rewritten program gets to where the first one gets. -/
theorem Sim.suspended (hpair : Paired p t p' hosts hosts) (hcount : p.Countable t) (h : Sim p t p' v m owners m')
    (hbody : m.InBody (.started id body false) body) (hmode : m.mode = .calling call)
    (ht : (⟨p, hosts⟩ : World).target? m.heap call = some (.native (.intrinsic i))) (hi : i.isYield = true)
    (hkind : call.kind.hasReceiver = true) (hargs : call.args = i.suspendArgs id)
    (chain : Chain ⟨p, hosts⟩ t p' m.heap id body call owners m.pending) :
    ∃ s d s₁ mark m'', Machine.Reaches ⟨p', hosts⟩ m' s ∧ s.result? = some (.ok none) ∧
      s.engine.get? id = some d ∧ d.status = .suspended ∧ d.states = (siteNumbers p t owners m.pending).reverse ∧
      (∀ fuel, s.resume? ⟨p', hosts⟩ fuel id = s₁.run? ⟨p', hosts⟩ fuel) ∧
      Machine.Reaches ⟨p', hosts⟩ s₁ m'' ∧
      Sim p t p' ⟨some mark, none⟩ { m with mode := .returning none } owners m'' := by
  obtain ⟨frames, hlike, hstacked, hmode'⟩ := h.calling hmode
  rw [hbody.alone.runs.exists_eq] at hstacked
  obtain ⟨rfl, hsuspends⟩ := chain.suspends hpair hcount hbody.alone.runs rfl hstacked
  obtain ⟨N, hN⟩ := hsuspends Storage.empty
  obtain ⟨mark, hengine⟩ := hlike.engine.marked hbody.alone.runs
  have hm' : m' = m.holding (.started id body mark) m'.pending (.calling call) := by
    obtain ⟨heap, statics, console, engine, pending, mode⟩ := m'
    obtain rfl : mode = _ := hmode'
    obtain rfl : heap = _ := hlike.heap
    obtain rfl : statics = _ := hlike.statics
    obtain rfl : console = _ := hlike.console
    obtain rfl : engine = _ := hengine
    rfl
  have hleft : call.left owners.isEmpty = [.coroutine id] := by
    unfold Call.left Call.self?
    rw [if_pos hkind, hargs]
    cases i <;> rfl
  have hdesc : call.method.desc = i.desc := by
    obtain ⟨id', hfound, -, hdesc⟩ := World.find?_of_target? ht
    rw [← hdesc, ← Native.id_of_find? hfound]
    rfl
  -- the yield, when it is called and when it is called again
  have hyield {c d : Coroutine Call Call} (ps : List Pending) (hy : c.yield none = (.ok (), d)) (hid : c.id = id)
      (hd : d.id = c.id) :
      (m.holding c ps (.calling call)).step ⟨p', hosts⟩ = m.holding d ps (.returning none) := by
    have hstep : (m.holding c ps (.calling call)).step ⟨p', hosts⟩ =
        (m.holding c ps (.calling call)).call ⟨p', hosts⟩ call := rfl
    rw [hstep, hpair.rewritten.call_native (s := m.holding c ps (.calling call)) ht, hargs]
    exact (Machine.runNative_yield hi (hid ▸ (hbody.alone.runs.put hid).found) hy).trans
      (Machine.put_holding hd.symm)
  obtain ⟨stopped, T, mark₁, hstop, hresult, hfound, hagain⟩ := hN.stops hbody hleft (i.endsWithZero hi hdesc)
  obtain ⟨mark₂, ps', hgoesOn, hstacked'⟩ := hN.goesOn T mark₁
  have hhides : Hides ⟨some mark₂, none⟩ [] m.engine (m.engine.put (.started id body mark₂)) :=
    .running hbody.alone.runs hbody.alone.active (fun s hs => absurd hs (by simp)) hbody.alone.numbered rfl
  rw [hm']
  refine ⟨stopped, _, _, mark₂, m.holding (.started id body mark₂) ps' (.returning none), ?_, hresult, hfound, rfl, rfl,
    hagain, ?_, ?_⟩
  · exact (Machine.Reaches.of_step (hyield _ (Coroutine.yield_started id body mark) rfl rfl)).trans hstop
  · exact hgoesOn.trans (.of_step (hyield _ (Coroutine.yield_rewound id body mark₂) rfl rfl))
  · refine .waiting ⟨rfl, rfl, rfl, hhides⟩ ?_ rfl (by simp) (by simp)
    show Stacked p t p' _ m.engine.exists [] owners m.pending ps'
    rw [hbody.alone.runs.exists_eq]
    exact hstacked' _ rfl

end

end Resumable
