import Resumable.Machine.Step

/-!
# Runs of the machine

A run is a number of steps.  A machine that is done stays as it is, so a run may always be made
longer, and the bound of `run?` says nothing more than that it is large enough.

* `Machine.after` : the machine after a number of steps;
* `Machine.Reaches`, `Machine.Proceeds` : some number of steps, at least one step;
* `Machine.Leads`, `Machine.Passes` : some number of steps, of which none throws an object;
* `run?_eq_some`, `run?_of_reaches` : the bounded runs are the runs that end.
-/

namespace Resumable
namespace Machine

/-- the machine after a number of steps -/
def after (w : World) : Nat → Machine → Machine
  | 0, m => m
  | n + 1, m => after w n (m.step w)

/-- some steps lead from one machine to the other -/
def Reaches (w : World) (m m' : Machine) : Prop := ∃ n, m.after w n = m'

/-- at least one step leads from one machine to the other -/
def Proceeds (w : World) (m m' : Machine) : Prop := ∃ n, m.after w (n + 1) = m'

section
variable {w : World} {m m' m'' : Machine}

theorem after_zero (w : World) (m : Machine) : m.after w 0 = m := rfl

theorem after_succ (w : World) (n : Nat) (m : Machine) :
    m.after w (n + 1) = (m.step w).after w n := rfl

theorem after_add (w : World) (a b : Nat) (m : Machine) :
    m.after w (a + b) = (m.after w a).after w b := by
  induction a generalizing m with
  | zero => rw [Nat.zero_add, after_zero]
  | succ a ih => rw [Nat.succ_add, after_succ, after_succ, ih]

theorem after_succ' (w : World) (n : Nat) (m : Machine) :
    m.after w (n + 1) = (m.after w n).step w := by
  rw [after_add, after_succ, after_zero]

/-- nothing happens to a machine that is done -/
theorem after_of_result? (h : m.result?.isSome) (n : Nat) : m.after w n = m := by
  induction n with
  | zero => rfl
  | succ n ih => rw [after_succ, step_of_result? h, ih]

/-! ## reaching -/

theorem Reaches.refl (w : World) (m : Machine) : Reaches w m m := ⟨0, rfl⟩

theorem Reaches.trans (h : Reaches w m m') (h' : Reaches w m' m'') : Reaches w m m'' := by
  obtain ⟨a, rfl⟩ := h
  obtain ⟨b, rfl⟩ := h'
  exact ⟨a + b, after_add w a b m⟩

theorem Proceeds.reaches (h : Proceeds w m m') : Reaches w m m' := by
  obtain ⟨n, rfl⟩ := h
  exact ⟨n + 1, rfl⟩

theorem Proceeds.one (w : World) (m : Machine) : Proceeds w m (m.step w) := ⟨0, rfl⟩

theorem Proceeds.of_step (h : m.step w = m') : Proceeds w m m' := ⟨0, h⟩

theorem Reaches.of_step (h : m.step w = m') : Reaches w m m' := ⟨1, h⟩

/-- one more step in front -/
theorem Reaches.step (h : Reaches w (m.step w) m') : Reaches w m m' :=
  (Reaches.of_step rfl).trans h

/-- a run that ends passes through every machine it reaches -/
theorem Reaches.of_result? {r : Except Throw (Option Value)} (h : Reaches w m m')
    (h' : Reaches w m m'') (hr : m''.result? = some r) : Reaches w m' m'' := by
  obtain ⟨a, rfl⟩ := h
  obtain ⟨b, rfl⟩ := h'
  refine ⟨b, ?_⟩
  have hdone : (m.after w b).result?.isSome := by rw [hr]; rfl
  rw [← after_add, Nat.add_comm, after_add, after_of_result? hdone]

/-! ## faults -/

/-- a fault ends what is under way, one after another -/
theorem step_fault {f : Fault} (hm : m.mode = .throwing (.fault f)) :
    (m.step w).mode = .throwing (.fault f) ∧ (m.step w).heap = m.heap ∧
      (m.step w).statics = m.statics ∧ (m.step w).console = m.console ∧
      (m.step w).pending = m.pending.tail := by
  obtain ⟨heap, statics, console, engine, pending, mode⟩ := m
  dsimp only at hm
  subst hm
  cases pending with
  | nil => exact ⟨rfl, rfl, rfl, rfl, rfl⟩
  | cons q rest => cases q <;> exact ⟨rfl, rfl, rfl, rfl, rfl⟩

theorem mode_after_fault {f : Fault} (hm : m.mode = .throwing (.fault f)) (n : Nat) :
    (m.after w n).mode = .throwing (.fault f) := by
  induction n generalizing m with
  | zero => exact hm
  | succ n ih => exact ih (step_fault hm).1

/-! ## nothing is thrown on the way -/

/-- the next step throws no object, and the uppermost activation stands at such a position -/
structure Calm (w : World) (S : Nat → Prop) (m : Machine) : Prop where
  silent : ∀ r, (m.step w).mode ≠ .throwing (.exception r)
  stands : ∀ x rest, m.pending = .activation x :: rest → S x.position

/-- Some steps lead to a machine with the property.  None of them throws an object, and on the way the
uppermost activation stands at such positions. -/
def Leads (w : World) (S : Nat → Prop) (P : Machine → Prop) (m : Machine) : Prop :=
  ∃ n, P (m.after w n) ∧ ∀ k, k < n → (m.after w k).Calm w S

/-- some steps lead from one machine to the other in this way -/
def Passes (w : World) (S : Nat → Prop) (m m' : Machine) : Prop := Leads w S (· = m') m

section
variable {S : Nat → Prop} {P Q : Machine → Prop} {x : Activation} {rest : List Pending}

theorem Leads.here (h : P m) : Leads w S P m := ⟨0, h, fun _ hk => absurd hk (Nat.not_lt_zero _)⟩

/-- one more step in front -/
theorem Leads.step (hm : m.Calm w S) (h : Leads w S P (m.step w)) : Leads w S P m := by
  obtain ⟨n, hn, hcalm⟩ := h
  refine ⟨n + 1, hn, fun k hk => ?_⟩
  cases k with
  | zero => exact hm
  | succ k => exact hcalm k (by omega)

theorem Leads.bind (h : Leads w S P m) (hP : ∀ m', P m' → Leads w S Q m') : Leads w S Q m := by
  obtain ⟨n, hn, hcalm⟩ := h
  induction n generalizing m with
  | zero => exact hP m hn
  | succ n ih => exact .step (hcalm 0 (by omega)) (ih hn fun k hk => hcalm (k + 1) (by omega))

theorem Leads.mono (h : Leads w S P m) (hP : ∀ m', P m' → Q m') : Leads w S Q m :=
  h.bind fun m' hm' => .here (hP m' hm')

/-- either it is here, or it is after the next step -/
theorem Leads.cases (h : Leads w S P m) : P m ∨ m.Calm w S ∧ Leads w S P (m.step w) := by
  obtain ⟨n, hn, hcalm⟩ := h
  cases n with
  | zero => exact .inl hn
  | succ n => exact .inr ⟨hcalm 0 (by omega), n, hn, fun k hk => hcalm (k + 1) (by omega)⟩

theorem Passes.refl (m : Machine) : Passes w S m m := .here rfl

theorem Passes.leads (h : Passes w S m m') (h' : Leads w S P m') : Leads w S P m :=
  h.bind fun _ heq => heq ▸ h'

theorem Passes.trans (h : Passes w S m m') (h' : Passes w S m' m'') : Passes w S m m'' := h.leads h'

theorem Passes.reaches (h : Passes w S m m') : Reaches w m m' := by
  obtain ⟨n, hn, -⟩ := h
  exact ⟨n, hn⟩

/-- a step with an activation on top that throws no object -/
theorem Calm.of_step (hp : m.pending = .activation x :: rest) (hS : S x.position) (h : m.step w = m')
    (hm : ∀ r, m'.mode ≠ .throwing (.exception r)) : m.Calm w S where
  silent r := h ▸ hm r
  stands y after hy := by
    obtain ⟨rfl, -⟩ : x = y ∧ rest = after := by simpa using hp.symm.trans hy
    exact hS

/-- a step of an activation after which one executes -/
theorem Passes.of_step (hS : S x.position) (h : (m.goOn x rest).step w = m') (hm : m'.mode = .executing) :
    Passes w S (m.goOn x rest) m' :=
  .step (.of_step rfl hS h fun r hr => absurd (hm.symm.trans hr) (by simp)) (.here h)

end

/-! ## bounded runs -/

theorem run?_of_result? {r : Except Throw (Option Value)} (h : m.result? = some r) (fuel : Nat) :
    run? w fuel m = some (r, m) := by
  simp only [run?.eq_def w, h]

theorem run?_succ (h : m.result? = none) (fuel : Nat) :
    run? w (fuel + 1) m = run? w fuel (m.step w) := by
  conv => lhs; rw [run?.eq_def]
  simp only [h]

/-- a bounded run ends after some number of steps -/
theorem run?_eq_some {r : Except Throw (Option Value)} {fuel : Nat}
    (h : run? w fuel m = some (r, m')) : Reaches w m m' ∧ m'.result? = some r := by
  induction fuel generalizing m with
  | zero =>
    cases hm : m.result? with
    | none =>
      simp only [run?.eq_def w, hm] at h
      exact absurd h (by simp)
    | some s =>
      rw [run?_of_result? hm] at h
      obtain ⟨rfl, rfl⟩ : s = r ∧ m = m' := by simpa using h
      exact ⟨.refl w m, hm⟩
  | succ fuel ih =>
    cases hm : m.result? with
    | none =>
      rw [run?_succ hm] at h
      obtain ⟨hreach, hr⟩ := ih h
      exact ⟨hreach.step, hr⟩
    | some s =>
      rw [run?_of_result? hm] at h
      obtain ⟨rfl, rfl⟩ : s = r ∧ m = m' := by simpa using h
      exact ⟨.refl w m, hm⟩

/-- as many steps as a run takes are bound enough for it -/
theorem run?_of_after {r : Except Throw (Option Value)} {n : Nat}
    (h : (m.after w n).result? = some r) : run? w n m = some (r, m.after w n) := by
  induction n generalizing m with
  | zero => exact run?_of_result? h 0
  | succ n ih =>
    cases hm : m.result? with
    | none =>
      rw [run?_succ hm]
      exact ih h
    | some s =>
      have hdone : m.result?.isSome := by rw [hm]; rfl
      rw [after_of_result? hdone] at h ⊢
      exact run?_of_result? h (n + 1)

/-- a run that ends is found with a large enough bound -/
theorem run?_of_reaches {r : Except Throw (Option Value)} (h : Reaches w m m')
    (hr : m'.result? = some r) : ∃ fuel, run? w fuel m = some (r, m') := by
  obtain ⟨n, rfl⟩ := h
  exact ⟨n, run?_of_after hr⟩

end

end Machine
end Resumable
