import Resumable.Proofs.Hiding
import Resumable.Proofs.Operations

/-!
# Built-in methods on both machines

A built-in method that leaves storage, positions and staging alone does the same in two machines whose
engines differ in staging frames only.

* `Machine.Like` : two machines that look the same to a program;
* `Performing.Follows` : a computation that does the same in both;
* `Intrinsic.isStorage` : the methods of storage, positions and staging;
* `Native.follows` : all other built-in methods do the same in both.
-/

namespace Resumable

namespace Machine

/-- two machines that look the same to a program -/
structure Like (v : Veil) (frames : List (List Value)) (m m' : Machine) : Prop where
  heap : m'.heap = m.heap
  statics : m'.statics = m.statics
  console : m'.console = m.console
  engine : Hides v frames m.engine m'.engine

end Machine

namespace Performing

open Effect

variable {α β : Type} {v : Veil} {frames : List (List Value)}

/-- the computation does the same in machines that look the same, and they still do afterwards -/
def Follows (v : Veil) (frames : List (List Value)) (x : Performing α) : Prop :=
  ∀ m m' : Machine, Machine.Like v frames m m' → ∃ r h l e e',
    x.run m = (r, { m with heap := h, console := l, engine := e }) ∧
    x.run m' = (r, { m' with heap := h, console := l, engine := e' }) ∧
    (e.Fresh → (∀ f, r ≠ .error (.fault f)) → Hides v frames e e')

theorem Confined.follows {x : Performing α} (hx : Confined x) : Follows v frames x := by
  obtain ⟨f, hf, -⟩ := hx
  intro m m' hlike
  refine ⟨_, _, _, m.engine, m'.engine, hf m, ?_, fun _ _ => hlike.engine⟩
  rw [hf m', hlike.heap, hlike.console]

/-- first something that sees heap and console only -/
theorem Follows.after {x : Performing α} {k : α → Performing β} (hx : Confined x)
    (hk : ∀ a, Follows v frames (k a)) : Follows v frames (x >>= k) := by
  obtain ⟨f, hf, -⟩ := hx
  intro m m' hlike
  have hf' := hf m'
  rw [hlike.heap, hlike.console] at hf'
  rw [run_bind, run_bind, hf, hf']
  cases hr : (f m.heap m.console).1 with
  | error t => exact ⟨_, _, _, m.engine, m'.engine, rfl, rfl, fun _ _ => hlike.engine⟩
  | ok a => exact hk a _ _ ⟨rfl, hlike.statics, rfl, hlike.engine⟩

/-- at last something that sees heap and console only -/
theorem Follows.bind_confined {x : Performing α} {k : α → Performing β} (hx : Follows v frames x)
    (hk : ∀ a, Confined (k a)) : Follows v frames (x >>= k) := by
  intro m m' hlike
  obtain ⟨r, h, l, e, e', h1, h2, h3⟩ := hx m m' hlike
  rw [run_bind, run_bind, h1, h2]
  cases r with
  | error t =>
    refine ⟨_, _, _, e, e', rfl, rfl, fun hfresh hr => h3 hfresh fun f heq => hr f ?_⟩
    rw [Except.error.inj heq]
  | ok a =>
    obtain ⟨f, hf, -⟩ := hk a
    exact ⟨_, _, _, e, e', hf _, hf _, fun hfresh _ => h3 hfresh fun f => by simp⟩

/-- something that follows from what both engines have in common -/
theorem follows_coroutines {k : Engine Call Call → Performing α} (hk : ∀ e, Confined (k e))
    (hsame : ∀ e e', Hides v frames e e' → k e' = k e) :
    Follows v frames (coroutines >>= k) := by
  intro m m' hlike
  obtain ⟨f, hf, -⟩ := hk m.engine
  refine ⟨_, _, _, m.engine, m'.engine, hf m, ?_, fun _ _ => hlike.engine⟩
  show (k m'.engine).run m' = _
  rw [hsame _ _ hlike.engine, hf m', hlike.heap, hlike.console]

/-- an operation that ends in the same way for both engines -/
theorem follows_engine {op : Engine Call Call → Except Violation α × Engine Call Call}
    (hop : ∀ e e', Hides v frames e e' → Hides.Agrees v frames (op e) (op e')) :
    Follows v frames (engine op) := by
  intro m m' hlike
  obtain ⟨hsame, hhides⟩ := hop _ _ hlike.engine
  refine ⟨_, m.heap, m.console, (op m.engine).2, (op m'.engine).2, run_engine op m, ?_,
    fun hfresh hr => ?_⟩
  · rw [run_engine, hsame, ← hlike.heap, ← hlike.console]
  · refine hhides hfresh ?_
    cases h : (op m.engine).1 with
    | ok a => exact ⟨a, rfl⟩
    | error b =>
      rw [h] at hr
      exact absurd rfl (hr _)

end Performing

open Performing

/-! ## the methods of coroutines -/

/-- the method belongs to storage, saved positions or staging -/
def Intrinsic.isStorage : Intrinsic → Bool
  | .popState | .pushState | .push _ | .pop _ | .pushCompanion | .discardCompanion | .beginStaging
  | .stage _ | .peekStaged _ | .commitStaging | .endStaging => true
  | _ => false

/-- the built-in method belongs to storage, saved positions or staging -/
def Native.isStorage : Native → Bool
  | .intrinsic i => i.isStorage
  | _ => false

section
variable {v : Veil} {frames : List (List Value)}

theorem follows_resume (args : List Value) : Follows v frames (performResume args) :=
  .after (confined_coroutineArg args 0) fun id =>
    (follows_engine fun _ _ h => h.enter id).bind_confined fun _ => .pure _

theorem Intrinsic.follows {i : Intrinsic} (hi : i.isStorage = false) (args : List Value) :
    Follows v frames (i.perform args) := by
  cases i with
  | «exists» =>
    exact follows_coroutines (fun _ => .pure _) fun e e' h => by rw [h.exists_eq]
  | get =>
    exact follows_coroutines (fun _ => .pure _) fun e e' h => by rw [h.currentId?_eq]
  | isYielding =>
    exact follows_coroutines (fun _ => .pure _) fun e e' h => by rw [h.isYielding_eq]
  | invalidDispatch =>
    exact (Confined.bind (confined_stringArg args 0) fun _ => confined_fault _).follows
  | initSuspended =>
    exact .after (confined_nonNullArg args 0) fun r =>
      (follows_engine fun _ _ h => h.create (Call.ofRunnable r)).bind_confined fun _ => .pure _
  | start => exact follows_resume args
  | resume => exact follows_resume args
  | yield =>
    exact .after (confined_coroutineArg args 0) fun id =>
      (follows_engine fun _ _ h => h.yield id none).bind_confined fun _ => .pure _
  | yieldWith =>
    refine .bind_confined (x := performYieldWith args) ?_ fun _ => .pure _
    exact .after (confined_coroutineArg args 0) fun id =>
      .after (confined_refArg args 1) fun r =>
        follows_engine fun _ _ h => h.yield id (r.map Call.ofRunnable)
  | isDone =>
    exact .after (confined_coroutineArg args 0) fun id =>
      follows_coroutines (fun _ => .pure _) fun e e' h => by
        dsimp only
        rw [h.isDone_eq]
  | _ => exact absurd hi (by simp [isStorage])

/-! ## all of them -/

theorem follows_hostYield : Follows v frames performHostYield := by
  intro m m' hlike
  have hrun (m : Machine) : coroutines.run m = (.ok m.engine, m) := rfl
  unfold performHostYield
  rw [Effect.run_bind_ok (hrun m), Effect.run_bind_ok (hrun m'), hlike.engine.currentId?_eq]
  cases m.engine.currentId? with
  | some id => exact follows_engine (fun _ _ h => h.yield id none) m m' hlike
  | none => exact (Confined.pure _).follows m m' hlike

theorem HostMethod.follows (h : HostMethod) (args : List Value) :
    Follows v frames (h.perform args) := by
  unfold HostMethod.perform
  split
  · exact follows_hostYield.bind_confined fun _ => h.reply.confined_perform args
  · exact (h.reply.confined_perform args).follows

/-- **Built-in methods** that leave storage alone do the same in both machines -/
theorem Native.follows {n : Native} (hn : n.isStorage = false) (args : List Value) :
    Follows v frames (n.perform args) := by
  cases n with
  | intrinsic i => exact i.follows hn args
  | library l => exact ((l.confined_perform args).bind fun _ => .pure _).follows
  | host h => exact (h.follows args).bind_confined fun _ => .pure _

end

/-! ## which coroutines run -/

namespace Performing

open Effect

variable {α β : Type}

/-- the same coroutines run afterwards -/
def Steady (x : Performing α) : Prop := ∀ m, (x.run m).2.engine.active = m.engine.active

theorem Confined.steady {x : Performing α} (hx : Confined x) : Steady x := by
  obtain ⟨f, hf, -⟩ := hx
  intro m
  rw [hf]

theorem Steady.bind {x : Performing α} {k : α → Performing β} (hx : Steady x)
    (hk : ∀ a, Steady (k a)) : Steady (x >>= k) := by
  intro m
  have hm := hx m
  rw [run_bind]
  generalize x.run m = y at hm
  obtain ⟨r, m'⟩ := y
  cases r with
  | error t => exact hm
  | ok a => exact (hk a m').trans hm

theorem steady_engine {op : Engine Call Call → Except Violation α × Engine Call Call}
    (hop : ∀ e, (op e).2.active = e.active) : Steady (engine op) := by
  intro m
  rw [run_engine]
  exact hop _

theorem steady_closed : Closed fun _ x => Steady x where
  confined := Confined.steady
  bind := Steady.bind
  coroutines := fun _ => rfl
  access _ _ := steady_engine fun e => by
    unfold Engine.onCurrent
    split
    · exact Engine.active_on _ _ _
    · rfl
  yield id _ := steady_engine fun e => Engine.active_on e id _
  create _ := steady_engine fun _ => rfl

/-- the computation never ends with a body to call -/
def Bodiless (x : Performing Performed) : Prop :=
  ∀ m m' id c, x.run m ≠ (.ok (.body id c), m')

theorem Bodiless.result (v : Option Value) : Bodiless (Pure.pure (.result v)) :=
  fun _ _ _ _ h => absurd (Except.ok.inj (Prod.mk.inj h).1) (by simp)

theorem Bodiless.fault (f : Fault) : Bodiless (Performing.fault f) :=
  fun _ _ _ _ h => absurd (Prod.mk.inj h).1 (by simp)

theorem Bodiless.bind {x : Performing α} {k : α → Performing Performed}
    (hk : ∀ a, Bodiless (k a)) : Bodiless (x >>= k) := by
  intro m m' id c
  rw [run_bind]
  generalize x.run m = y
  obtain ⟨r, m''⟩ := y
  cases r with
  | error t => exact fun h => absurd (Prod.mk.inj h).1 (by simp)
  | ok a => exact hk a m'' m' id c

end Performing

theorem Native.bodiless {n : Native} (hn : n.resumes = false) (args : List Value) :
    Bodiless (n.perform args) := by
  cases n with
  | library l => exact .bind fun _ => .result _
  | host h => exact .bind fun _ => .result _
  | intrinsic i =>
    cases i with
    | start => exact absurd hn (by simp [resumes])
    | resume => exact absurd hn (by simp [resumes])
    | invalidDispatch => exact .bind fun _ => .fault _
    | _ => repeat first | exact .result _ | refine .bind fun _ => ?_

open Effect in
/-- what resuming a coroutine does to those that run -/
theorem active_resume {args : List Value} {m m' : Machine} {r : Except Throw Performed}
    (h : (performResume args).run m = (r, m')) :
    (∃ id c, r = .ok (.body id c) ∧ m'.engine.active = id :: m.engine.active) ∨
      (∃ t, r = .error t) ∧ m'.engine.active = m.engine.active := by
  obtain ⟨f, hf, -⟩ := confined_coroutineArg args 0
  unfold performResume at h
  rw [run_bind, hf] at h
  cases hn : (f m.heap m.console).1 with
  | error t =>
    rw [hn] at h
    obtain ⟨rfl, rfl⟩ := Prod.mk.inj h
    exact .inr ⟨⟨t, rfl⟩, rfl⟩
  | ok n =>
    rw [hn] at h
    dsimp only at h
    rw [run_bind, run_engine] at h
    cases henter : (m.engine.enter n).1 with
    | error b =>
      dsimp only at h
      rw [henter] at h
      obtain ⟨rfl, rfl⟩ := Prod.mk.inj h
      refine .inr ⟨⟨_, rfl⟩, ?_⟩
      unfold Engine.enter at henter ⊢
      dsimp only
      split at henter
      · exact absurd henter (by simp)
      · rename_i v e he
        rw [← Engine.active_on m.engine n Coroutine.beginRun, he]
    | ok a =>
      dsimp only at h
      rw [henter] at h
      obtain ⟨rfl, rfl⟩ := Prod.mk.inj h
      refine .inl ⟨n, a, rfl, ?_⟩
      dsimp only
      rw [(Hides.enter_eq m.engine n).2 a henter, Engine.active_on]

/-- **Which coroutines run** after a built-in method -/
theorem Native.active_perform {n : Native} {args : List Value} {m m' : Machine}
    {r : Except Throw Performed} (h : (n.perform args).run m = (r, m')) :
    (∃ id c, r = .ok (.body id c) ∧ m'.engine.active = id :: m.engine.active) ∨
      (∀ id c, r ≠ .ok (.body id c)) ∧ m'.engine.active = m.engine.active := by
  by_cases hn : n.resumes = true
  · have hresume (h : (performResume args).run m = (r, m')) :
        (∃ id c, r = .ok (.body id c) ∧ m'.engine.active = id :: m.engine.active) ∨
          (∀ id c, r ≠ .ok (.body id c)) ∧ m'.engine.active = m.engine.active :=
      (active_resume h).imp_right fun ⟨⟨t, ht⟩, hactive⟩ => ⟨fun id c => by rw [ht]; simp, hactive⟩
    cases n with
    | intrinsic i =>
      cases i with
      | start => exact hresume h
      | resume => exact hresume h
      | _ => exact absurd hn (by simp [Native.resumes])
    | _ => exact absurd hn (by simp [Native.resumes])
  · have hn : n.resumes = false := by simpa using hn
    have hsteady : Steady (n.perform args) :=
      steady_closed.native n (fun hr => absurd hr (by rw [hn]; simp)) args
    refine .inr ⟨fun id c hr => Native.bodiless hn args m m' id c (by rw [← hr]; exact h), ?_⟩
    have hm := hsteady m
    rw [h] at hm
    exact hm

end Resumable
