import Resumable.Proofs.Thread
import Resumable.Proofs.Tracks

/-!
# A machine as a thread

What a machine does to coroutines is what happens on a thread: the bodies under way and what they
deferred are the calls of `resume`, and each step is a sequence of events, most often none.  So whatever
holds on every thread holds in every run of a program.

* `Machine.thread` : the coroutines of a machine, with the calls of `resume` under way;
* `Performing.Acts`, `Performing.acts_closed` : built-in methods do events one after the other;
* `Machine.thread_step`, `Machine.thread_after` : so do steps;
* `Machine.orderly_after` : the rules for coroutines hold in every run.
-/

namespace Resumable

open Effect

/-- the call of `resume` that something under way belongs to -/
def Pending.level? : Pending → Option (Thread.Level Call)
  | .activation _ => none
  | .body id call => some (.body id call)
  | .discard => some .deferred

/-- the coroutines, and the calls of `resume` under way -/
def Machine.thread (m : Machine) : Thread Call Call := ⟨m.engine, m.pending.filterMap Pending.level?⟩

theorem Thread.run_append {β κ : Type} {s t u : Thread β κ} {es fs : List (Event β κ)}
    (h : s.run es = some t) (h' : t.run fs = some u) : s.run (es ++ fs) = some u := by
  induction es generalizing s with
  | nil =>
    rw [List.nil_append, ← h', ← Option.some.inj h]
  | cons e es ih =>
    obtain ⟨s₁, hact, hrest⟩ := Option.bind_eq_some_iff.1 h
    rw [List.cons_append, run, hact]
    exact ih hrest

/-- one event is a sequence of events -/
theorem Thread.run_one {β κ : Type} {s t : Thread β κ} {e : Event β κ} (h : s.act e = some t) :
    s.run [e] = some t := by
  rw [run, h]
  rfl

/-! ## built-in methods -/

namespace Performing

variable {α β : Type}

/-- the computation does events one after the other, below whatever is under way -/
def Acts (x : Performing α) : Prop :=
  ∀ m levels, ∃ es, (⟨m.engine, levels⟩ : Thread Call Call).run es = some ⟨(x.run m).2.engine, levels⟩

theorem Confined.acts {x : Performing α} (hx : Confined x) : Acts x := by
  obtain ⟨f, hf, -⟩ := hx
  exact fun m levels => ⟨[], by rw [hf]; rfl⟩

theorem Acts.bind {x : Performing α} {k : α → Performing β} (hx : Acts x) (hk : ∀ a, Acts (k a)) :
    Acts (x >>= k) := by
  intro m levels
  obtain ⟨es, hes⟩ := hx m levels
  rw [run_bind]
  generalize x.run m = y at hes
  obtain ⟨r, m'⟩ := y
  cases r with
  | error t => exact ⟨es, hes⟩
  | ok a =>
    obtain ⟨fs, hfs⟩ := hk a m' levels
    exact ⟨es ++ fs, Thread.run_append hes hfs⟩

/-- an operation of the engine that is an event -/
theorem acts_engine {op : Engine Call Call → Except Violation α × Engine Call Call}
    {e : Event Call Call} (hop : ∀ engine levels,
      (⟨engine, levels⟩ : Thread Call Call).act e = some ⟨(op engine).2, levels⟩) :
    Acts (engine op) := by
  intro m levels
  rw [run_engine]
  exact ⟨[e], Thread.run_one (hop m.engine levels)⟩

theorem acts_closed : Closed fun _ x => Acts x where
  confined := Confined.acts
  bind := Acts.bind
  coroutines := fun _ _ => ⟨[], rfl⟩
  access a hop := acts_engine (e := .access a) fun e levels => by
    unfold Thread.act
    simp only [Engine.onCurrent, Engine.on]
    split
    · split
      · rw [hop]
      · rfl
    · rfl
  yield id deferred := acts_engine (e := .yield id deferred) fun _ _ => rfl
  create body := acts_engine (e := .create body) fun _ _ => rfl

end Performing

open Performing

namespace Machine

variable {w : World} {m m' : Machine} {rest : List Pending}

/-- a coroutine is resumed, or the call is refused -/
theorem thread_resume (m : Machine) (args : List Value) (n : Native)
    (hn : n.perform args = performResume args) :
    ∃ es, m.thread.run es = some (m.runNative n args).thread := by
  obtain ⟨f, hf, -⟩ := confined_coroutineArg args 0
  unfold runNative
  rw [hn, performResume, run_bind, hf]
  cases (f m.heap m.console).1 with
  | error t => exact ⟨[], rfl⟩
  | ok id =>
    refine ⟨[.resume id], Thread.run_one ?_⟩
    dsimp only
    rw [run_bind, run_engine]
    unfold Thread.act
    dsimp only [thread]
    generalize m.engine.enter id = r
    obtain ⟨result, engine⟩ := r
    cases result <;> rfl

theorem thread_runNative (m : Machine) (n : Native) (args : List Value) :
    ∃ es, m.thread.run es = some (m.runNative n args).thread := by
  by_cases hn : n.resumes = true
  · cases n with
    | intrinsic i =>
      cases i with
      | start => exact m.thread_resume args _ rfl
      | resume => exact m.thread_resume args _ rfl
      | _ => exact absurd hn (by simp [Native.resumes])
    | _ => exact absurd hn (by simp [Native.resumes])
  · have hbody := Native.bodiless (by simpa using hn) args m
    have hpending := n.quiet args m
    obtain ⟨es, hes⟩ := acts_closed.native n (fun hr => absurd hr hn) args m
      (m.pending.filterMap Pending.level?)
    refine ⟨es, hes.trans ?_⟩
    rw [← hpending]
    unfold runNative
    generalize (n.perform args).run m = r at hbody
    obtain ⟨result, m'⟩ := r
    cases result with
    | error t => rfl
    | ok o =>
      cases o with
      | result v => rfl
      | body id call => exact absurd rfl (hbody m' id call)

theorem thread_call (w : World) (m : Machine) (c : Call) :
    ∃ es, m.thread.run es = some (m.call w c).thread := by
  have hon (receiver : Option String) : ∃ es, m.thread.run es = some (m.callOn w c receiver).thread := by
    unfold callOn
    split
    · rename_i t ht
      cases t with
      | code method => exact ⟨[], rfl⟩
      | native n => exact m.thread_runNative n c.args
    · exact ⟨[], rfl⟩
  unfold call
  split
  · split
    · exact hon _
    · exact ⟨[], rfl⟩
    · exact ⟨[], rfl⟩
  · exact hon none

/-- instructions do nothing to coroutines -/
theorem thread_execute (w : World) (m : Machine) (a : Activation) (rest : List Pending) :
    (m.execute w a rest).thread = ⟨m.engine, rest.filterMap Pending.level?⟩ := by
  unfold execute
  split
  · rfl
  · rename_i i hi
    generalize (i.exec w.program).run ⟨m.heap, m.statics, a⟩ = r
    obtain ⟨result, s⟩ := r
    cases result with
    | error t => rfl
    | ok o =>
      cases o with
      | jump l =>
        dsimp only [follow]
        split <;> rfl
      | _ => rfl

/-- neither do handlers -/
theorem thread_catchIn (w : World) (m : Machine) (a : Activation) (rest : List Pending) (t : Throw) :
    (m.catchIn w a rest t).thread = ⟨m.engine, rest.filterMap Pending.level?⟩ := by
  unfold catchIn
  cases t with
  | fault f => rfl
  | exception r =>
    dsimp only
    split <;> rfl

/-- the body of a coroutine ends by returning -/
theorem thread_leaveBody (m : Machine) (id : Nat) (body : Call) (rest : List Pending) :
    (⟨m.engine, .body id body :: rest.filterMap Pending.level?⟩ : Thread Call Call).act (.leave true) =
      some (m.leaveBody id body rest).thread := by
  unfold leaveBody Thread.act
  dsimp only
  generalize m.engine.leave id body true = r
  obtain ⟨deferred, engine⟩ := r
  cases deferred <;> rfl

/-- the body of a coroutine ends by throwing, and nothing that was deferred runs -/
theorem thread_abandonBody (m : Machine) (id : Nat) (body : Call) (rest : List Pending) (t : Throw) :
    (⟨m.engine, .body id body :: rest.filterMap Pending.level?⟩ : Thread Call Call).act (.leave false) =
      some (m.abandonBody id body rest t).thread := by
  have hnone : (m.engine.leave id body false).1 = none := by
    unfold Engine.leave
    dsimp only
    split <;> rfl
  unfold abandonBody Thread.act
  dsimp only
  generalize m.engine.leave id body false = r at hnone
  obtain ⟨deferred, engine⟩ := r
  obtain rfl : deferred = none := hnone
  rfl

/-- **A step** is a sequence of events -/
theorem thread_step (w : World) (m : Machine) : ∃ es, m.thread.run es = some (m.step w).thread := by
  unfold step
  split
  · exact thread_call w m _
  · rename_i a rest _ hp
    exact ⟨[], by rw [thread_execute, thread, hp]; rfl⟩
  · exact ⟨[], rfl⟩
  · exact ⟨[], rfl⟩
  · rename_i v p rest _ hp
    unfold thread
    rw [hp]
    cases p with
    | activation a => cases v <;> exact ⟨[], rfl⟩
    | body id body => exact ⟨[.leave true], Thread.run_one (m.thread_leaveBody id body rest)⟩
    | discard => exact ⟨[.finish], rfl⟩
  · exact ⟨[], rfl⟩
  · rename_i t p rest _ hp
    unfold thread
    rw [hp]
    cases p with
    | activation a => exact ⟨[], congrArg some (m.thread_catchIn w a rest t).symm⟩
    | body id body => exact ⟨[.leave false], Thread.run_one (m.thread_abandonBody id body rest t)⟩
    | discard => exact ⟨[.finish], rfl⟩

/-- **A run** is a sequence of events -/
theorem thread_after (w : World) (n : Nat) (m : Machine) :
    ∃ es, m.thread.run es = some (m.after w n).thread := by
  induction n generalizing m with
  | zero => exact ⟨[], rfl⟩
  | succ n ih =>
    obtain ⟨es, hes⟩ := m.thread_step w
    obtain ⟨fs, hfs⟩ := ih (m.step w)
    exact ⟨es ++ fs, Thread.run_append hes hfs⟩

/-- **The rules for coroutines** hold in every run of a program -/
theorem orderly_after (h : m.thread.Orderly) (w : World) (n : Nat) : (m.after w n).thread.Orderly := by
  obtain ⟨es, hes⟩ := m.thread_after w n
  exact h.run hes

end Machine
end Resumable
