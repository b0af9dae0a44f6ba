import Resumable.Proofs.Following
import Resumable.Proofs.Run

/-!
# An activation and its calls

A step looks at the uppermost of what is under way and leaves alone what is below.  So while an activation
is under way, what its calls do can be left aside: the activation goes on where the call ends, as it was
when the call began.

* `Performing.Quiet` : built-in methods leave alone what is under way;
* `Machine.Ended`, `Machine.step_pending` : a step replaces the uppermost only;
* `Machine.UnderWay` : for so many steps an activation has not ended;
* `Machine.Calls` : a call of the activation is under way;
* `Machine.Tracks` : an activation above others, by what it is doing;
* `Machine.Tracks.step_of_calls` : the steps of its calls.
-/

namespace Resumable

open Effect

/-! ## built-in methods -/

namespace Performing

variable {α β : Type}

/-- what is under way stays as it is -/
def Quiet (x : Performing α) : Prop := ∀ m, (x.run m).2.pending = m.pending

theorem Confined.quiet {x : Performing α} (hx : Confined x) : Quiet x := by
  obtain ⟨f, hf, -⟩ := hx
  intro m
  rw [hf]

theorem Quiet.bind {x : Performing α} {k : α → Performing β} (hx : Quiet x) (hk : ∀ a, Quiet (k a)) :
    Quiet (x >>= k) := by
  intro m
  have hm := hx m
  rw [run_bind]
  generalize x.run m = y at hm
  obtain ⟨r, m'⟩ := y
  cases r with
  | error t => exact hm
  | ok a => exact (hk a m').trans hm

theorem quiet_engine (op : Engine Call Call → Except Violation α × Engine Call Call) :
    Quiet (engine op) := by
  intro m
  rw [run_engine]

theorem quiet_closed : Closed fun _ x => Quiet x where
  confined := Confined.quiet
  bind := Quiet.bind
  coroutines := fun _ => rfl
  access _ _ := quiet_engine _
  yield _ _ := quiet_engine _
  create _ := quiet_engine _

end Performing

open Performing

/-- **Built-in methods** leave alone what is under way -/
theorem Native.quiet (n : Native) (args : List Value) : Quiet (n.perform args) :=
  quiet_closed.native n (fun _ _ => quiet_engine _) args

/-! ## steps -/

namespace Machine

/-- a call has ended -/
def Ended (m : Machine) : Prop := (∃ v, m.mode = .returning v) ∨ ∃ t, m.mode = .throwing t

section
variable {w : World} {m : Machine} {p : Pending} {below rest : List Pending}

theorem runNative_pending (m : Machine) (n : Native) (args : List Value) :
    ∃ above, (m.runNative n args).pending = above ++ m.pending ∧
      (above = [] → (m.runNative n args).Ended) := by
  have hquiet := n.quiet args m
  unfold runNative
  generalize (n.perform args).run m = r at hquiet
  obtain ⟨result, m'⟩ := r
  change m'.pending = m.pending at hquiet
  cases result with
  | error t => exact ⟨[], hquiet, fun _ => .inr ⟨t, rfl⟩⟩
  | ok o =>
    cases o with
    | result v => exact ⟨[], hquiet, fun _ => .inl ⟨v, rfl⟩⟩
    | body id call =>
      exact ⟨[.body id call], by rw [← hquiet]; rfl, fun h => absurd h (by simp)⟩

/-- a call puts something on top, or has ended -/
theorem call_pending (w : World) (m : Machine) (c : Call) :
    ∃ above, (m.call w c).pending = above ++ m.pending ∧ (above = [] → (m.call w c).Ended) := by
  have hon (receiver : Option String) : ∃ above, (m.callOn w c receiver).pending = above ++ m.pending ∧
      (above = [] → (m.callOn w c receiver).Ended) := by
    unfold callOn
    split
    · rename_i t ht
      cases t with
      | code method =>
        exact ⟨[.activation (.entry method c.args)], rfl, fun h => absurd h (by simp)⟩
      | native n => exact runNative_pending m n c.args
    · exact ⟨[], rfl, fun _ => .inr ⟨_, rfl⟩⟩
  unfold call
  split
  · split
    · exact hon _
    · exact ⟨[], rfl, fun _ => .inr ⟨_, rfl⟩⟩
    · exact ⟨[], rfl, fun _ => .inr ⟨_, rfl⟩⟩
  · exact hon none

theorem execute_pending (w : World) (m : Machine) (a : Activation) (below : List Pending) :
    ∃ above, (m.execute w a below).pending = above ++ below ∧
      (above = [] → (m.execute w a below).Ended) := by
  unfold execute
  split
  · exact ⟨[], rfl, fun _ => .inr ⟨_, rfl⟩⟩
  · rename_i i hi
    generalize (i.exec w.program).run ⟨m.heap, m.statics, a⟩ = r
    obtain ⟨result, s⟩ := r
    cases result with
    | error t => exact ⟨[_], rfl, fun h => absurd h (by simp)⟩
    | ok o =>
      cases o with
      | next => exact ⟨[_], rfl, fun h => absurd h (by simp)⟩
      | call c => exact ⟨[_], rfl, fun h => absurd h (by simp)⟩
      | finish v => exact ⟨[], rfl, fun _ => .inl ⟨v, rfl⟩⟩
      | jump l =>
        dsimp only [follow]
        split
        · exact ⟨[_], rfl, fun h => absurd h (by simp)⟩
        · exact ⟨[], rfl, fun _ => .inr ⟨_, rfl⟩⟩

theorem deliver_pending (m : Machine) (v : Option Value) (below : List Pending) (p : Pending) :
    ∃ above, (m.deliver v below p).pending = above ++ below ∧
      (above = [] → (m.deliver v below p).Ended) := by
  cases p with
  | activation a => cases v <;> exact ⟨[_], rfl, fun h => absurd h (by simp)⟩
  | discard => exact ⟨[], rfl, fun _ => .inl ⟨none, rfl⟩⟩
  | body id body =>
    show ∃ above, (m.leaveBody id body below).pending = above ++ below ∧
      (above = [] → (m.leaveBody id body below).Ended)
    unfold leaveBody
    generalize m.engine.leave id body true = r
    obtain ⟨deferred, engine⟩ := r
    cases deferred with
    | none => exact ⟨[], rfl, fun _ => .inl ⟨none, rfl⟩⟩
    | some c => exact ⟨[.discard], rfl, fun h => absurd h (by simp)⟩

theorem unwind_pending (w : World) (m : Machine) (t : Throw) (below : List Pending) (p : Pending) :
    ∃ above, (m.unwind w t below p).pending = above ++ below ∧
      (above = [] → (m.unwind w t below p).Ended) := by
  cases p with
  | discard => exact ⟨[], rfl, fun _ => .inr ⟨t, rfl⟩⟩
  | body id body => exact ⟨[], rfl, fun _ => .inr ⟨t, rfl⟩⟩
  | activation a =>
    show ∃ above, (m.catchIn w a below t).pending = above ++ below ∧
      (above = [] → (m.catchIn w a below t).Ended)
    unfold catchIn
    cases t with
    | fault f => exact ⟨[], rfl, fun _ => .inr ⟨_, rfl⟩⟩
    | exception r =>
      dsimp only
      split
      · exact ⟨[_], rfl, fun h => absurd h (by simp)⟩
      · exact ⟨[], rfl, fun _ => .inr ⟨_, rfl⟩⟩
      · exact ⟨[], rfl, fun _ => .inr ⟨_, rfl⟩⟩

/-- **A step** replaces the uppermost of what is under way; where nothing takes its place, a call has
ended -/
theorem step_pending (hp : m.pending = p :: below) :
    ∃ above, (m.step w).pending = above ++ below ∧ (above = [] → (m.step w).Ended) := by
  unfold step
  rw [hp]
  cases hmode : m.mode with
  | calling c =>
    obtain ⟨above, habove, -⟩ := call_pending w m c
    exact ⟨above ++ [p], by rw [habove, hp, List.append_assoc]; rfl, fun h => absurd h (by simp)⟩
  | executing =>
    cases p with
    | activation a => exact execute_pending w m a below
    | body id body => exact ⟨[.body id body], hp, fun h => absurd h (by simp)⟩
    | discard => exact ⟨[.discard], hp, fun h => absurd h (by simp)⟩
  | returning v => exact deliver_pending m v below p
  | throwing t => exact unwind_pending w m t below p

end

/-! ## an activation above others -/

/-- for so many steps the activation above others is under way -/
def UnderWay (w : World) (s : Machine) (rest : List Pending) (n : Nat) : Prop :=
  ∀ k, k < n → rest.length < (s.after w k).pending.length

/-- a call of the activation above others is under way -/
def Calls (m : Machine) (rest : List Pending) : Prop :=
  (∃ c, m.mode = .calling c) ∨ rest.length + 1 < m.pending.length

/-- An activation above others by what it is doing: it executes an instruction, its call is under way or
has returned, or something was thrown in it -/
inductive Tracks (runs waits throws : Activation → Prop) (rest : List Pending) : Machine → Prop
  | runs {m : Machine} (a : Activation) (pending : m.pending = .activation a :: rest)
      (mode : m.mode = .executing) (h : runs a) : Tracks runs waits throws rest m
  | calls {m : Machine} (a : Activation) (c : Call) (pending : m.pending = .activation a :: rest)
      (mode : m.mode = .calling c) (h : waits a) : Tracks runs waits throws rest m
  | inside {m : Machine} (a : Activation) (p : Pending) (above : List Pending)
      (pending : m.pending = p :: (above ++ .activation a :: rest)) (h : waits a) :
      Tracks runs waits throws rest m
  | returned {m : Machine} (a : Activation) (v : Option Value)
      (pending : m.pending = .activation a :: rest) (mode : m.mode = .returning v) (h : waits a) :
      Tracks runs waits throws rest m
  | throws {m : Machine} (a : Activation) (r : Ref) (pending : m.pending = .activation a :: rest)
      (mode : m.mode = .throwing (.exception r)) (h : throws a) : Tracks runs waits throws rest m
  | fails {m : Machine} (a : Activation) (f : Fault) (pending : m.pending = .activation a :: rest)
      (mode : m.mode = .throwing (.fault f)) : Tracks runs waits throws rest m

namespace Tracks

variable {w : World} {m : Machine} {rest : List Pending} {runs waits throws : Activation → Prop}

/-- what is said more of activations is said less of them -/
theorem mono {runs' waits' throws' : Activation → Prop} (hruns : ∀ a, runs a → runs' a)
    (hwaits : ∀ a, waits a → waits' a) (hthrows : ∀ a, throws a → throws' a)
    (h : Tracks runs waits throws rest m) : Tracks runs' waits' throws' rest m := by
  cases h with
  | runs a hp hm ha => exact .runs a hp hm (hruns a ha)
  | calls a c hp hm ha => exact .calls a c hp hm (hwaits a ha)
  | inside a p above hp ha => exact .inside a p above hp (hwaits a ha)
  | returned a v hp hm ha => exact .returned a v hp hm (hwaits a ha)
  | throws a r hp hm ha => exact .throws a r hp hm (hthrows a ha)
  | fails a f hp hm => exact .fails a f hp hm

/-- a call of a waiting activation under way, or at its end -/
theorem of_waits (hthrows : ∀ a, waits a → throws a) {a : Activation} (ha : waits a)
    (above : List Pending) (hp : m.pending = above ++ .activation a :: rest)
    (hended : above = [] → m.Ended) : Tracks runs waits throws rest m := by
  cases above with
  | cons p above => exact .inside a p above hp ha
  | nil =>
    rcases hended rfl with ⟨v, hv⟩ | ⟨t, ht⟩
    · exact .returned a v hp hv ha
    · cases t with
      | exception r => exact .throws a r hp ht (hthrows a ha)
      | fault f => exact .fails a f hp ht

theorem of_executing (h : Tracks runs waits throws rest m) {a : Activation}
    (hp : m.pending = .activation a :: rest) (hmode : m.mode = .executing) : runs a := by
  cases h with
  | runs b hp' _ hb =>
    obtain rfl : a = b := by simpa using hp.symm.trans hp'
    exact hb
  | inside b p above hp' _ =>
    have hlen := congrArg List.length (hp.symm.trans hp')
    simp only [List.length_cons, List.length_append] at hlen
    omega
  | calls _ _ _ hmode' | returned _ _ _ hmode' | throws _ _ _ hmode' | fails _ _ _ hmode' =>
    exact absurd (hmode.symm.trans hmode') (by simp)

/-- **A step of a call** leaves the activation waiting, or ends the call -/
theorem step_of_calls (hthrows : ∀ a, waits a → throws a) (h : Tracks runs waits throws rest m)
    (hcalls : m.Calls rest) : Tracks runs waits throws rest (m.step w) := by
  -- without a call, nothing is above the activation
  have hidle {a : Activation} (hp : m.pending = .activation a :: rest) (hm : ∀ c, m.mode ≠ .calling c) :
      ¬ m.Calls rest := by
    rintro (⟨c, hc⟩ | hlt)
    · exact hm c hc
    · rw [hp, List.length_cons] at hlt
      omega
  cases h with
  | runs a hp hm ha => exact absurd hcalls (hidle hp (by simp [hm]))
  | returned a v hp hm ha => exact absurd hcalls (hidle hp (by simp [hm]))
  | throws a r hp hm ha => exact absurd hcalls (hidle hp (by simp [hm]))
  | fails a f hp hm => exact absurd hcalls (hidle hp (by simp [hm]))
  | calls a c hp hm ha =>
    have hstep : m.step w = m.call w c := by
      unfold Machine.step
      rw [hm]
    obtain ⟨above, habove, hended⟩ := call_pending w m c
    rw [hstep]
    exact of_waits hthrows ha above (habove.trans (by rw [hp])) hended
  | inside a p above hp ha =>
    obtain ⟨new, hnew, hended⟩ := step_pending (w := w) hp
    refine of_waits hthrows ha (new ++ above) (by rw [hnew, List.append_assoc]) fun hnil => ?_
    exact hended (List.append_eq_nil_iff.1 hnil).1

end Tracks
end Machine
end Resumable
