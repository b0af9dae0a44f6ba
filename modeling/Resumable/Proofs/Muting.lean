import Resumable.Proofs.Simulation
import Resumable.Proofs.Tracks

/-!
# Programs whose yields do nothing

What a program does apart from being suspended is what it does where yields do nothing.  There the
coroutine that runs its code stays as it is from the beginning to the end, as long as the program does
not use the storage of coroutines and resumes no other one.

* `World.muted` : the world in which yields do nothing;
* `World.target?_muted` : what calls run there;
* `Native.spares` : built-in methods that leave all coroutines alone;
* `Machine.InBody`, `Machine.InBody.step` : the body of a coroutine, which stays as it is.
-/

namespace Resumable

/-! ## yields that do nothing -/

/-- the method asks for a suspension -/
def Intrinsic.isYield : Intrinsic → Bool
  | .yield | .yieldWith => true
  | _ => false

/-- a method that does nothing in place of one of coroutines -/
def Intrinsic.mute (i : Intrinsic) : HostMethod := ⟨i.id, false, .nothing⟩

namespace Native

/-- the built-in method asks for a suspension -/
def isYield : Native → Bool
  | .intrinsic i => i.isYield
  | _ => false

/-- nothing is done in place of a yield -/
def mute (n : Native) : Native :=
  match n with
  | .intrinsic i => if i.isYield then .host i.mute else n
  | _ => n

theorem mute_yield {i : Intrinsic} (h : i.isYield = true) : (intrinsic i).mute = .host i.mute := if_pos h

theorem mute_of_not_isYield {n : Native} (h : n.isYield = false) : n.mute = n := by
  cases n with
  | intrinsic i => exact if_neg (by rw [show i.isYield = false from h]; simp)
  | _ => rfl

end Native

/-- what a call runs where yields do nothing -/
def Target.mute : Target → Target
  | .code m => .code m
  | .native n => .native n.mute

/-- the world in which yields do nothing -/
def World.muted (w : World) : World :=
  { w with hosts := [Intrinsic.yield.mute, Intrinsic.yieldWith.mute] ++ w.hosts }

/-- an intrinsic is found under its own identity -/
theorem Intrinsic.id_of_ofId? {id : MethodId} {i : Intrinsic} (h : ofId? id = some i) : i.id = id := by
  unfold ofId? at h
  split at h
  · rename_i howner
    have hfound := List.find?_some h
    rw [Bool.and_eq_true, beq_iff_eq, beq_iff_eq] at hfound
    obtain ⟨owner, name, desc⟩ := id
    rw [show owner = coroutineType from eq_of_beq howner]
    unfold Intrinsic.id
    rw [hfound.1, hfound.2]
  · exact absurd h (by simp)

namespace World

theorem program_muted (w : World) : w.muted.program = w.program := rfl

/-- host methods come before the ones that do nothing -/
theorem find?_muted (w : World) (id : MethodId) :
    Native.find? w.muted.hosts id = (Native.find? w.hosts id).map Native.mute := by
  have hhosts : (w.muted.hosts.reverse.find? fun h => h.method == id) =
      (w.hosts.reverse.find? fun h => h.method == id).or
        ([Intrinsic.yieldWith.mute, Intrinsic.yield.mute].find? fun h => h.method == id) := by
    unfold muted
    rw [List.reverse_append, List.find?_append]
    rfl
  unfold Native.find?
  rw [hhosts]
  cases w.hosts.reverse.find? fun h => h.method == id with
  | some h => rfl
  | none =>
    rw [Option.none_or]
    by_cases hwith : Intrinsic.yieldWith.id = id
    · subst hwith
      rfl
    · rw [List.find?_cons_of_neg (by simpa [Intrinsic.mute] using hwith)]
      by_cases hyield : Intrinsic.yield.id = id
      · subst hyield
        rfl
      · rw [List.find?_cons_of_neg (by simpa [Intrinsic.mute] using hyield), List.find?_nil]
        dsimp only
        cases hi : Intrinsic.ofId? id with
        | none => cases LibraryMethod.ofId? id <;> rfl
        | some i =>
          have hid := Intrinsic.id_of_ofId? hi
          have hplain : i.isYield = false := by
            cases i <;> first | rfl | exact absurd hid hyield | exact absurd hid hwith
          exact congrArg some (Native.mute_of_not_isYield (n := .intrinsic i) hplain).symm

theorem findAlong_muted (w : World) (k : InvokeKind) (id : MethodId) (cs : List String) :
    w.muted.findAlong k id cs = (w.findAlong k id cs).map (Option.map Target.mute) := by
  induction cs with
  | nil => rfl
  | cons c cs ih =>
    rw [findAlong, findAlong, find?_muted, ih, program_muted]
    cases (w.program.class? c).bind fun d => d.method? id.name id.desc with
    | some m =>
      dsimp only
      split <;> rfl
    | none =>
      dsimp only
      cases Native.find? w.hosts ⟨c, id.name, id.desc⟩ <;> rfl

/-- **What calls run** where yields do nothing -/
theorem target?_muted (w : World) (h : Heap) (c : Call) :
    w.muted.target? h c = (w.target? h c).map Target.mute := by
  unfold target?
  cases c.receiver? h with
  | none => rfl
  | some receiver =>
    rw [Option.bind_some, Option.bind_some, resolve_eq, resolve_eq, findAlong_muted, find?_muted, program_muted]
    cases w.findAlong c.kind c.method (w.program.superclassChain (c.method.searchStart c.kind receiver)) with
    | error f => rfl
    | ok found =>
      cases found with
      | some x => rfl
      | none => cases Native.find? w.hosts c.method <;> rfl

/-- a built-in method that a call runs is found under some identity -/
theorem find?_of_target? {w : World} {h : Heap} {c : Call} {n : Native} (ht : w.target? h c = some (.native n)) :
    ∃ id, Native.find? w.hosts id = some n ∧ id.name = c.method.name ∧ id.desc = c.method.desc := by
  have halong : ∀ cs, w.findAlong c.kind c.method cs = .ok (some (.native n)) →
      ∃ id, Native.find? w.hosts id = some n ∧ id.name = c.method.name ∧ id.desc = c.method.desc := by
    intro cs
    induction cs with
    | nil => exact fun h => absurd h (by simp [findAlong])
    | cons o cs ih =>
      intro h
      rw [findAlong] at h
      split at h
      · split at h <;> exact absurd h (by simp)
      · split at h
        · rename_i hfound
          obtain rfl : _ = n := by simpa using h
          exact ⟨_, hfound, rfl, rfl⟩
        · exact ih h
  unfold target? at ht
  obtain ⟨receiver, -, ht⟩ := Option.bind_eq_some_iff.1 ht
  have hresolve : w.resolve c.kind c.method receiver = .ok (.native n) := by
    revert ht
    cases w.resolve c.kind c.method receiver with
    | error f => exact fun ht => absurd ht (by simp [Except.toOption])
    | ok x => exact fun ht => by rw [Option.some.inj ht]
  rw [resolve_eq] at hresolve
  split at hresolve
  · exact absurd hresolve (by simp)
  · rename_i hfound
    exact halong _ (by rw [hfound, Except.ok.inj hresolve])
  · split at hresolve
    · rename_i hfound
      obtain rfl : _ = n := by simpa using hresolve
      exact ⟨_, hfound, rfl, rfl⟩
    · exact absurd hresolve (by simp)

end World

/-- the same methods are built in where yields do nothing -/
theorem World.hostsAlike_muted (w : World) : HostsAlike w.muted.hosts w.hosts := by
  intro id
  rw [find?_muted, Option.isSome_map]

/-- what a call runs where yields do nothing is what it runs, unless it is a yield -/
theorem World.native_of_muted {w : World} {h : Heap} {c : Call} {n : Native}
    (ht : w.muted.target? h c = some (.native n)) :
    ∃ n₀, w.target? h c = some (.native n₀) ∧ n = n₀.mute := by
  rw [target?_muted] at ht
  obtain ⟨x, hx, hmute⟩ := Option.map_eq_some_iff.1 ht
  cases x with
  | code m => exact absurd hmute (by simp [Target.mute])
  | native n₀ =>
    rw [Target.mute, Target.native.injEq] at hmute
    exact ⟨n₀, hx, hmute.symm⟩

/-- a host method stands under the name that it has -/
theorem Native.method_of_find? {hosts : List HostMethod} {id : MethodId} {h : HostMethod}
    (hfound : find? hosts id = some (.host h)) : h.method = id := by
  unfold find? at hfound
  split at hfound
  · rename_i g hg
    obtain rfl : g = h := by simpa using hfound
    exact eq_of_beq (List.find?_some (p := fun h : HostMethod => h.method == id) hg)
  · split at hfound
    · exact absurd hfound (by simp)
    · cases hl : LibraryMethod.ofId? id with
      | none => exact absurd hfound (by simp [hl])
      | some l => exact absurd hfound (by simp [hl])

/-- a method of coroutines stands under the name that it has -/
theorem Native.id_of_find? {hosts : List HostMethod} {id : MethodId} {i : Intrinsic}
    (hfound : find? hosts id = some (.intrinsic i)) : i.id = id := by
  unfold find? at hfound
  split at hfound
  · exact absurd hfound (by simp)
  · split at hfound
    · rename_i j hj
      obtain rfl : j = i := by simpa using hfound
      exact Intrinsic.id_of_ofId? hj
    · cases hl : LibraryMethod.ofId? id with
      | none => exact absurd hfound (by simp [hl])
      | some l => exact absurd hfound (by simp [hl])

/-- a built-in method that is called next and that is no yield is the same one where yields do nothing -/
theorem World.findsSame_muted {w : World} {m : Machine}
    (hyield : ∀ c n, m.mode = .calling c → w.target? m.heap c = some (.native n) → n.isYield = false) :
    m.FindsSame w.muted w.hosts := by
  intro c id n n' hc ht hfound hfound'
  rw [find?_muted, hfound'] at hfound
  obtain rfl : n'.mute = n := by simpa using hfound
  cases hn : n'.isYield with
  | false => exact (Native.mute_of_not_isYield hn).symm
  | true =>
    -- then a host method under the name of the yield would be called, and found instead of it
    cases n' with
    | intrinsic i =>
      obtain ⟨n₀, ht₀, hmute⟩ := native_of_muted ht
      have hi : i.isYield = true := hn
      rw [Native.mute_of_not_isYield (hyield c n₀ hc ht₀)] at hmute
      subst hmute
      obtain ⟨id₀, hfound₀, -⟩ := find?_of_target? ht₀
      rw [Native.mute_yield hi] at hfound₀
      have hid : i.id = id₀ := Native.method_of_find? hfound₀
      rw [← hid, Native.id_of_find? hfound', hfound'] at hfound₀
      exact absurd hfound₀ (by simp)
    | _ => exact absurd hn (by simp [Native.isYield])

/-- **A call** runs what it finds, or fails, or has no receiver -/
theorem Machine.call_cases (w : World) (m : Machine) (c : Call) :
    (∃ x, w.target? m.heap c = some x ∧ m.call w c = m.enter c.args x) ∨
    (∃ f, m.call w c = m.fault f) ∨ ∃ type message, m.call w c = m.throwNew type message := by
  have hon (r : Option String) (hr : c.receiver? m.heap = some r) :
      (∃ x, w.target? m.heap c = some x ∧ m.callOn w c r = m.enter c.args x) ∨
      ∃ f, m.callOn w c r = m.fault f := by
    unfold callOn World.target?
    rw [hr, Option.bind_some]
    cases w.resolve c.kind c.method r with
    | ok x => exact .inl ⟨x, rfl, rfl⟩
    | error f => exact .inr ⟨f, rfl⟩
  unfold call
  by_cases hk : c.kind.hasReceiver = true
  · rw [if_pos hk]
    split
    · rename_i r ha
      exact (hon _ (by unfold Call.receiver?; rw [if_pos hk, ha])).imp_right .inl
    · exact .inr (.inr ⟨_, _, rfl⟩)
    · exact .inr (.inl ⟨_, rfl⟩)
  · rw [if_neg hk]
    exact (hon _ (by unfold Call.receiver?; rw [if_neg hk])).imp_right .inl

/-- a call runs what it finds -/
theorem Machine.call_of_target? {w : World} {m : Machine} {c : Call} {x : Target}
    (hx : w.target? m.heap c = some x) : m.call w c = m.enter c.args x := by
  unfold World.target? at hx
  obtain ⟨receiver, hr, hx⟩ := Option.bind_eq_some_iff.1 hx
  have hon : m.callOn w c receiver = m.enter c.args x := by
    unfold callOn
    revert hx
    cases w.resolve c.kind c.method receiver with
    | error f => exact fun hx => absurd hx (by simp [Except.toOption])
    | ok y => exact fun hx => by rw [Option.some.inj hx]
  unfold call
  unfold Call.receiver? at hr
  by_cases hk : c.kind.hasReceiver = true
  · rw [if_pos hk] at hr ⊢
    split at hr
    · rename_i r ha
      obtain rfl := Option.some.inj hr
      rw [ha]
      exact hon
    · exact absurd hr (by simp)
  · rw [if_neg hk] at hr ⊢
    obtain rfl := Option.some.inj hr
    exact hon

/-! ## coroutines left alone -/

namespace Engine

/-- one coroutine runs, and no other one -/
structure Alone {β κ : Type} (e : Engine β κ) (c : Coroutine β κ) : Prop where
  runs : e.Runs c
  active : e.active = [c.id]
  numbered : e.Numbered

end Engine

namespace Performing

open Effect

variable {α β : Type}

/-- the coroutine that runs stays as it is, and no other one runs -/
def Spares (x : Performing α) : Prop :=
  ∀ m c, m.engine.Alone c → (x.run m).2.engine.Alone c

theorem Confined.spares {x : Performing α} (hx : Confined x) : Spares x := by
  obtain ⟨f, hf, -⟩ := hx
  intro m c hm
  rw [hf]
  exact hm

theorem Spares.bind {x : Performing α} {k : α → Performing β} (hx : Spares x) (hk : ∀ a, Spares (k a)) :
    Spares (x >>= k) := by
  intro m c hm
  have hafter := hx m c hm
  rw [run_bind]
  generalize x.run m = y at hafter
  obtain ⟨r, m'⟩ := y
  cases r with
  | error t => exact hafter
  | ok a => exact hk a m' c hafter

theorem spares_coroutines : Spares coroutines := fun _ _ hm => hm

theorem spares_create (body : Call) :
    Spares (engine fun e => (.ok (e.create body).1, (e.create body).2)) := by
  intro m c hm
  rw [run_engine]
  exact ⟨hm.runs.create body, hm.active, hm.numbered.create body⟩

end Performing

open Performing

/-- the method leaves all coroutines alone, those apart that it creates -/
def Intrinsic.spares : Intrinsic → Bool
  | .exists | .get | .isYielding | .isDone | .initSuspended | .invalidDispatch => true
  | _ => false

/-- the built-in method leaves all coroutines alone, those apart that it creates -/
def Native.spares : Native → Bool
  | .intrinsic i => i.spares
  | .library _ => true
  | .host h => !h.yields

theorem Native.not_isYield_of_spares {n : Native} (h : n.spares = true) : n.isYield = false := by
  cases n with
  | intrinsic i => cases i <;> first | rfl | exact absurd h (by simp [spares, Intrinsic.spares])
  | _ => rfl

theorem Native.not_isStorage_of_spares {n : Native} (h : n.spares = true) : n.isStorage = false := by
  cases n with
  | intrinsic i => cases i <;> first | rfl | exact absurd h (by simp [spares, Intrinsic.spares])
  | _ => rfl

theorem Native.not_resumes_of_spares {n : Native} (h : n.spares = true) : n.resumes = false := by
  cases n with
  | intrinsic i => cases i <;> first | rfl | exact absurd h (by simp [spares, Intrinsic.spares])
  | _ => rfl

theorem Native.spares_perform {n : Native} (h : n.spares = true) (args : List Value) :
    Spares (n.perform args) := by
  cases n with
  | library l => exact ((l.confined_perform args).bind fun _ => .pure _).spares
  | host g =>
    refine Confined.spares (.bind ?_ fun _ => .pure _)
    have hyields : g.yields = false := by simpa [spares] using h
    unfold HostMethod.perform
    rw [hyields]
    exact g.reply.confined_perform args
  | intrinsic i =>
    cases i with
    | «exists» => exact spares_coroutines.bind fun _ => Confined.spares (.pure _)
    | get => exact spares_coroutines.bind fun _ => Confined.spares (.pure _)
    | isYielding => exact spares_coroutines.bind fun _ => Confined.spares (.pure _)
    | isDone =>
      exact (confined_coroutineArg args 0).spares.bind fun _ =>
        spares_coroutines.bind fun _ => Confined.spares (.pure _)
    | initSuspended =>
      exact (confined_nonNullArg args 0).spares.bind fun r =>
        (spares_create (Call.ofRunnable r)).bind fun _ => Confined.spares (.pure _)
    | invalidDispatch =>
      exact Confined.spares (.bind (confined_stringArg args 0) fun _ => confined_fault _)
    | _ => exact absurd h (by simp [spares, Intrinsic.spares])

/-! ## the body of a coroutine -/

namespace Machine

variable {w : World} {m : Machine} {c : Coroutine Call Call} {body : Call}

/-- the body of a coroutine runs, with activations above it and nothing else -/
structure InBody (c : Coroutine Call Call) (body : Call) (m : Machine) : Prop where
  alone : m.engine.Alone c
  under : ∃ above : List Activation, m.pending = above.map .activation ++ [.body c.id body]

/-- the body is about to end -/
def Leaving (m : Machine) (id : Nat) (body : Call) : Prop :=
  m.pending = [.body id body] ∧ ((∃ v, m.mode = .returning v) ∨ ∃ t, m.mode = .throwing t)

/-- a built-in method that leaves coroutines alone -/
theorem InBody.native {n : Native} (h : m.InBody c body) (hn : n.spares = true) (args : List Value) :
    (m.runNative n args).InBody c body := by
  have hengine := Native.spares_perform hn args m c h.alone
  have hpending := n.quiet args m
  have hbody := Native.bodiless (Native.not_resumes_of_spares hn) args m
  unfold runNative
  generalize (n.perform args).run m = r at hengine hpending hbody
  obtain ⟨result, m'⟩ := r
  have hunder : ∃ above : List Activation, m'.pending = above.map .activation ++ [.body c.id body] := by
    rw [show m'.pending = m.pending from hpending]
    exact h.under
  cases result with
  | error t => exact ⟨hengine, hunder⟩
  | ok o =>
    cases o with
    | result v => exact ⟨hengine, hunder⟩
    | body id call => exact absurd rfl (hbody m' id call)

/-- an activation goes on above others, or has ended -/
def Above (m : Machine) (rest : List Pending) (m₁ : Machine) : Prop :=
  m₁.engine = m.engine ∧ (m₁.pending = rest ∨ ∃ a, m₁.pending = .activation a :: rest)

theorem above_execute (w : World) (m : Machine) (a : Activation) (rest : List Pending) :
    m.Above rest (m.execute w a rest) := by
  unfold execute
  split
  · exact ⟨rfl, .inl rfl⟩
  · rename_i i hi
    generalize (i.exec w.program).run ⟨m.heap, m.statics, a⟩ = r
    obtain ⟨result, s⟩ := r
    cases result with
    | error t => exact ⟨rfl, .inr ⟨_, rfl⟩⟩
    | ok o =>
      cases o with
      | finish v => exact ⟨rfl, .inl rfl⟩
      | jump l =>
        dsimp only [follow]
        split
        · exact ⟨rfl, .inr ⟨_, rfl⟩⟩
        · exact ⟨rfl, .inl rfl⟩
      | _ => exact ⟨rfl, .inr ⟨_, rfl⟩⟩

theorem above_catchIn (w : World) (m : Machine) (a : Activation) (rest : List Pending) (t : Throw) :
    m.Above rest (m.catchIn w a rest t) := by
  unfold catchIn
  cases t with
  | fault f => exact ⟨rfl, .inl rfl⟩
  | exception r =>
    dsimp only
    split
    · exact ⟨rfl, .inr ⟨_, rfl⟩⟩
    · exact ⟨rfl, .inl rfl⟩
    · exact ⟨rfl, .inl rfl⟩

theorem InBody.above {m₁ : Machine} {rest : List Pending} {as : List Activation} (h : m.InBody c body)
    (hrest : rest = as.map .activation ++ [.body c.id body]) (habove : m.Above rest m₁) :
    m₁.InBody c body := by
  refine ⟨by rw [habove.1]; exact h.alone, ?_⟩
  rcases habove.2 with hp | ⟨a, hp⟩
  · exact ⟨as, hp.trans hrest⟩
  · exact ⟨a :: as, by rw [hp, hrest]; rfl⟩

/-- **One step** leaves the coroutine as it is, unless its body ends -/
theorem InBody.step (h : m.InBody c body)
    (hnatives : ∀ call n, m.mode = .calling call → w.target? m.heap call = some (.native n) →
      n.spares = true)
    (hleaving : ¬ m.Leaving c.id body) : (m.step w).InBody c body := by
  obtain ⟨as, hp⟩ := h.under
  cases hmode : m.mode with
  | calling call =>
    have hstep : m.step w = m.call w call := by
      unfold Machine.step
      rw [hmode]
    rw [hstep]
    rcases m.call_cases w call with ⟨x, hx, hcall⟩ | ⟨f, hcall⟩ | ⟨type, message, hcall⟩
    · rw [hcall]
      cases x with
      | code m₁ => exact h.above hp ⟨rfl, .inr ⟨_, rfl⟩⟩
      | native n => exact h.native (hnatives call n hmode hx) call.args
    · rw [hcall]
      exact h.above hp ⟨rfl, .inl rfl⟩
    · rw [hcall]
      exact h.above hp ⟨rfl, .inl rfl⟩
  | executing =>
    cases as with
    | nil =>
      have hstep : m.step w = m := by
        unfold Machine.step
        rw [hmode, hp]
        rfl
      rw [hstep]
      exact h
    | cons a as =>
      have hstep : m.step w = m.execute w a (as.map .activation ++ [.body c.id body]) := by
        unfold Machine.step
        rw [hmode, hp]
        rfl
      rw [hstep]
      exact h.above rfl (above_execute w m a _)
  | returning v =>
    cases as with
    | nil => exact absurd ⟨hp, .inl ⟨v, hmode⟩⟩ hleaving
    | cons a as =>
      have hstep : m.step w = m.deliver v (as.map .activation ++ [.body c.id body]) (.activation a) := by
        unfold Machine.step
        rw [hmode, hp]
        rfl
      rw [hstep, deliver_activation]
      exact h.above rfl ⟨rfl, .inr ⟨_, rfl⟩⟩
  | throwing t =>
    cases as with
    | nil => exact absurd ⟨hp, .inr ⟨t, hmode⟩⟩ hleaving
    | cons a as =>
      have hstep : m.step w = m.catchIn w a (as.map .activation ++ [.body c.id body]) t := by
        unfold Machine.step
        rw [hmode, hp]
        rfl
      rw [hstep]
      exact h.above rfl (above_catchIn w m a _ t)

end Machine
end Resumable
