import Resumable.Proofs.Tracks
import Resumable.Proofs.Twins

/-!
# The end of a suspended activation

The code with which an activation saves its level moves values and calls methods of coroutines.  Whatever
its operands and the coroutines are like, it throws no object: it ends the activation, or fails by a fault.

* `Exec.Mild`, `Performing.Mild` : computations that throw no object;
* `Insn.Moves`, `Intrinsic.isGentle` : the instructions of the save block, and the methods that it calls;
* `Machine.Fails`, `Machine.leads_along` : such code leads to its end, or to a fault;
* `Machine.leads_saved` : the save block leads to the end of its activation, or to a fault.
-/

namespace Resumable

open Effect

/-! ## instructions -/

namespace Exec

variable {α β : Type} {x : Exec α}

/-- the computation throws no object -/
def Mild (x : Exec α) : Prop := ∀ (s : Scope) (r : Ref), (x.run s).1 ≠ .error (.exception r)

theorem Mild.pure (v : α) : Mild (Pure.pure v : Exec α) := fun _ _ h => nomatch h

theorem Mild.fault (f : Fault) : Mild (Exec.fault f : Exec α) := fun _ _ h => nomatch h

theorem Mild.bind {k : α → Exec β} (hx : Mild x) (hk : ∀ a, Mild (k a)) : Mild (x >>= k) := by
  intro s r
  have hs := hx s r
  rw [run_bind]
  generalize x.run s = y at hs
  obtain ⟨v, t⟩ := y
  cases v with
  | error e => exact fun h => hs (congrArg Except.error (Except.error.inj h))
  | ok a => exact hk a t r

theorem mild_push (v : Value) : Mild (push v) := fun _ _ h => nomatch h

theorem mild_get : Mild (get : Exec Scope) := fun _ _ h => nomatch h

theorem mild_set (s : Scope) : Mild (set s : Exec PUnit) := fun _ _ h => nomatch h

theorem mild_illTyped (k : Kind) (v : Value) : Mild (illTyped k v : Exec α) :=
  mild_get.bind fun _ => .fault _

theorem mild_pop : Mild pop := by
  refine mild_get.bind fun s => ?_
  split
  · exact .fault _
  · exact (mild_set _).bind fun _ => .pure _

theorem mild_popKind (k : Kind) : Mild (popKind k) := by
  refine mild_pop.bind fun v => ?_
  split
  · exact .pure _
  · exact mild_illTyped k v

theorem mild_popArgs (n : Nat) : Mild (popArgs n) := by
  refine mild_get.bind fun s => ?_
  split
  · exact (mild_set _).bind fun _ => .pure _
  · exact .fault _

theorem mild_getLocal (slot : UInt16) : Mild (getLocal slot) := by
  refine mild_get.bind fun s => ?_
  split
  · exact .pure _
  · exact .fault _

theorem mild_execInvoke (k : InvokeKind) (m : MethodId) : Mild (Insn.execInvoke k m) := by
  unfold Insn.execInvoke
  split
  · exact .fault _
  · exact (mild_popArgs _).bind fun _ => .pure _

end Exec

namespace Insn

open Exec

variable {p : Program} {i : Insn}

/-- the instruction moves a constant or a local to the operands, or drops an operand -/
def Moves : Insn → Prop
  | .load .. | .pop | .pop2 | .nullConst | .intConst _ | .longConst _ | .floatConst _ | .doubleConst _ => True
  | _ => False

/-- such an instruction is followed by the next one, or fails by a fault -/
theorem Moves.exec (hi : i.Moves) :
    Mild (i.exec p) ∧ Gives (i.exec p) fun o => o = .next := by
  have hplain (h : Mild (execPlain p i)) : Mild (execPlain p i >>= fun _ => pure After.next) ∧
      Gives (execPlain p i >>= fun _ => pure After.next) fun o => o = .next :=
    ⟨h.bind fun _ => .pure _, .bind fun _ => .pure rfl⟩
  cases i with
  | load k slot =>
    refine hplain ((mild_getLocal slot).bind fun v => ?_)
    split
    · exact mild_push v
    · exact mild_illTyped k v
  | pop => exact hplain (mild_pop.bind fun _ => .pure _)
  | pop2 =>
    refine hplain (mild_pop.bind fun v => ?_)
    split
    · exact mild_pop.bind fun _ => .pure _
    · exact .pure _
  | nullConst | intConst | longConst | floatConst | doubleConst => exact hplain (mild_push _)
  | _ => exact absurd hi (by simp [Moves])

theorem moves_zeroInsn (k : Kind) : k.zeroInsn.Moves := by cases k <;> trivial

theorem moves_discardInsn (k : Kind) : k.discardInsn.Moves := by
  unfold Kind.discardInsn
  split <;> trivial

theorem mild_ret (k : Option Kind) : Mild ((Insn.ret k).exec p) := by
  cases k with
  | none => exact .pure _
  | some k => exact (mild_popKind k).bind fun _ => .pure _

end Insn

/-! ## methods of coroutines -/

namespace Performing

variable {α β : Type} {x : Performing α}

/-- the computation throws no object -/
def Mild (x : Performing α) : Prop := ∀ (m : Machine) (r : Ref), (x.run m).1 ≠ .error (.exception r)

/-- the computation throws no object, and gives a result if it gives anything -/
structure Answers (x : Performing Performed) : Prop where
  mild : Mild x
  result : ∀ m id c, (x.run m).1 ≠ .ok (.body id c)

theorem Mild.pure (v : α) : Mild (Pure.pure v : Performing α) := fun _ _ h => nomatch h

theorem Mild.fault (f : Fault) : Mild (Performing.fault f : Performing α) := fun _ _ h => nomatch h

theorem Mild.bind {k : α → Performing β} (hx : Mild x) (hk : ∀ a, Mild (k a)) : Mild (x >>= k) := by
  intro m r
  have hm := hx m r
  rw [run_bind]
  generalize x.run m = y at hm
  obtain ⟨v, t⟩ := y
  cases v with
  | error e => exact fun h => hm (congrArg Except.error (Except.error.inj h))
  | ok a => exact hk a t r

/-- something that throws no object, and then a result -/
theorem Mild.answers {k : α → Option Value} (hx : Mild x) : Answers (x >>= fun a => Pure.pure (.result (k a))) := by
  refine ⟨hx.bind fun _ => .pure _, fun m id c => ?_⟩
  rw [run_bind]
  generalize x.run m = y
  obtain ⟨v, t⟩ := y
  cases v <;> exact fun h => nomatch h

theorem Answers.bind {k : α → Performing Performed} (hx : Mild x) (hk : ∀ a, Answers (k a)) :
    Answers (x >>= k) := by
  refine ⟨hx.bind fun a => (hk a).mild, fun m id c => ?_⟩
  rw [run_bind]
  generalize x.run m = y
  obtain ⟨v, t⟩ := y
  cases v with
  | error e => exact fun h => nomatch h
  | ok a => exact (hk a).result t id c

theorem mild_engine (op : Engine Call Call → Except Violation α × Engine Call Call) : Mild (engine op) := by
  intro m r
  rw [run_engine]
  cases (op m.engine).1 <;> exact fun h => nomatch h

theorem mild_arg (args : List Value) (n : Nat) : Mild (arg args n) := by
  unfold arg
  split
  · exact .pure _
  · exact .fault _

theorem mild_heap : Mild heap := fun _ _ h => nomatch h

theorem mild_intArg (args : List Value) (n : Nat) : Mild (intArg args n) := by
  refine (mild_arg args n).bind fun v => ?_
  split
  · exact .pure _
  · exact mild_heap.bind fun _ => .fault _

theorem mild_refArg (args : List Value) (n : Nat) : Mild (refArg args n) := by
  refine (mild_arg args n).bind fun v => ?_
  split
  · exact .pure _
  · exact mild_heap.bind fun _ => .fault _

end Performing

namespace Intrinsic

open Performing

/-- the save block calls the method -/
def isGentle : Intrinsic → Bool
  | .pushState | .push _ | .pushCompanion | .discardCompanion | .commitStaging | .endStaging => true
  | _ => false

variable {i : Intrinsic}

theorem isInjected_of_isGentle (hi : i.isGentle = true) : i.isInjected = true := by
  cases i with
  | pushState | push | pushCompanion | discardCompanion | commitStaging | endStaging => rfl
  | _ => exact absurd hi (by simp [isGentle])

/-- such a method throws no object -/
theorem answers_perform (hi : i.isGentle = true) (args : List Value) : Answers (i.perform args) := by
  cases i with
  | pushState => exact .bind (mild_intArg args 0) fun _ => (mild_engine _).answers
  | push => exact .bind (mild_arg args 0) fun _ => (mild_engine _).answers
  | pushCompanion => exact .bind (mild_refArg args 0) fun _ => (mild_engine _).answers
  | discardCompanion | commitStaging | endStaging => exact (mild_engine _).answers
  | _ => exact absurd hi (by simp [isGentle])

end Intrinsic

/-- the instruction moves a value, or calls a method that the save block calls -/
def Insn.IsGentle (i : Insn) : Prop := i.Moves ∨ ∃ j : Intrinsic, j.isGentle = true ∧ i = j.call

/-! ## runs -/

namespace Machine

variable {w : World} {s m : Machine} {x : Activation} {rest : List Pending} {is : List Insn}
  {S : Nat → Prop}

/-- the activation above others fails by a fault -/
def Fails (rest : List Pending) (m : Machine) : Prop :=
  ∃ a f, m.pending = .activation a :: rest ∧ m.mode = .throwing (.fault f)

/-- an activation of the method above others is about to execute the instruction at the position -/
def IsAt (method : Method) (position : Nat) (rest : List Pending) (m : Machine) : Prop :=
  ∃ (s : Machine) (x : Activation), m = s.goOn x rest ∧ x.method = method ∧ x.position = position

/-- what is above others has ended without throwing an object -/
def Leaves (rest : List Pending) (m : Machine) : Prop :=
  m.pending = rest ∧ ∀ r, m.mode ≠ .throwing (.exception r)

/-- an activation goes on at the position, or fails -/
def GoesOrFails (method : Method) (position : Nat) (rest : List Pending) (m : Machine) : Prop :=
  m.IsAt method position rest ∨ m.Fails rest

/-- an instruction that moves a value -/
theorem leads_moves {i : Insn} (hS : S x.position) (hi : i.Moves)
    (hcode : x.method.code[x.position]? = some i) :
    Leads w S (GoesOrFails x.method (x.position + 1) rest) (s.goOn x rest) := by
  obtain ⟨f, hf⟩ := i.framed_exec (p := w.program)
  obtain ⟨hmild, hnext⟩ := hi.exec (p := w.program)
  have hrun := hf s.heap s.statics x
  have hnothrow := hmild ⟨s.heap, s.statics, x⟩
  have hgives := hnext ⟨s.heap, s.statics, x⟩
  rw [hrun] at hnothrow hgives
  generalize f s.heap s.statics x.locals x.stack = y at hrun hnothrow hgives
  obtain ⟨r, heap, statics, locals, stack⟩ := y
  cases r with
  | error t =>
    cases t with
    | exception r => exact absurd rfl (hnothrow r)
    | fault e =>
      refine .step (.of_step rfl hS (step_of_throw hcode hrun) fun r hr => nomatch hr) (.here ?_)
      rw [step_of_throw hcode hrun]
      exact .inr ⟨_, e, rfl, rfl⟩
  | ok o =>
    obtain rfl := hgives _ _ rfl
    refine .step (.of_step rfl hS (step_of_run hcode hrun) fun r hr => nomatch hr) (.here ?_)
    rw [step_of_run hcode hrun]
    exact .inl ⟨_, _, rfl, rfl, rfl⟩

/-- the end of a call of a method of coroutines that throws no object -/
theorem leads_answer {i : Intrinsic} (hS : S x.position) (hw : w.Supplies) (hi : i.isGentle = true)
    {args : List Value}     (hp : m.pending = .activation x :: rest) (hm : m.mode = .calling ⟨.static, i.id, args⟩) :
    Leads w S (GoesOrFails x.method (x.position + 1) rest) m := by
  have hstep := step_injected hw (Intrinsic.isInjected_of_isGentle hi) hm
  obtain ⟨hmild, hresult⟩ := i.answers_perform hi args
  have hquiet := Native.quiet (.intrinsic i) args m
  have hnothrow := hmild m
  have hanswer := hresult m
  unfold runNative at hstep
  rw [show (Native.intrinsic i).perform args = i.perform args from rfl] at hstep hquiet
  generalize (i.perform args).run m = y at hstep hquiet hnothrow hanswer
  obtain ⟨r, m'⟩ := y
  replace hquiet : m'.pending = .activation x :: rest := Eq.trans hquiet hp
  cases r with
  | error t =>
    cases t with
    | exception r => exact absurd rfl (hnothrow r)
    | fault e =>
      refine .step (.of_step hp hS hstep fun r hr => nomatch hr) (.here ?_)
      rw [hstep]
      exact .inr ⟨x, e, hquiet, rfl⟩
  | ok o =>
    cases o with
    | body id c => exact absurd rfl (hanswer id c)
    | result v =>
      refine .step (.of_step hp hS hstep fun r hr => nomatch hr) ?_
      rw [hstep]
      obtain ⟨heap, statics, console, engine, pending, mode⟩ := m'
      dsimp only at hquiet
      subst hquiet
      refine .step (.of_step rfl hS rfl fun r hr => ?_) (.here ?_)
      · cases v <;> exact nomatch hr
      · cases v with
        | none => exact .inl ⟨_, x.advance, rfl, rfl, rfl⟩
        | some u => exact .inl ⟨_, (x.push u).advance, rfl, rfl, rfl⟩

/-- a call of a method of coroutines that throws no object -/
theorem leads_gentle {i : Intrinsic} (hS : S x.position) (hw : w.Supplies) (hi : i.isGentle = true)
    (hcode : x.method.code[x.position]? = some i.call) :
    Leads w S (GoesOrFails x.method (x.position + 1) rest) (s.goOn x rest) := by
  obtain ⟨f, hf⟩ := i.call.framed_exec (p := w.program)
  have hmild : Exec.Mild (i.call.exec w.program) :=
    (Exec.mild_execInvoke .static i.id).bind fun _ => .pure _
  have hgives : Exec.Gives (i.call.exec w.program) fun o => ∃ args, o = .call ⟨.static, i.id, args⟩ := by
    refine .of_bind (Insn.gives_execInvoke .static i.id) fun c hc => .pure ⟨c.args, ?_⟩
    rw [← hc.1, ← hc.2]
  have hrun := hf s.heap s.statics x
  have hnothrow := hmild ⟨s.heap, s.statics, x⟩
  have hcall := hgives ⟨s.heap, s.statics, x⟩
  rw [hrun] at hnothrow hcall
  generalize f s.heap s.statics x.locals x.stack = y at hrun hnothrow hcall
  obtain ⟨r, heap, statics, locals, stack⟩ := y
  cases r with
  | error t =>
    cases t with
    | exception r => exact absurd rfl (hnothrow r)
    | fault e =>
      refine .step (.of_step rfl hS (step_of_throw hcode hrun) fun r hr => nomatch hr) (.here ?_)
      rw [step_of_throw hcode hrun]
      exact .inr ⟨_, e, rfl, rfl⟩
  | ok o =>
    obtain ⟨args, rfl⟩ := hcall _ _ rfl
    refine .step (.of_step rfl hS (step_of_run hcode hrun) fun r hr => nomatch hr) ?_
    rw [step_of_run hcode hrun]
    exact leads_answer (x := { x with locals, stack }) hS hw hi rfl rfl

/-- a call from injected code whose method fails -/
theorem fails_injected {i : Intrinsic} (args : List Value) {stack : List Value} {f : Fault}
    (hS : S x.position) (hw : w.Supplies)
    (hi : i.isInjected = true) (hcode : x.method.code[x.position]? = some i.call)
    (hs : x.stack = args.reverse ++ stack) (hn : args.length = i.arity)
    (hp : ∀ m' : Machine, m'.engine = s.engine →
      ∃ e, (i.perform args).run m' = (.error (.fault f), { m' with engine := e })) :
    Leads w S (Fails rest) (s.goOn x rest) := by
  obtain ⟨d, hd, hlen⟩ := i.parse?_desc
  have hcall : (s.goOn x rest).step w = { s with
      pending := .activation { x with stack } :: rest, mode := .calling ⟨.static, i.id, args⟩ } :=
    step_call hcode (Insn.run_invoke hd (by rw [hn, hlen]; rfl) hs)
  refine .step (.of_step rfl hS hcall fun r hr => nomatch hr) ?_
  rw [hcall]
  obtain ⟨e, he⟩ := hp { s with
    pending := .activation { x with stack } :: rest, mode := .calling ⟨.static, i.id, args⟩ } rfl
  have hstep := step_injected (m := { s with
    pending := .activation { x with stack } :: rest, mode := .calling ⟨.static, i.id, args⟩ }) hw hi rfl
  unfold runNative at hstep
  rw [show (Native.intrinsic i).perform args = i.perform args from rfl, he] at hstep
  refine .step (.of_step (x := { x with stack }) rfl hS hstep fun r hr => nomatch hr) (.here ?_)
  rw [hstep]
  exact ⟨_, f, rfl, rfl⟩

/-- **Code of such instructions** leads to its end, or to a fault -/
theorem leads_along {method : Method} {position : Nat} (hS : ∀ n, n < is.length → S (position + n))
    (hw : w.Supplies) (his : ∀ i ∈ is, i.IsGentle)
    (hcode : Holds method.code position is) (hm : m.IsAt method position rest) :
    Leads w S (GoesOrFails method (position + is.length) rest) m := by
  induction is generalizing position m with
  | nil => exact .here (.inl hm)
  | cons i is ih =>
    obtain ⟨s, x, rfl, rfl, rfl⟩ := hm
    have hone : Leads w S (GoesOrFails x.method (x.position + 1) rest) (s.goOn x rest) := by
      rcases his i List.mem_cons_self with hi | ⟨j, hj, rfl⟩
      · exact leads_moves (hS 0 (Nat.succ_pos _)) hi hcode.head
      · exact leads_gentle (hS 0 (Nat.succ_pos _)) hw hj hcode.head
    refine hone.bind fun m' hm' => ?_
    rcases hm' with hat | hfails
    · rw [List.length_cons, Nat.add_comm is.length, ← Nat.add_assoc]
      refine ih (fun n hn => ?_) (fun i hi => his i (List.mem_cons_of_mem _ hi)) hcode.tail hat
      rw [Nat.add_assoc, Nat.add_comm 1]
      exact hS (n + 1) (Nat.succ_lt_succ hn)
    · exact .here (.inr hfails)

/-- the end of an activation -/
theorem leads_ret {k : Option Kind} (hS : S x.position)
    (hcode : x.method.code[x.position]? = some (.ret k)) :
    Leads w S (fun m => m.Leaves rest ∨ m.Fails rest) (s.goOn x rest) := by
  have hmild := Insn.mild_ret (p := w.program) k ⟨s.heap, s.statics, x⟩
  generalize hrun : ((Insn.ret k).exec w.program).run ⟨s.heap, s.statics, x⟩ = y at hmild
  obtain ⟨r, heap, statics, x'⟩ := y
  cases r with
  | error t =>
    cases t with
    | exception r => exact absurd rfl (hmild r)
    | fault e =>
      refine .step (.of_step rfl hS (step_of_throw hcode hrun) fun r hr => nomatch hr) (.here ?_)
      rw [step_of_throw hcode hrun]
      exact .inr ⟨_, e, rfl, rfl⟩
  | ok o =>
    have hfits := Insn.exec_fits _ _ _ hrun
    cases o with
    | finish v =>
      refine .step (.of_step rfl hS (step_of_run hcode hrun) fun r hr => nomatch hr) (.here ?_)
      rw [step_of_run hcode hrun]
      exact .inl ⟨rfl, fun r hr => nomatch hr⟩
    | next => exact absurd hfits (by simp [After.Fits, Insn.fallsThrough])
    | jump l => exact absurd hfits (by simp [After.Fits, Insn.targets])
    | call c => exact absurd hfits (by simp [After.Fits])

end Machine

/-! ## the save block -/

/-- the instructions of the save block in front of the return -/
def saveFront (a : Analysis) (site : Site) (f : Frame) (s : CallShape) : List Insn :=
  (s.result.map Kind.discardInsn).toList ++
  (if site.unpatchable then [Intrinsic.discardCompanion.call, Intrinsic.commitStaging.call]
    else []) ++
  s.below.flatMap saveValue ++
  (slotted f.locals).flatMap (fun e => saveLocal e.1 e.2) ++
  [.intConst (Int32.ofNat site.index), Intrinsic.pushState.call] ++
  companionCode a.isStatic a.rootEntry

theorem gentle_saveValue (c : Category) : ∀ i ∈ saveValue c, i.IsGentle := by
  intro i hi
  unfold saveValue at hi
  split at hi
  · rename_i k _
    split at hi
    · obtain rfl := List.mem_singleton.1 hi
      exact .inl trivial
    · obtain rfl := List.mem_singleton.1 hi
      exact .inr ⟨.push k, rfl, rfl⟩
  · exact absurd hi (by simp)

theorem gentle_saveLocal (slot : UInt16) (c : Category) : ∀ i ∈ saveLocal slot c, i.IsGentle := by
  intro i hi
  unfold saveLocal at hi
  split at hi
  · rename_i k _
    rcases List.mem_cons.1 hi with rfl | hi
    · exact .inl trivial
    · obtain rfl := List.mem_singleton.1 hi
      exact .inr ⟨.push k, rfl, rfl⟩
  · exact absurd hi (by simp)

theorem gentle_companionCode (isStatic rootEntry : Bool) :
    ∀ i ∈ companionCode isStatic rootEntry, i.IsGentle := by
  intro i hi
  have hpush : Intrinsic.pushCompanion.call.IsGentle := .inr ⟨.pushCompanion, rfl, rfl⟩
  unfold companionCode at hi
  split at hi
  · split at hi
    · simp only [List.mem_cons, List.not_mem_nil, or_false] at hi
      rcases hi with rfl | rfl
      · exact .inl trivial
      · exact hpush
    · exact absurd hi (by simp)
  · simp only [List.mem_cons, List.not_mem_nil, or_false] at hi
    rcases hi with rfl | rfl
    · exact .inl trivial
    · exact hpush

theorem gentle_saveFront (a : Analysis) (site : Site) (f : Frame) (s : CallShape) :
    ∀ i ∈ saveFront a site f s, i.IsGentle := by
  intro i hi
  simp only [saveFront, List.mem_append, List.mem_flatMap, Option.mem_toList, Option.map_eq_some_iff] at hi
  rcases hi with ((((⟨k, -, rfl⟩ | hi) | ⟨c, -, hi⟩) | ⟨e, -, hi⟩) | hi) | hi
  · exact .inl (Insn.moves_discardInsn k)
  · split at hi
    · simp only [List.mem_cons, List.not_mem_nil, or_false] at hi
      rcases hi with rfl | rfl
      · exact .inr ⟨.discardCompanion, rfl, rfl⟩
      · exact .inr ⟨.commitStaging, rfl, rfl⟩
    · exact absurd hi (by simp)
  · exact gentle_saveValue c i hi
  · exact gentle_saveLocal e.1 e.2 i hi
  · simp only [List.mem_cons, List.not_mem_nil, or_false] at hi
    rcases hi with rfl | rfl
    · exact .inl trivial
    · exact .inr ⟨.pushState, rfl, rfl⟩
  · exact gentle_companionCode _ _ i hi

/-- the instructions that give the zero of a result -/
def zeroFront (ret : Option Kind) : List Insn := (ret.map Kind.zeroInsn).toList

theorem defaultReturn_eq (ret : Option Kind) : defaultReturn ret = zeroFront ret ++ [.ret ret] := by
  cases ret <;> rfl

/-- **The save block** ends its activation, whatever it does to coroutines, or it ends by a fault -/
theorem Machine.leads_saved {w : World} {S : Nat → Prop} {m : Machine} {rest : List Pending}
    {method : Method} {position : Nat} {a : Analysis} {ret : Option Kind} {site : Site} {f : Frame}
    {shape : CallShape}
    (hS : ∀ n, n < (saveCode a ret site f shape).length → S (position + n)) (hw : w.Supplies)
    (hcode : Holds method.code position (saveCode a ret site f shape))
    (hm : m.IsAt method position rest) :
    Leads w S (fun m => m.Leaves rest ∨ m.Fails rest) m := by
  have heq : saveCode a ret site f shape = (saveFront a site f shape ++ zeroFront ret) ++ [.ret ret] := by
    rw [List.append_assoc, ← defaultReturn_eq]
    rfl
  rw [heq] at hcode hS
  rw [List.length_append] at hS
  have hgentle : ∀ i ∈ saveFront a site f shape ++ zeroFront ret, i.IsGentle := by
    intro i hi
    rcases List.mem_append.1 hi with hi | hi
    · exact gentle_saveFront a site f shape i hi
    · obtain ⟨k, -, rfl⟩ := Option.map_eq_some_iff.1 (Option.mem_toList.1 hi)
      exact .inl (Insn.moves_zeroInsn k)
  refine (leads_along (fun n hn => hS n (Nat.lt_add_right _ hn)) hw hgentle hcode.left hm).bind fun m' hm' => ?_
  rcases hm' with ⟨s, x, rfl, rfl, hx⟩ | hfails
  · exact leads_ret (by rw [hx]; exact hS _ (Nat.lt_succ_self _)) (by rw [hx]; exact hcode.right.head)
  · exact .here (.inr hfails)

end Resumable
