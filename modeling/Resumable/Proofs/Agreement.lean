import Resumable.Proofs.Handlers
import Resumable.Proofs.Operands
import Resumable.Proofs.Saving
import Resumable.Proofs.Settled

/-!
# Activations that agree

An activation that was suspended and taken up again has its locals back wherever its frame says that
there are some, and anything elsewhere.  What its method does from there on does not depend on the
rest: the frames of the method say of every instruction which locals it may read.

* `Agree` : two lists of locals agree in what a frame says;
* `Insn.exec_agree` : an instruction keeps them in agreement;
* `Flow.Onward`, `Flow.Settled.onward` : what follows an instruction in settled frames;
* `Analysis.FlowsFrom`, `Analysis.Sound.flowsFrom` : what the frames of an analysis say about the
  instructions that follow.
-/

namespace Resumable

/-- Two lists of locals agree wherever the frame says that there are values.  An instance method also
has the same receiver in both. -/
structure Agree (isStatic : Bool) (f : Frame) (locals locals' : List Value) : Prop where
  live : SameLive f.locals 0 locals locals'
  fits : f.locals.length ≤ locals.length
  fits' : f.locals.length ≤ locals'.length
  first : isStatic = false → locals'[0]? = locals[0]?

section
variable {isStatic : Bool} {f g : Frame} {locals locals' : List Value} {v : Value} {i : Nat}

theorem Agree.refl (h : f.locals.length ≤ locals.length) : Agree isStatic f locals locals :=
  ⟨fun _ _ _ _ _ => rfl, h, h, fun _ => rfl⟩

/-- a frame that takes less for granted -/
theorem Agree.cover (h : Agree isStatic f locals locals') (hg : g.Covers f)
    (hlen : g.locals.length = f.locals.length) : Agree isStatic g locals locals' := by
  refine ⟨fun i c k hc hk => ?_, by rw [hlen]; exact h.fits, by rw [hlen]; exact h.fits', h.first⟩
  obtain ⟨d, hd, hdk⟩ := hg i c k hc hk
  exact h.live i d k hd hdk

theorem Agree.keep (h : Agree isStatic f locals locals') (hg : f.Keeps g) :
    Agree isStatic g locals locals' := by
  refine h.cover (fun i c k hc hk => ⟨c, ?_, hk⟩) (by rw [hg.locals])
  rw [← hg.locals]
  exact hc

/-- a store writes the same slots in both -/
theorem getElem?_putLocal_congr {j : Nat} (hi : i + v.width ≤ locals.length)
    (hi' : i + v.width ≤ locals'.length)
    (hj : j = i ∨ v.width = 2 ∧ j = i + 1 ∨ locals'[j]? = locals[j]?) :
    (Exec.putLocal locals' i v)[j]? = (Exec.putLocal locals i v)[j]? := by
  have hpos : 0 < v.width := by cases v <;> exact Nat.zero_lt_succ _
  by_cases hself : j = i
  · subst hself
    rw [Exec.getElem?_putLocal_self v (by omega), Exec.getElem?_putLocal_self v (by omega)]
  · by_cases hbehind : v.width = 2 ∧ j = i + 1
    · obtain ⟨h2, rfl⟩ := hbehind
      unfold Exec.putLocal
      dsimp only
      rw [if_pos h2, if_pos h2, List.getElem?_set_self (by rw [List.length_set]; omega),
        List.getElem?_set_self (by rw [List.length_set]; omega)]
    · have hw : v.width = 2 → j ≠ i + 1 := fun h2 h => hbehind ⟨h2, h⟩
      rw [Exec.getElem?_putLocal_of_ne locals' hself hw, Exec.getElem?_putLocal_of_ne locals hself hw]
      exact (hj.resolve_left hself).resolve_left hbehind

/-- a store that the frame allows -/
theorem Agree.put (h : Agree isStatic f locals locals') (hi : i + v.width ≤ locals.length)
    (hi' : i + v.width ≤ locals'.length) (hlen : g.locals.length = f.locals.length)
    (hg : ∀ (j : Nat) (c : Category) (k : Kind), j ≠ i → g.locals[j]? = some c → c.kind? = some k →
      f.locals[j]? = some c) :
    Agree isStatic g (Exec.putLocal locals i v) (Exec.putLocal locals' i v) := by
  refine ⟨fun j c k hc hk => ?_, ?_, ?_, fun hs => ?_⟩
  · rw [Nat.zero_add]
    refine getElem?_putLocal_congr hi hi' ?_
    by_cases hj : j = i
    · exact .inl hj
    · have hlive := h.live j c k (hg j c k hj hc hk) hk
      rw [Nat.zero_add] at hlive
      exact .inr (.inr hlive)
  · rw [Exec.length_putLocal, hlen]
    exact h.fits
  · rw [Exec.length_putLocal, hlen]
    exact h.fits'
  · exact getElem?_putLocal_congr hi hi' (.inr (.inr (h.first hs)))

end

/-! ## instructions -/

theorem Exec.Local.agree {α : Type} {x : Exec α} (hx : x.Local) {h : Heap} {g : Bindings}
    {a a' : Activation} (hs : a'.stack = a.stack) :
    ∃ r h' g' stack, x.run ⟨h, g, a⟩ = (r, ⟨h', g', { a with stack }⟩) ∧
      x.run ⟨h, g, a'⟩ = (r, ⟨h', g', { a' with stack }⟩) := by
  obtain ⟨f, hf⟩ := hx
  exact ⟨_, _, _, _, hf h g a, by rw [hf h g a', hs]⟩

/-- what an instruction does to two activations that agree -/
structure Alike (isStatic : Bool) (f g : Frame) (i : Insn) (p : Program) (h : Heap) (s : Bindings)
    (a a' : Activation) (r : Except Throw After) (h' : Heap) (s' : Bindings) (stack : List Value)
    (locals locals' : List Value) : Prop where
  left : (i.exec p).run ⟨h, s, a⟩ = (r, ⟨h', s', { a with locals, stack }⟩)
  right : (i.exec p).run ⟨h, s, a'⟩ = (r, ⟨h', s', { a' with locals := locals', stack }⟩)
  agree : ∀ o, r = .ok o → Agree isStatic g locals locals'
  thrown : ∀ t, r = .error t → Agree isStatic f locals locals'

namespace Insn

variable {p : Program} {isStatic : Bool} {f g : Frame} {h : Heap} {s : Bindings}
  {a a' : Activation} {i : Insn}

/-- an instruction that does not see the locals -/
theorem alike_local (hi : i.usesLocals = false) (happly : f.apply i = .ok g)
    (hs : a'.stack = a.stack) (ha : Agree isStatic f a.locals a'.locals) :
    ∃ r h' s' stack locals locals',
      Alike isStatic f g i p h s a a' r h' s' stack locals locals' := by
  obtain ⟨r, h', s', stack, h1, h2⟩ := (local_exec (p := p) hi).agree (h := h) (g := s) hs
  have hkeeps : f.Keeps g := .of_apply (fun k slot heq => by rw [heq] at hi; exact absurd hi (by simp [usesLocals])) happly
  exact ⟨r, h', s', stack, a.locals, a'.locals, h1, h2, fun _ _ => ha.keep hkeeps, fun _ _ => ha⟩

theorem alike_load {k : Kind} {slot : UInt16} (happly : f.apply (.load k slot) = .ok g)
    (hs : a'.stack = a.stack) (ha : Agree isStatic f a.locals a'.locals) :
    ∃ r h' s' stack locals locals',
      Alike isStatic f g (.load k slot) p h s a a' r h' s' stack locals locals' := by
  obtain ⟨c, hc, happly⟩ := Effect.bind_eq_ok happly
  have hkind : c.kind? = some k ∧ f.push c = g := by
    split at happly
    · rename_i hk
      injection happly with happly
      exact ⟨hk, happly⟩
    · exact absurd happly (by simp)
  have hlocal : f.locals[slot.toNat]? = some c := by
    unfold Frame.getLocal at hc
    split at hc
    · rename_i d hd
      injection hc with hc
      rw [hd, hc]
    · exact absurd hc (by simp)
  have hkeeps : f.Keeps g := by
    rw [← hkind.2]
    exact ⟨rfl, fun hf e he => (List.mem_cons.1 he).elim (fun heq => ⟨k, heq ▸ hkind.1⟩) (hf e)⟩
  have hlt : slot.toNat < a.locals.length :=
    Nat.lt_of_lt_of_le (List.getElem?_eq_some_iff.1 hlocal).1 ha.fits
  have hsame := ha.live slot.toNat c k hlocal hkind.1
  rw [Nat.zero_add, List.getElem?_eq_getElem hlt] at hsame
  have hrest : Exec.Local ((if a.locals[slot.toNat].kind? = some k then Exec.push a.locals[slot.toNat]
      else Exec.illTyped k a.locals[slot.toNat]) >>= fun _ => pure After.next) :=
    .bind (.ite (Exec.local_push _) (Exec.local_illTyped _ _)) fun _ => .pure _
  obtain ⟨r, h', s', stack, h1, h2⟩ := hrest.agree (h := h) (g := s) hs
  refine ⟨r, h', s', stack, a.locals, a'.locals, ?_, ?_, fun _ _ => ha.keep hkeeps, fun _ _ => ha⟩
  · rw [← h1]
    show ((Exec.getLocal slot >>= _) >>= _).run _ = _
    rw [Effect.run_bind, Effect.run_bind_ok (Exec.run_getLocal (List.getElem?_eq_getElem hlt)),
      ← Effect.run_bind]
  · rw [← h2]
    show ((Exec.getLocal slot >>= _) >>= _).run _ = _
    rw [Effect.run_bind, Effect.run_bind_ok (Exec.run_getLocal hsame), ← Effect.run_bind]

theorem alike_store {k : Kind} {slot : UInt16} (happly : f.apply (.store k slot) = .ok g)
    (hs : a'.stack = a.stack) (ha : Agree isStatic f a.locals a'.locals) :
    ∃ r h' s' stack locals locals',
      Alike isStatic f g (.store k slot) p h s a a' r h' s' stack locals locals' := by
  obtain ⟨c, f', -, hc, hle, hlocals, -⟩ := Frame.apply_store happly
  cases hstack : a.stack with
  | nil =>
    have hpop (x : Activation) (hx : x.stack = []) : ((Insn.store k slot).exec p).run ⟨h, s, x⟩ =
        (.error (.fault .stackUnderflow), ⟨h, s, { x with locals := x.locals, stack := [] }⟩) := by
      obtain ⟨method, position, locals, stack⟩ := x
      obtain rfl : stack = [] := hx
      rfl
    exact ⟨_, h, s, [], a.locals, a'.locals, hpop a hstack, hpop a' (by rw [hs, hstack]),
      fun o ho => absurd ho (by simp), fun _ _ => ha⟩
  | cons v stack =>
    have hs' : a'.stack = v :: stack := by rw [hs, hstack]
    by_cases hv : v.kind? = some k
    · have hw : v.width = c.width := by
        rw [Value.width_eq_of_kind? hv, Category.width_eq_of_kind? hc]
      have hi : slot.toNat + v.width ≤ a.locals.length := by have := ha.fits; omega
      have hi' : slot.toNat + v.width ≤ a'.locals.length := by have := ha.fits'; omega
      refine ⟨.ok .next, h, s, stack, _, _, Insn.run_store hstack hv hi, Insn.run_store hs' hv hi',
        fun _ _ => ha.put hi hi' ?_ fun j d k' hj hd hk => ?_, fun t ht => absurd ht (by simp)⟩
      · rw [hlocals, Frame.length_putLocal]
      · rw [hlocals] at hd
        exact Frame.getElem?_of_putLocal hj hd hk
    · have hbad (x : Activation) (hx : x.stack = v :: stack) :
          ((Insn.store k slot).exec p).run ⟨h, s, x⟩ =
            (.error (.fault (.illTyped k (h.shown v))),
              ⟨h, s, { x with locals := x.locals, stack }⟩) := by
        show ((Exec.popKind k >>= _) >>= _).run _ = _
        unfold Exec.popKind
        rw [Effect.run_bind, Effect.run_bind, Effect.run_bind_ok (Exec.run_pop hx), if_neg hv]
        rfl
      exact ⟨_, h, s, stack, a.locals, a'.locals, hbad a hstack, hbad a' hs',
        fun o ho => absurd ho (by simp), fun _ _ => ha⟩

theorem alike_increment {slot : UInt16} {d : Int32} (happly : f.apply (.increment slot d) = .ok g)
    (hs : a'.stack = a.stack) (ha : Agree isStatic f a.locals a'.locals) :
    ∃ r h' s' stack locals locals',
      Alike isStatic f g (.increment slot d) p h s a a' r h' s' stack locals locals' := by
  obtain ⟨c, hc, happly⟩ := Effect.bind_eq_ok happly
  have hlocal : f.locals[slot.toNat]? = some c := by
    unfold Frame.getLocal at hc
    split at hc
    · rename_i d hd
      injection hc with hc
      rw [hd, hc]
    · exact absurd hc (by simp)
  split at happly
  · rename_i hint
    injection happly with happly
    subst happly
    subst hint
    have hlt : slot.toNat < a.locals.length :=
      Nat.lt_of_lt_of_le (List.getElem?_eq_some_iff.1 hlocal).1 ha.fits
    have hlt' : slot.toNat < a'.locals.length :=
      Nat.lt_of_lt_of_le (List.getElem?_eq_some_iff.1 hlocal).1 ha.fits'
    have hsame := ha.live slot.toNat .int .int hlocal rfl
    rw [Nat.zero_add] at hsame
    cases hv : a.locals[slot.toNat]? with
    | none => exact absurd hv (by rw [List.getElem?_eq_getElem hlt]; simp)
    | some v =>
      rw [hv] at hsame
      by_cases hvint : ∃ n, v = .int n
      · obtain ⟨n, rfl⟩ := hvint
        have hadd (x : Activation) (hx : x.locals[slot.toNat]? = some (.int n))
            (hl : slot.toNat < x.locals.length) :
            ((Insn.increment slot d).exec p).run ⟨h, s, x⟩ = (.ok .next, ⟨h, s, { x with
              locals := Exec.putLocal x.locals slot.toNat (.int (n + d)), stack := x.stack }⟩) := by
          show ((Exec.getLocal slot >>= _) >>= _).run _ = _
          rw [Effect.run_bind, Effect.run_bind_ok (Exec.run_getLocal hx)]
          dsimp only
          rw [Exec.run_setLocal (a := x) (v := .int (n + d)) hl]
          rfl
        refine ⟨.ok .next, h, s, a.stack, _, _, hadd a hv hlt, ?_,
          fun _ _ => ha.put (v := .int (n + d)) hlt hlt' rfl fun j e k' _ hd _ => hd,
          fun t ht => absurd ht (by simp)⟩
        rw [hadd a' hsame hlt', hs]
      · have hbad (x : Activation) (hx : x.locals[slot.toNat]? = some v) :
            ((Insn.increment slot d).exec p).run ⟨h, s, x⟩ =
              (.error (.fault (.illTyped .int (h.shown v))),
                ⟨h, s, { x with locals := x.locals, stack := x.stack }⟩) := by
          show ((Exec.getLocal slot >>= _) >>= _).run _ = _
          rw [Effect.run_bind, Effect.run_bind_ok (Exec.run_getLocal hx)]
          cases v with
          | int n => exact absurd ⟨n, rfl⟩ hvint
          | _ => rfl
        refine ⟨_, h, s, a.stack, a.locals, a'.locals, hbad a hv, ?_,
          fun o ho => absurd ho (by simp), fun _ _ => ha⟩
        rw [← hs]
        exact hbad a' hsame
  · exact absurd happly (by simp)

/-- **An instruction** that a frame allows does the same to activations that agree in the frame -/
theorem exec_agree (happly : f.apply i = .ok g) (hs : a'.stack = a.stack)
    (ha : Agree isStatic f a.locals a'.locals) :
    ∃ r h' s' stack locals locals',
      Alike isStatic f g i p h s a a' r h' s' stack locals locals' := by
  cases i with
  | load k slot => exact alike_load happly hs ha
  | store k slot => exact alike_store happly hs ha
  | increment slot d => exact alike_increment happly hs ha
  | _ => exact alike_local rfl happly hs ha

end Insn

/-! ## the frames of an analysis -/

namespace Flow

/-- what follows an instruction in the frames of a method -/
structure Onward (p : Program) (m : Method) (fs : List (Option Frame)) (n : Nat) (i : Insn)
    (f g : Frame) : Prop where
  applied : f.apply i = .ok g
  next : i.fallsThrough = true → Arrived p fs (n + 1, g)
  jumps : ∀ l ∈ i.targets, ∃ k, labelPosition l m.code = some k ∧ Arrived p fs (k, g)
  handlers : ∀ t ∈ m.tryCatches, t.Protects m.code n → ∀ k, labelPosition t.handler m.code = some k →
    Arrived p fs (k, ⟨f.locals, [.ref (t.catchType.getD throwableType)]⟩)

theorem Settled.onward {m : Method} {p : Program} {handlers : List Handler} {N n : Nat}
    {entry f : Frame} {fs : List (Option Frame)} {i : Insn}
    (hhandlers : m.tryCatches.mapM (handler m.code) = .ok handlers)
    (h : Settled ⟨m.code, handlers, p⟩ N entry fs) (hi : m.code[n]? = some i)
    (hf : fs[n]? = some (some f)) : ∃ g, Onward p m fs n i f g := by
  obtain ⟨es, hes, harrived⟩ := h.closed n i f hi hf
  obtain ⟨g, hedges⟩ := edges_ok hes
  refine ⟨g, hedges.applied, fun hfalls => harrived _ (hedges.next hfalls).2, fun l hl => ?_,
    fun t ht hprotects k hk => ?_⟩
  · obtain ⟨k, hk, hmem⟩ := hedges.jumps l hl
    exact ⟨k, hk, harrived _ hmem⟩
  · obtain ⟨r, hr, hok⟩ := (mapM_ok hhandlers).1 t ht
    obtain ⟨hstart, hstop, hhandler, -⟩ := handler_ok hok
    obtain ⟨start, stop, hs, ht', h1, h2⟩ := hprotects
    obtain rfl := Option.some.inj (hstart.symm.trans hs)
    obtain rfl := Option.some.inj (hstop.symm.trans ht')
    obtain rfl := Option.some.inj (hhandler.symm.trans hk)
    exact handler_caught hok ▸ harrived _ (hedges.handlers r hr h1 h2)

end Flow

namespace Analysis

/-- the analysis has a frame at the index, which takes no more for granted than another one -/
def Expects (a : Analysis) (n : Nat) (f : Frame) : Prop :=
  ∃ g, a.frames[n]? = some (some g) ∧ g.Covers f ∧ g.locals.length = f.locals.length

/-- what the frames of an analysis say about what follows an instruction -/
structure FlowsFrom (a : Analysis) (m : Method) (n : Nat) (i : Insn) (f g : Frame) : Prop where
  applied : f.apply i = .ok g
  next : i.fallsThrough = true → a.Expects (n + 1) g
  jumps : ∀ l ∈ i.targets, ∃ k, labelPosition l m.code = some k ∧ a.Expects k g
  handlers : ∀ t ∈ m.tryCatches, t.Protects m.code n → ∀ k, labelPosition t.handler m.code = some k →
    ∃ stack, a.Expects k ⟨f.locals, stack⟩

end Analysis

/-- hints change nothing about which locals hold values -/
theorem Agree.unhint {isStatic : Bool} {f e : Frame} {locals locals' : List Value}
    (h : Agree isStatic f locals locals') (he : e.Hinted f) : Agree isStatic e locals locals' :=
  h.cover he.covered he.length.symm

theorem Agree.expects {isStatic : Bool} {f : Frame} {locals locals' : List Value} {a : Analysis}
    {n : Nat} (h : Agree isStatic f locals locals') (ha : a.Expects n f) :
    ∃ g, a.frames[n]? = some (some g) ∧ Agree isStatic g locals locals' := by
  obtain ⟨g, hg, hcovers, hlen⟩ := ha
  exact ⟨g, hg, h.cover hcovers hlen⟩

namespace Analysis.Sound

variable {a : Analysis} {p : Program} {owner : String} {m : Method}

/-- regions and handlers are given by labels of the method -/
theorem tableDefined (h : a.Sound p owner m) : m.TableDefined := by
  obtain ⟨desc, handlers, fs, -, hhandlers, -, -⟩ := h.settled
  intro t ht
  obtain ⟨r, -, hr⟩ := (Flow.mapM_ok hhandlers).1 t ht
  obtain ⟨hstart, hstop, hhandler, -⟩ := Flow.handler_ok hr
  exact ⟨⟨_, hstart⟩, ⟨_, hstop⟩, _, hhandler⟩

/-- what a frame of the flow equations says, the frame with hints says too -/
theorem expects {fs : List (Option Frame)} (hhinted : FramesHinted fs a.frames) {n k : Nat}
    {f : Frame} (harrived : Flow.Arrived p fs (k, f)) (hsound : Flow.AllSound n fs)
    (hf : f.locals.length = n) : a.Expects k f := by
  obtain ⟨e, he, habove⟩ := harrived
  obtain ⟨g, hg⟩ := hhinted.kept k e he
  obtain ⟨e', he', hh⟩ := hhinted.hinted k g hg
  obtain rfl : e = e' := by
    rw [he] at he'
    simpa using he'
  exact ⟨g, hg, hh.covers.trans habove.covers, by rw [hh.length, (hsound k e he).length, hf]⟩

/-- **What the frames of an analysis say** about what follows an instruction -/
theorem flowsFrom (h : a.Sound p owner m) {n : Nat} {i : Insn} {f : Frame}
    (hi : m.code[n]? = some i) (hf : a.frames[n]? = some (some f)) :
    ∃ e g, e.Hinted f ∧ a.FlowsFrom m n i e g := by
  obtain ⟨desc, handlers, fs, -, hhandlers, hsettled, hhinted⟩ := h.settled
  obtain ⟨e, he, hh⟩ := hhinted.hinted n f hf
  obtain ⟨g, honward⟩ := hsettled.onward hhandlers hi he
  have hlen := hsettled.sound n e he
  have hafter := (hlen.apply honward.applied).length
  refine ⟨e, g, hh, honward.applied,
    fun hfalls => expects hhinted (honward.next hfalls) hsettled.sound hafter, fun l hl => ?_,
    fun t ht hprotects k hk => ?_⟩
  · obtain ⟨k, hk, harrived⟩ := honward.jumps l hl
    exact ⟨k, hk, expects hhinted harrived hsettled.sound hafter⟩
  · exact ⟨_, expects hhinted (honward.handlers t ht hprotects k hk) hsettled.sound hlen.length⟩

/-- the first instruction takes no more for granted than the parameters -/
theorem entry (h : a.Sound p owner m) : ∃ desc, MethodDesc.parse? m.desc = some desc ∧
    a.Expects 0 (Frame.entry owner m.isStatic desc m.maxLocals.toNat) := by
  obtain ⟨desc, handlers, fs, hdesc, -, hsettled, hhinted⟩ := h.settled
  exact ⟨desc, hdesc, expects hhinted hsettled.entry hsettled.sound rfl⟩

end Analysis.Sound
end Resumable
