import Resumable.Proofs.Agreement
import Resumable.Proofs.Safe

/-!
# What follows an instruction

Frames that solve the flow equations of a method say what follows each of its instructions: where control
goes on, locals and operands are what the frame there says, if they were so before.  This is said of indices
of the method's own code, wherever its instructions stand.

* `Frame.Hinted.reads`, `Frame.apply_of_stack` : frames with hints say no more, and what is read does not
  depend on them;
* `Flow.ReadsAt`, `Flow.CallAt`, `Flow.LocalsAt` : before an instruction, during a call, and where something
  was thrown;
* `Flow.Outcome`, `Flow.Settled.outcome` : how an instruction may end;
* `Flow.Settled.returned`, `Flow.Settled.caught` : after a call, and in a handler.
-/

namespace Resumable

open Category (Reading Widened)

namespace Insn

variable {p : Program} {i : Insn}

/-- an instruction that brings a value is followed by the next entry -/
theorem next_of_brings (hi : i.reads = true ∨ i.makes = true) :
    Exec.Gives (i.exec p) fun o => o = .next := by
  have hplain : Exec.Gives (execPlain p i >>= fun _ => pure After.next) fun o => o = .next :=
    .bind fun _ => .pure rfl
  cases i with
  | getStatic | getField | arrayLoad | stringConst | new | newArray | checkCast => exact hplain
  | _ => exact absurd hi (by simp [reads, makes])

end Insn

/-- hints say no more: null is a reference of any type -/
theorem Frame.Hinted.reads {R : Category → Value → Prop} [Reading R] {f g : Frame}
    {locals stack : List Value} (h : f.Hinted g) (hf : f.Reads R locals stack) :
    g.Reads R locals stack := by
  obtain ⟨hlen, hall⟩ := Frame.forall₂_iff.1 hf.locals
  refine ⟨Frame.forall₂_iff.2 ⟨h.length.trans hlen, fun i d v hd hv => ?_⟩, h.stack ▸ hf.stack⟩
  obtain ⟨c, hc, hcd⟩ := h.local hd
  have hv := hall i c v hc hv
  rcases hcd with rfl | ⟨rfl, t, rfl⟩
  · exact hv
  · rw [Reading.null.1 hv]
    exact Reading.ref t

namespace Frame

variable {f e g : Frame} {i : Insn} {locals stack : List Value}

theorem popKind_of_stack {c : Category} {k : Kind} (hs : e.stack = f.stack)
    (h : f.popKind k = .ok (c, g)) : e.popKind k = .ok (c, { g with locals := e.locals }) := by
  obtain ⟨htakes, hk⟩ := popKind_ok h
  have hstack : e.stack = c :: g.stack := hs.trans htakes.stack
  unfold popKind pop
  rw [hstack]
  show (if c.kind? = some k then _ else _) = _
  rw [if_pos hk]

theorem popKinds_of_stack {k : Kind} (hs : e.stack = f.stack) (h : f.popKinds [k] = .ok g) :
    e.popKinds [k] = .ok { g with locals := e.locals } := by
  obtain ⟨⟨c, f'⟩, hpop, h⟩ := Effect.bind_eq_ok h
  obtain rfl : f' = g := Except.ok.inj h
  show (e.popKind k >>= fun r => r.2.popKinds []) = _
  rw [popKind_of_stack hs hpop]
  rfl

/-- what is read from fields and arrays does not depend on locals -/
theorem apply_of_stack (hi : i.reads = true) (hs : e.stack = f.stack) (h : f.apply i = .ok g) :
    e.apply i = .ok { g with locals := e.locals } := by
  cases i with
  | getStatic r =>
    obtain ⟨c, hc, h⟩ := Effect.bind_eq_ok h
    rw [← Except.ok.inj h]
    show (fieldCategory r.desc >>= fun c => Except.ok (e.push c)) = _
    rw [hc]
    show Except.ok (⟨e.locals, c :: e.stack⟩ : Frame) = _
    rw [hs]
    rfl
  | getField r =>
    obtain ⟨f', hpop, h⟩ := Effect.bind_eq_ok h
    obtain ⟨c, hc, h⟩ := Effect.bind_eq_ok h
    rw [← Except.ok.inj h]
    show (e.popKinds [.ref] >>= fun f => fieldCategory r.desc >>= fun c => Except.ok (f.push c)) = _
    rw [popKinds_of_stack hs hpop, hc]
    rfl
  | arrayLoad k =>
    obtain ⟨f', hpop, h⟩ := Effect.bind_eq_ok h
    obtain ⟨⟨c, f''⟩, hpop', h⟩ := Effect.bind_eq_ok h
    rw [← Except.ok.inj h]
    show (e.popKinds [.int] >>= fun f => f.popKind .ref >>= fun r =>
      Except.ok (r.2.push (componentOf r.1 k))) = _
    have hpop'' := popKind_of_stack (e := { f' with locals := e.locals }) (f := f') rfl hpop'
    rw [popKinds_of_stack hs hpop]
    show (({ f' with locals := e.locals } : Frame).popKind .ref >>= _) = _
    rw [hpop'']
    rfl
  | _ => exact absurd hi (by simp [Insn.reads])

end Frame

namespace Flow

section
variable (R : Category → Value → Prop) (m : Method) (fs : List (Option Frame)) (n : Nat)

/-- locals and operands are what the frame of an index says -/
def ReadsAt (locals stack : List Value) : Prop :=
  ∃ f, fs[n]? = some (some f) ∧ f.Reads R locals stack

/-- locals are what the frame of an index says -/
def LocalsAt (locals : List Value) : Prop :=
  ∃ f, fs[n]? = some (some f) ∧ List.Forall₂ R f.locals locals

/-- a call is under way, whose result the frame after it has -/
def CallAt (locals stack : List Value) : Prop :=
  ∃ (f e : Frame) (kind : InvokeKind) (callee : MethodId) (d : MethodDesc),
    fs[n]? = some (some f) ∧ m.code[n]? = some (.invoke kind callee) ∧
    MethodDesc.parse? callee.desc = some d ∧ f.apply (.invoke kind callee) = .ok (e.pushResult d.ret) ∧
    e.locals = f.locals ∧ e.Reads R locals stack

/-- how the instruction of an index may end in an activation -/
inductive Outcome (i : Insn) (a : Activation) : Except Throw After × Scope → Prop
  | next {s : Scope} (method : s.activation.method = a.method)
      (position : s.activation.position = a.position)
      (reads : ReadsAt R fs (n + 1) s.activation.locals s.activation.stack) : Outcome i a (.ok .next, s)
  | jump {l : Label} {k : Nat} {s : Scope} (method : s.activation.method = a.method)
      (target : l ∈ i.targets) (found : labelPosition l m.code = some k)
      (reads : ReadsAt R fs k s.activation.locals s.activation.stack) : Outcome i a (.ok (.jump l), s)
  | finish (v : Option Value) (s : Scope) : Outcome i a (.ok (.finish v), s)
  | call {c : Call} {s : Scope} (method : s.activation.method = a.method)
      (position : s.activation.position = a.position)
      (calls : CallAt R m fs n s.activation.locals s.activation.stack) : Outcome i a (.ok (.call c), s)
  | exception {r : Ref} {s : Scope} (stack : List Value) (activation : s.activation = { a with stack })
      (locals : LocalsAt R fs n a.locals) : Outcome i a (.error (.exception r), s)
  | fault {e : Fault} {s : Scope} (flawless : e.isFlaw = false) : Outcome i a (.error (.fault e), s)

end

section
variable {R : Category → Value → Prop} {m : Method} {fs : List (Option Frame)} {p : Program}
  {handlers : List Handler} {N n : Nat} {entry f g : Frame} {i : Insn} {ls stack : List Value}

/-- what is said more of values is said less of them -/
theorem ReadsAt.mono {S : Category → Value → Prop} (hRS : ∀ c v, R c v → S c v)
    (h : ReadsAt R fs n ls stack) : ReadsAt S fs n ls stack := by
  obtain ⟨f, hf, hreads⟩ := h
  exact ⟨f, hf, hreads.locals.imp hRS, hreads.stack.imp hRS⟩

theorem LocalsAt.mono {S : Category → Value → Prop} (hRS : ∀ c v, R c v → S c v)
    (h : LocalsAt R fs n ls) : LocalsAt S fs n ls := by
  obtain ⟨f, hf, hlocals⟩ := h
  exact ⟨f, hf, hlocals.imp hRS⟩

theorem CallAt.mono {S : Category → Value → Prop} (hRS : ∀ c v, R c v → S c v)
    (h : CallAt R m fs n ls stack) : CallAt S m fs n ls stack := by
  obtain ⟨f, e, kind, callee, d, hf, hi, hd, happly, hlocals, hreads⟩ := h
  exact ⟨f, e, kind, callee, d, hf, hi, hd, happly, hlocals, hreads.locals.imp hRS, hreads.stack.imp hRS⟩

theorem CallAt.locals (h : CallAt R m fs n ls stack) : LocalsAt R fs n ls := by
  obtain ⟨f, e, kind, callee, d, hf, -, -, -, hlocals, hreads⟩ := h
  exact ⟨f, hf, hlocals ▸ hreads.locals⟩

variable [Reading R]

/-- what has arrived somewhere is said there -/
theorem Arrived.readsAt (hwide : Widened p R) (h : Arrived p fs (n, g)) (hsound : AllSound N fs)
    (hlen : g.locals.length = N) (hg : g.Reads R ls stack) : ReadsAt R fs n ls stack := by
  obtain ⟨f, hf, habove⟩ := h
  exact ⟨f, hf, habove.reads hwide (by rw [(hsound n f hf).length, hlen]) hg⟩

variable (hwide : Widened p R) (hhandlers : m.tryCatches.mapM (handler m.code) = .ok handlers)
  (h : Settled ⟨m.code, handlers, p⟩ N entry fs)

include hwide hhandlers h

/-- **An instruction** where locals and operands are what its frame says -/
theorem Settled.outcome {p' : Program} {a : Activation} {heap : Heap} {statics : Bindings}
    (hnum : i.Numeric) (hi : m.code[n]? = some i) (hf : fs[n]? = some (some f))
    (hreads : f.Reads R a.locals a.stack)
    (hbrought : ∀ g s, f.apply i = .ok g → (i.exec p').run ⟨heap, statics, a⟩ = (.ok .next, s) →
      i.Brought R g s.activation.stack) :
    Outcome R m fs n i a ((i.exec p').run ⟨heap, statics, a⟩) := by
  obtain ⟨g, honward⟩ := h.onward hhandlers hi hf
  have hsound := h.sound n f hf
  have hlen : g.locals.length = N := (hsound.apply honward.applied).length
  have hconforms := Insn.exec_conforms (p := p') hnum hsound.loaded honward.applied hreads heap statics
  have hbrought := hbrought g
  generalize hrun : (i.exec p').run ⟨heap, statics, a⟩ = r at hconforms hbrought
  cases hconforms with
  | fault hflawless => exact .fault hflawless
  | exception stack hactivation => exact .exception stack hactivation ⟨f, hf, hreads.locals⟩
  | @value o s hmethod hposition hlocals hleaves =>
    have hfits := Insn.exec_fits _ _ _ hrun
    cases o with
    | next =>
      have hstack := hleaves (hbrought s honward.applied rfl)
      exact .next hmethod hposition
        ((honward.next hfits).readsAt hwide h.sound hlen ⟨hlocals, hstack⟩)
    | jump l =>
      obtain ⟨k, hk, harrived⟩ := honward.jumps l hfits
      have hstack := hleaves fun hbrings => absurd (Insn.next_of_brings hbrings _ _ _ hrun) (by simp)
      exact .jump hmethod hfits hk (harrived.readsAt hwide h.sound hlen ⟨hlocals, hstack⟩)
    | finish v => exact .finish v s
    | call c =>
      obtain ⟨d, e, hd, rfl, hstack⟩ := hleaves
      obtain rfl : i = .invoke c.kind c.method := hfits
      have hsame : (e.pushResult d.ret).locals = f.locals :=
        (Frame.Keeps.of_apply (by simp) honward.applied).locals
      rw [Frame.locals_pushResult] at hsame hlocals
      exact .call hmethod hposition
        ⟨f, e, c.kind, c.method, d, hf, hi, hd, honward.applied, hsame, hlocals, hstack⟩

/-- **The end of a call** with what its descriptor says -/
theorem Settled.returned {v : Option Value} (ha : CallAt R m fs n ls stack)
    (hv : ∀ kind callee d, m.code[n]? = some (.invoke kind callee) →
      MethodDesc.parse? callee.desc = some d → List.Forall₂ R (d.ret.toList.map .ofType) v.toList) :
    ReadsAt R fs (n + 1) ls (v.toList ++ stack) := by
  obtain ⟨f, e, kind, callee, d, hf, hi, hd, happly, hlocals, hreads⟩ := ha
  obtain ⟨g, honward⟩ := h.onward hhandlers hi hf
  obtain rfl := Except.ok.inj (happly.symm.trans honward.applied)
  have hlen := ((h.sound n f hf).apply honward.applied).length
  have hresult := hv kind callee d hi hd
  refine (honward.next rfl).readsAt hwide h.sound hlen ⟨?_, ?_⟩
  · rw [Frame.locals_pushResult]
    exact hreads.locals
  · cases hret : d.ret with
    | none =>
      rw [hret] at hresult
      cases v with
      | none => exact hreads.stack
      | some u => exact absurd hresult.length_eq (by simp)
    | some t =>
      rw [hret] at hresult
      cases v with
      | none => exact absurd hresult.length_eq (by simp)
      | some u => exact .cons (List.forall₂_cons.1 hresult).1 hreads.stack

/-- **In the handler** that is found for what was thrown -/
theorem Settled.caught {p' : Program} {r : Ref} {type : String} {k : Nat}
    (ha : LocalsAt R fs n ls)
    (hfound : findHandler p' m.code n type m.tryCatches = .ok (some k))
    (hr : ∀ t ∈ m.tryCatches, t.accepts p' type = true →
      R (.ref (t.catchType.getD throwableType)) (.ref (some r))) :
    ReadsAt R fs k ls [.ref (some r)] := by
  obtain ⟨f, hf, hlocals⟩ := ha
  have hlt : n < m.code.length := by
    rw [← h.length]
    exact (List.getElem?_eq_some_iff.1 hf).1
  obtain ⟨g, honward⟩ := h.onward hhandlers (List.getElem?_eq_getElem hlt) hf
  obtain ⟨t, ht, hprotects, hk, haccepts⟩ := findHandler_found hfound
  exact (honward.handlers t ht hprotects k hk).readsAt hwide h.sound (h.sound n f hf).length
    ⟨hlocals, .cons (hr t ht haccepts) .nil⟩

end

end Flow
end Resumable
