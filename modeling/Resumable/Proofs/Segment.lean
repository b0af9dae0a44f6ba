import Resumable.Proofs.Effects
import Resumable.Proofs.Run

/-!
# Segments of code

Injected code is spoken of by the place where it stands.  A segment is a list of instructions that
the code holds from a position on; what one instruction of it does is one step of the machine.

* `Holds` : the code holds the instructions from a position on;
* `Holds.left`, `Holds.right` : a segment cut in two;
* `Machine.step_next`, `Machine.step_jump`, … : the step of an instruction by what it does.
-/

namespace Resumable

/-- the code holds the instructions from a position on -/
def Holds (code : List Insn) (position : Nat) (is : List Insn) : Prop :=
  ∃ before after, code = before ++ (is ++ after) ∧ before.length = position

namespace Holds

variable {code is js : List Insn} {n : Nat} {i : Insn}

theorem getElem?_add (h : Holds code n is) {k : Nat} (hk : k < is.length) :
    code[n + k]? = is[k]? := by
  obtain ⟨before, after, rfl, rfl⟩ := h
  rw [List.getElem?_append_right (Nat.le_add_right _ _), Nat.add_sub_cancel_left,
    List.getElem?_append_left hk]

theorem head (h : Holds code n (i :: is)) : code[n]? = some i :=
  h.getElem?_add (k := 0) (by rw [List.length_cons]; omega)

theorem left (h : Holds code n (is ++ js)) : Holds code n is := by
  obtain ⟨before, after, hcode, hn⟩ := h
  exact ⟨before, js ++ after, by rw [hcode, List.append_assoc], hn⟩

theorem right (h : Holds code n (is ++ js)) : Holds code (n + is.length) js := by
  obtain ⟨before, after, hcode, hn⟩ := h
  refine ⟨before ++ is, after, ?_, ?_⟩
  · rw [hcode, List.append_assoc, List.append_assoc]
  · rw [List.length_append, hn]

theorem tail (h : Holds code n (i :: is)) : Holds code (n + 1) is := by
  rw [← List.singleton_append] at h
  exact h.right

theorem take (h : Holds code n is) (k : Nat) : Holds code n (is.take k) := by
  rw [← List.take_append_drop k is] at h
  exact h.left

/-- the rest of a segment -/
theorem of_drop (h : Holds code n is) {k : Nat} (hk : is.drop k = js) (hle : k ≤ is.length) :
    Holds code (n + k) js := by
  rw [← List.take_append_drop k is, hk] at h
  have hright := h.right
  rwa [List.length_take, Nat.min_eq_left hle] at hright

end Holds

/-! ## steps of instructions -/

namespace Machine

section
variable {w : World} {m : Machine} {a b : Activation} {rest : List Pending} {i : Insn}
  {h : Heap} {g : Bindings}

/-- a machine whose uppermost activation executes -/
theorem goOn_eq (hp : m.pending = .activation a :: rest) (hm : m.mode = .executing) : m.goOn a rest = m := by
  unfold goOn
  rw [← hp, ← hm]

/-- the end of a call in an activation -/
theorem deliver_activation (m : Machine) (r : Option Value) (rest : List Pending)
    (x : Activation) : m.deliver r rest (.activation x) =
      m.goOn { x with stack := r.toList ++ x.stack, position := x.position + 1 } rest := by
  cases r <;> rfl

/-- an instruction that does not throw, in general -/
theorem step_of_run {o : After} (hi : a.method.code[a.position]? = some i)
    (he : (i.exec w.program).run ⟨m.heap, m.statics, a⟩ = (.ok o, ⟨h, g, b⟩)) :
    (m.goOn a rest).step w =
      ({ m.goOn a rest with heap := h, statics := g } : Machine).follow b rest o := by
  show (m.goOn a rest).execute w a rest = _
  unfold execute
  rw [hi]
  dsimp only
  rw [show (⟨(m.goOn a rest).heap, (m.goOn a rest).statics, a⟩ : Scope) =
    ⟨m.heap, m.statics, a⟩ from rfl, he]

/-- an instruction that throws -/
theorem step_of_throw {t : Throw} (hi : a.method.code[a.position]? = some i)
    (he : (i.exec w.program).run ⟨m.heap, m.statics, a⟩ = (.error t, ⟨h, g, b⟩)) :
    (m.goOn a rest).step w =
      { m with heap := h, statics := g, pending := .activation b :: rest, mode := .throwing t } := by
  show (m.goOn a rest).execute w a rest = _
  unfold execute
  rw [hi]
  dsimp only
  rw [show (⟨(m.goOn a rest).heap, (m.goOn a rest).statics, a⟩ : Scope) =
    ⟨m.heap, m.statics, a⟩ from rfl, he]
  rfl

/-- an instruction that only works on its activation -/
theorem step_next (hi : a.method.code[a.position]? = some i)
    (he : (i.exec w.program).run ⟨m.heap, m.statics, a⟩ = (.ok .next, ⟨m.heap, m.statics, b⟩)) :
    (m.goOn a rest).step w = m.goOn b.advance rest :=
  step_of_run hi he

theorem step_jump {l : Label} {n : Nat} (hi : a.method.code[a.position]? = some i)
    (he : (i.exec w.program).run ⟨m.heap, m.statics, a⟩ = (.ok (.jump l), ⟨m.heap, m.statics, b⟩))
    (hn : labelPosition l b.method.code = some n) :
    (m.goOn a rest).step w = m.goOn { b with position := n } rest := by
  rw [step_of_run hi he]
  simp only [follow, positionOf, hn]
  rfl

theorem step_finish {v : Option Value} (hi : a.method.code[a.position]? = some i)
    (he : (i.exec w.program).run ⟨m.heap, m.statics, a⟩ =
      (.ok (.finish v), ⟨m.heap, m.statics, b⟩)) :
    (m.goOn a rest).step w = { m with pending := rest, mode := .returning v } :=
  step_of_run hi he

theorem step_call {c : Call} (hi : a.method.code[a.position]? = some i)
    (he : (i.exec w.program).run ⟨m.heap, m.statics, a⟩ =
      (.ok (.call c), ⟨m.heap, m.statics, b⟩)) :
    (m.goOn a rest).step w =
      { m with pending := .activation b :: rest, mode := .calling c } :=
  step_of_run hi he

end

end Machine
end Resumable
