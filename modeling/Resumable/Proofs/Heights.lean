import Resumable.Proofs.Frames

/-!
# The height of the stack

No instruction makes the operand stack more than two entries higher.

* `Frame.height_popKinds`, `Frame.height_replace` : operands taken, and a result pushed;
* `Frame.height_apply` : instructions.
-/

namespace Resumable
namespace Frame

section
variable {f g : Frame} {c : Category} {k : Kind} {ks : List Kind} {i : Insn}

theorem height_pop (h : f.pop = .ok (c, g)) : g.stack.length ≤ f.stack.length := by
  unfold pop at h
  split at h
  · exact absurd h (by simp)
  · rename_i c' rest hstack
    obtain ⟨-, rfl⟩ : c' = c ∧ { f with stack := rest } = g := by simpa using h
    rw [hstack, List.length_cons]
    exact Nat.le_succ _

theorem height_popKind (h : f.popKind k = .ok (c, g)) : g.stack.length ≤ f.stack.length := by
  obtain ⟨⟨c', g'⟩, hpop, h⟩ := Effect.bind_eq_ok h
  dsimp only at h
  split at h
  · obtain ⟨-, rfl⟩ : c' = c ∧ g' = g := by simpa using h
    exact height_pop hpop
  · exact absurd h (by simp)

theorem height_popNarrow (h : f.popNarrow = .ok (c, g)) : g.stack.length + 1 = f.stack.length := by
  obtain ⟨⟨c', g'⟩, hpop, h⟩ := Effect.bind_eq_ok h
  dsimp only at h
  split at h
  · obtain ⟨-, rfl⟩ : c' = c ∧ g' = g := by simpa using h
    unfold pop at hpop
    split at hpop
    · exact absurd hpop (by simp)
    · rename_i d rest hstack
      obtain ⟨-, rfl⟩ : d = c' ∧ { f with stack := rest } = g' := by simpa using hpop
      rw [hstack, List.length_cons]
  · exact absurd h (by simp)

theorem height_popKinds (h : f.popKinds ks = .ok g) : g.stack.length ≤ f.stack.length := by
  induction ks generalizing f with
  | nil =>
    obtain rfl : f = g := by simpa [popKinds] using h
    exact Nat.le_refl _
  | cons k ks ih =>
    rw [popKinds] at h
    obtain ⟨⟨c, f'⟩, hpop, h⟩ := Effect.bind_eq_ok h
    exact (ih h).trans (height_popKind hpop)

theorem height_replace (h : f.replace ks c = .ok g) : g.stack.length ≤ f.stack.length + 1 := by
  obtain ⟨f', hpop, h⟩ := Effect.bind_eq_ok h
  rw [← Except.ok.inj h]
  exact Nat.succ_le_succ (height_popKinds hpop)

/-- what a call leaves -/
theorem height_result {ret : Option FieldType}
    (h : (match ret with
      | some t => Except.ok (f.push (.ofType t))
      | none => Except.ok f : Except AnalysisFailure Frame) = .ok g) :
    g.stack.length ≤ f.stack.length + 1 := by
  cases ret with
  | none =>
    rw [← Except.ok.inj h]
    exact Nat.le_succ _
  | some t =>
    rw [← Except.ok.inj h]
    exact Nat.le_refl _

/-- **An instruction** makes the stack at most two entries higher -/
theorem height_apply (h : f.apply i = .ok g) : g.stack.length ≤ f.stack.length + 2 := by
  cases i with
  | label | nop | jump =>
    rw [← Except.ok.inj h]
    omega
  | nullConst | intConst | longConst | floatConst | doubleConst | stringConst | new =>
    rw [← Except.ok.inj h]
    exact Nat.le_succ _
  | load k slot =>
    obtain ⟨c, -, h⟩ := Effect.bind_eq_ok h
    split at h
    · rw [← Except.ok.inj h]
      exact Nat.le_succ _
    · exact absurd h (by simp)
  | store k slot =>
    obtain ⟨c, f', hpopped, h⟩ : ∃ c f', f.popKind k = .ok (c, f') ∧ f'.setLocal slot c = .ok g := by
      obtain ⟨⟨c, f'⟩, hpopped, h⟩ := Effect.bind_eq_ok h
      exact ⟨c, f', hpopped, h⟩
    have hheight := height_popKind hpopped
    unfold setLocal at h
    split at h
    · rw [← Except.ok.inj h]
      exact hheight.trans (Nat.le_add_right _ 2)
    · exact absurd h (by simp)
  | increment slot d =>
    obtain ⟨c, -, h⟩ := Effect.bind_eq_ok h
    split at h
    · rw [← Except.ok.inj h]
      omega
    · exact absurd h (by simp)
  | arith | neg | convert | compare | arrayLength | instanceOf => exact (height_replace h).trans (Nat.le_succ _)
  | branch | tableSwitch | lookupSwitch | branchCompare | branchSame | branchDistinct | branchNull
  | branchNonNull | throw | arrayStore => exact (height_popKinds h).trans (Nat.le_add_right _ 2)
  | jumpSubroutine | returnSubroutine => exact absurd h (by simp [apply])
  | ret k =>
    cases k with
    | none =>
      rw [← Except.ok.inj h]
      omega
    | some k => exact (height_popKinds h).trans (Nat.le_add_right _ 2)
  | getStatic r =>
    obtain ⟨c, -, h⟩ := Effect.bind_eq_ok h
    rw [← Except.ok.inj h]
    exact Nat.le_succ _
  | putStatic r =>
    obtain ⟨c, -, h⟩ := Effect.bind_eq_ok h
    exact (height_popKinds h).trans (Nat.le_add_right _ 2)
  | getField r =>
    obtain ⟨f', hf', h⟩ := Effect.bind_eq_ok h
    obtain ⟨c, -, h⟩ := Effect.bind_eq_ok h
    have hheight := height_popKinds hf'
    rw [← Except.ok.inj h]
    show f'.stack.length + 1 ≤ f.stack.length + 2
    omega
  | putField r =>
    obtain ⟨c, -, h⟩ := Effect.bind_eq_ok h
    exact (height_popKinds h).trans (Nat.le_add_right _ 2)
  | invoke kind m =>
    cases hd : MethodDesc.parse? m.desc with
    | none =>
      simp only [apply, hd] at h
      exact absurd h (by simp)
    | some d =>
      simp only [apply, hd] at h
      obtain ⟨f1, hf1, h⟩ := Effect.bind_eq_ok h
      have hargs := height_popKinds hf1
      split at h
      · obtain ⟨f2, hf2, h⟩ := Effect.bind_eq_ok h
        have hreceiver := height_popKinds hf2
        have hresult := height_result h
        omega
      · obtain ⟨f2, hf2, h⟩ := Effect.bind_eq_ok h
        obtain rfl := Except.ok.inj hf2
        have hresult := height_result h
        omega
  | newArray t =>
    obtain ⟨_, -, h⟩ := Effect.bind_eq_ok h
    exact (height_replace h).trans (Nat.le_succ _)
  | arrayLoad k =>
    obtain ⟨f1, hf1, h⟩ := Effect.bind_eq_ok h
    obtain ⟨⟨c, f2⟩, hf2, h⟩ := Effect.bind_eq_ok h
    have hindex := height_popKinds hf1
    have harray := height_popKind hf2
    rw [← Except.ok.inj h]
    show f2.stack.length + 1 ≤ f.stack.length + 2
    omega
  | checkCast t =>
    obtain ⟨⟨c, f'⟩, hf', h⟩ := Effect.bind_eq_ok h
    have hheight := height_popKind hf'
    rw [← Except.ok.inj h]
    show f'.stack.length + 1 ≤ f.stack.length + 2
    omega
  | pop =>
    obtain ⟨⟨c, f'⟩, hf', h⟩ := Effect.bind_eq_ok h
    have hheight := height_popNarrow hf'
    rw [← Except.ok.inj h]
    omega
  | pop2 =>
    obtain ⟨top, -, h⟩ := Effect.bind_eq_ok h
    dsimp only at h
    split at h
    · obtain ⟨⟨c, f'⟩, hf', h⟩ := Effect.bind_eq_ok h
      have hheight := height_pop hf'
      rw [← Except.ok.inj h]
      exact hheight.trans (Nat.le_add_right _ 2)
    · obtain ⟨⟨a, f1⟩, hf1, h⟩ := Effect.bind_eq_ok h
      obtain ⟨⟨b, f2⟩, hf2, h⟩ := Effect.bind_eq_ok h
      have h1 : f1.stack.length + 1 = f.stack.length := height_popNarrow hf1
      have h2 : f2.stack.length + 1 = f1.stack.length := height_popNarrow hf2
      rw [← Except.ok.inj h]
      show f2.stack.length ≤ f.stack.length + 2
      omega
  | dup =>
    obtain ⟨⟨a, f1⟩, hf1, h⟩ := Effect.bind_eq_ok h
    have h1 : f1.stack.length + 1 = f.stack.length := height_popNarrow hf1
    rw [← Except.ok.inj h]
    show f1.stack.length + 2 ≤ f.stack.length + 2
    omega
  | dupX1 =>
    obtain ⟨⟨a, f1⟩, hf1, h⟩ := Effect.bind_eq_ok h
    obtain ⟨⟨b, f2⟩, hf2, h⟩ := Effect.bind_eq_ok h
    have h1 : f1.stack.length + 1 = f.stack.length := height_popNarrow hf1
    have h2 : f2.stack.length + 1 = f1.stack.length := height_popNarrow hf2
    rw [← Except.ok.inj h]
    show f2.stack.length + 3 ≤ f.stack.length + 2
    omega
  | dup2 =>
    obtain ⟨top, -, h⟩ := Effect.bind_eq_ok h
    dsimp only at h
    split at h
    · rw [← Except.ok.inj h]
      exact Nat.le_succ _
    · obtain ⟨⟨a, f1⟩, hf1, h⟩ := Effect.bind_eq_ok h
      obtain ⟨⟨b, f2⟩, hf2, h⟩ := Effect.bind_eq_ok h
      have h1 : f1.stack.length + 1 = f.stack.length := height_popNarrow hf1
      have h2 : f2.stack.length + 1 = f1.stack.length := height_popNarrow hf2
      rw [← Except.ok.inj h]
      show f2.stack.length + 4 ≤ f.stack.length + 2
      omega
  | swap =>
    obtain ⟨⟨a, f1⟩, hf1, h⟩ := Effect.bind_eq_ok h
    obtain ⟨⟨b, f2⟩, hf2, h⟩ := Effect.bind_eq_ok h
    have h1 : f1.stack.length + 1 = f.stack.length := height_popNarrow hf1
    have h2 : f2.stack.length + 1 = f1.stack.length := height_popNarrow hf2
    rw [← Except.ok.inj h]
    show f2.stack.length + 2 ≤ f.stack.length + 2
    omega

end

end Frame
end Resumable
