import Resumable.Proofs.Safe

/-!
# Instructions that lines can name

Mnemonics of arithmetic start with the letter of a numeric kind, and a conversion names another numeric
kind: there is no line for arithmetic on references or for the conversion of a kind to itself.

* `Insn.Assembled` : the label of a line, or the instruction of one;
* `Insn.Assembled.numeric` : arithmetic is done on numbers.
-/

namespace Resumable

open Assembly

/-- an instruction that some line names, or a label -/
def Insn.Assembled (i : Insn) : Prop :=
  (∃ l, i = .label l) ∨ ∃ (b b' : Body) (l : Line), b.insn l = .ok (i, b')

namespace Assembly.Body

variable {b b' : Body} {l : Line} {i : Insn} {k : Kind} {rest : List Char}

/-- what a table of instructions has at a key is one of its entries -/
theorem mem_of_lookup {α : Type} {table : List (String × α)} {key : String} {a : α}
    (h : table.lookup key = some a) : a ∈ table.map Prod.snd := by
  induction table with
  | nil => exact absurd h (by simp)
  | cons entry table ih =>
    obtain ⟨key', a'⟩ := entry
    rw [List.lookup_cons] at h
    split at h
    · rw [Option.some.inj h]
      exact List.mem_cons_self
    · exact List.mem_cons_of_mem _ (ih h)

/-- the result of a computation that goes on with the same body -/
theorem insn_of_bind {α : Type} {x : Except BuildError α} {make : α → Insn × Body}
    (h : (x >>= fun a => Except.ok (make a)) = .ok (i, b')) : ∃ a, (make a).1 = i := by
  obtain ⟨a, -, h⟩ := Effect.bind_eq_ok h
  exact ⟨a, by rw [Except.ok.inj h]⟩

theorem conversion?_numeric {t : Kind} (h : conversion? k rest = some t) :
    t.isNumeric = true ∧ t ≠ k := by
  unfold conversion? at h
  split at h
  · obtain ⟨-, ht⟩ := Option.filter_eq_some_iff.1 h
    simpa using ht
  · exact absurd h (by simp)

theorem typedInsn_numeric (h : typedInsn l k rest = .ok i) : i.Numeric := by
  unfold typedInsn at h
  split at h
  · obtain ⟨slot, -, h⟩ := Effect.bind_eq_ok h
    rw [← Except.ok.inj h]
    trivial
  · obtain ⟨slot, -, h⟩ := Effect.bind_eq_ok h
    rw [← Except.ok.inj h]
    trivial
  · rw [← Except.ok.inj h]
    trivial
  · rw [← Except.ok.inj h]
    trivial
  · rw [← Except.ok.inj h]
    trivial
  · split at h
    · exact absurd h (by simp [Line.error])
    · rename_i hk
      have hnum : k.isNumeric = true := by simpa using hk
      split at h
      · rw [← Except.ok.inj h]
        exact hnum
      · split at h
        · rw [← Except.ok.inj h]
          exact hnum
        · rename_i t ht
          rw [← Except.ok.inj h]
          exact ⟨hnum, conversion?_numeric ht⟩
        · exact absurd h (by simp [Line.error])

theorem familyInsn_numeric (h : b.familyInsn l = .ok (i, b')) : i.Numeric := by
  unfold familyInsn at h
  split at h
  · obtain ⟨t, rfl⟩ := insn_of_bind h
    trivial
  · obtain ⟨t, rfl⟩ := insn_of_bind h
    trivial
  · split at h
    · split at h
      · obtain ⟨i', hi', h⟩ := Effect.bind_eq_ok h
        obtain ⟨rfl, -⟩ := Prod.mk.inj (Except.ok.inj h)
        exact typedInsn_numeric hi'
      · exact absurd h (by simp [Line.error])
    · exact absurd h (by simp [Line.error])

theorem operandInsn?_numeric (h : b.operandInsn? l = some (.ok (i, b'))) : i.Numeric := by
  unfold operandInsn? at h
  split at h
  all_goals first
    | replace h := Option.some.inj h
    | cases h
  · obtain ⟨v, rfl⟩ := insn_of_bind h
    trivial
  · obtain ⟨v, rfl⟩ := insn_of_bind h
    trivial
  · obtain ⟨v, rfl⟩ := insn_of_bind h
    trivial
  · obtain ⟨v, rfl⟩ := insn_of_bind h
    trivial
  · obtain ⟨v, rfl⟩ := insn_of_bind h
    trivial
  · obtain ⟨slot, -, h⟩ := Effect.bind_eq_ok h
    obtain ⟨v, rfl⟩ := insn_of_bind h
    trivial
  · obtain ⟨v, rfl⟩ := insn_of_bind h
    trivial
  · obtain ⟨low, -, h⟩ := Effect.bind_eq_ok h
    obtain ⟨d, -, h⟩ := Effect.bind_eq_ok h
    obtain ⟨ts, rfl⟩ := insn_of_bind h
    trivial
  · obtain ⟨d, -, h⟩ := Effect.bind_eq_ok h
    obtain ⟨cs, rfl⟩ := insn_of_bind h
    trivial

end Assembly.Body

/-- **The instruction of a line** does arithmetic on numbers -/
theorem Insn.Assembled.numeric {i : Insn} (h : i.Assembled) : i.Numeric := by
  rcases h with ⟨l, rfl⟩ | ⟨b, b', l, h⟩
  · trivial
  unfold Body.insn at h
  split at h
  · rename_i j hj
    obtain ⟨_, rfl⟩ := Body.insn_of_bind h
    have hall : ∀ i ∈ Body.bareInsns.map Prod.snd, i.Numeric := by
      simp [Body.bareInsns, Numeric]
    exact hall j (Body.mem_of_lookup hj)
  split at h
  · rename_i jump hjump
    obtain ⟨⟨t, _⟩, rfl⟩ := Body.insn_of_bind h
    have hall : ∀ jump ∈ Body.jumpInsns.map Prod.snd, ∀ t, (jump t).Numeric := by
      simp [Body.jumpInsns, Numeric]
    exact hall jump (Body.mem_of_lookup hjump) t
  split at h
  · rename_i access haccess
    obtain ⟨_, -, h⟩ := Effect.bind_eq_ok h
    obtain ⟨⟨owner, name⟩, -, h⟩ := Effect.bind_eq_ok h
    obtain ⟨desc, rfl⟩ := Body.insn_of_bind h
    have hall : ∀ access ∈ Body.fieldInsns.map Prod.snd, ∀ r, (access r).Numeric := by
      simp [Body.fieldInsns, Numeric]
    exact hall access (Body.mem_of_lookup haccess) _
  split at h
  · obtain ⟨_, -, h⟩ := Effect.bind_eq_ok h
    obtain ⟨⟨owner, name⟩, -, h⟩ := Effect.bind_eq_ok h
    obtain ⟨desc, rfl⟩ := Body.insn_of_bind h
    trivial
  split at h
  · rename_i make hmake
    obtain ⟨w, rfl⟩ := Body.insn_of_bind h
    have hall : ∀ make ∈ Body.typeInsns.map Prod.snd, ∀ w, (make w).Numeric := by
      simp [Body.typeInsns, Numeric]
    exact hall make (Body.mem_of_lookup hmake) w
  split at h
  · rename_i r hr
    exact Body.operandInsn?_numeric (hr.trans (congrArg some h))
  · exact Body.familyInsn_numeric h

end Resumable
