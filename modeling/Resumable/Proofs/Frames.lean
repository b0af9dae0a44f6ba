import Mathlib.Data.List.Forall2
import Resumable.Frame.Effect
import Resumable.Frame.Merge
import Resumable.Proofs.Effects
import Resumable.Proofs.Supertypes

/-!
# What every frame satisfies

A frame that is found for an instruction has as many locals as the method has at its start, every
wide local has an empty slot behind it, and every operand has a category that values can have.  An
instruction changes the locals only if it is a store.

* `WideOk`, `Frame.Sound` : the properties;
* `Frame.Keeps.of_apply` : only a store changes locals;
* `Frame.Above` : a frame that takes nothing for granted beyond another one, as a join does;
* `Frame.Sound.apply`, `Frame.Sound.merge` : the properties are kept by instructions and by joins.
-/

namespace Resumable

/-- the slot behind a wide local is there and holds no value -/
def WideOk (cs : List Category) : Prop :=
  ∀ (i : Nat) (c : Category), cs[i]? = some c → c.width = 2 →
    ∃ d, cs[i + 1]? = some d ∧ d.kind? = none

theorem WideOk.tail {c : Category} {cs : List Category} (h : WideOk (c :: cs)) : WideOk cs :=
  fun i d hd hw => h (i + 1) d hd hw

namespace Category

theorem kind?_of_width {c : Category} (h : c.width = 2) : ∃ k, c.kind? = some k := by
  cases c <;> first | exact ⟨_, rfl⟩ | exact absurd h (by simp [width])

/-- a category says nothing about a value that another one does not say; of references it gives a type
that is as wide -/
structure Above (p : Program) (c d : Category) : Prop where
  kind : ∀ k, c.kind? = some k → d.kind? = some k
  null : c = .null → d = .null
  type : ∀ t, c = .ref t → d = .null ∨ ∃ s, d = .ref s ∧ p.Widens s t

theorem Above.refl (p : Program) (c : Category) : c.Above p c :=
  ⟨fun _ h => h, id, fun t ht => .inr ⟨t, ht, .refl p t⟩⟩

theorem Above.trans {p : Program} {c d e : Category} (h : c.Above p d) (h' : d.Above p e) :
    c.Above p e := by
  refine ⟨fun k hk => h'.kind k (h.kind k hk), fun hc => h'.null (h.null hc), fun t ht => ?_⟩
  rcases h.type t ht with hd | ⟨s, hd, hst⟩
  · exact .inl (h'.null hd)
  · rcases h'.type s hd with he | ⟨r, he, hrs⟩
    · exact .inl he
    · exact .inr ⟨r, he, hrs.trans hst⟩

theorem Above.trans_forall₂ {p : Program} {cs ds es : List Category}
    (h : List.Forall₂ (Above p) cs ds) (h' : List.Forall₂ (Above p) ds es) :
    List.Forall₂ (Above p) cs es := by
  induction h generalizing es with
  | nil => exact h'
  | cons hcd _ ih =>
    cases h' with
    | cons hde hrest => exact .cons (hcd.trans hde) (ih hrest)

end Category

namespace Frame

/-- every operand has a category that values can have -/
def Loaded (f : Frame) : Prop := ∀ c ∈ f.stack, ∃ k, c.kind? = some k

/-- what every frame of a method with so many locals satisfies -/
structure Sound (n : Nat) (f : Frame) : Prop where
  length : f.locals.length = n
  wide : WideOk f.locals
  loaded : f.Loaded

/-- an instruction that leaves the locals alone and the operands loaded -/
structure Keeps (f g : Frame) : Prop where
  locals : g.locals = f.locals
  loaded : f.Loaded → g.Loaded

section
variable {f g e : Frame} {c d : Category} {k : Kind}

theorem Keeps.refl (f : Frame) : f.Keeps f := ⟨rfl, id⟩

theorem Keeps.trans (h : f.Keeps g) (h' : g.Keeps e) : f.Keeps e :=
  ⟨h'.locals.trans h.locals, fun hf => h'.loaded (h.loaded hf)⟩

theorem Keeps.push (h : f.Keeps g) (hc : f.Loaded → ∃ k, c.kind? = some k) :
    f.Keeps (g.push c) := by
  refine ⟨h.locals, fun hf d hd => ?_⟩
  rcases List.mem_cons.1 hd with rfl | hd
  · exact hc hf
  · exact h.loaded hf d hd

/-! ## operands taken -/

theorem Keeps.of_pop (h : f.pop = .ok (c, g)) :
    f.Keeps g ∧ (f.Loaded → ∃ k, c.kind? = some k) := by
  unfold pop at h
  split at h
  · exact absurd h (by simp)
  · rename_i c' rest hstack
    injection h with h
    obtain ⟨rfl, rfl⟩ : c' = c ∧ { f with stack := rest } = g := by simpa using h
    refine ⟨⟨rfl, fun hf d hd => hf d ?_⟩, fun hf => hf c' ?_⟩
    · rw [hstack]
      exact List.mem_cons_of_mem _ hd
    · rw [hstack]
      exact List.mem_cons_self

theorem Keeps.of_popKind (h : f.popKind k = .ok (c, g)) : f.Keeps g ∧ c.kind? = some k := by
  unfold popKind at h
  obtain ⟨⟨c', g'⟩, hpop, h⟩ := Effect.bind_eq_ok h
  dsimp only at h
  split at h
  · rename_i hk
    obtain ⟨rfl, rfl⟩ : c' = c ∧ g' = g := by simpa using h
    exact ⟨(Keeps.of_pop hpop).1, hk⟩
  · exact absurd h (by simp)

theorem Keeps.of_popNarrow (h : f.popNarrow = .ok (c, g)) :
    f.Keeps g ∧ (f.Loaded → ∃ k, c.kind? = some k) := by
  unfold popNarrow at h
  obtain ⟨⟨c', g'⟩, hpop, h⟩ := Effect.bind_eq_ok h
  dsimp only at h
  split at h
  · obtain ⟨rfl, rfl⟩ : c' = c ∧ g' = g := by simpa using h
    exact Keeps.of_pop hpop
  · exact absurd h (by simp)

theorem Keeps.of_popKinds {ks : List Kind} (h : f.popKinds ks = .ok g) : f.Keeps g := by
  induction ks generalizing f with
  | nil =>
    obtain rfl : f = g := by simpa [popKinds] using h
    exact .refl f
  | cons k ks ih =>
    rw [popKinds] at h
    obtain ⟨⟨c, f'⟩, hpop, h⟩ := Effect.bind_eq_ok h
    exact (Keeps.of_popKind hpop).1.trans (ih h)

theorem Keeps.of_replace {ks : List Kind} (hk : c.kind? = some k) (h : f.replace ks c = .ok g) :
    f.Keeps g := by
  unfold replace at h
  obtain ⟨f', hpop, h⟩ := Effect.bind_eq_ok h
  injection h with h
  rw [← h]
  exact (Keeps.of_popKinds hpop).push fun _ => ⟨k, hk⟩

theorem kind?_fieldCategory {desc : String} (h : fieldCategory desc = .ok c) :
    ∃ k, c.kind? = some k := by
  unfold fieldCategory at h
  split at h
  · rename_i t _
    injection h with h
    rw [← h]
    exact ⟨t.kind, Category.kind?_ofType t⟩
  · exact absurd h (by simp)

theorem kind?_componentOf (c : Category) (k : Kind) : ∃ k', (componentOf c k).kind? = some k' := by
  unfold componentOf
  split
  · split
    · split
      · exact ⟨_, Category.kind?_ofType _⟩
      · exact ⟨_, rfl⟩
    · exact ⟨_, Category.kind?_ofKind _⟩
  · exact ⟨_, Category.kind?_ofKind _⟩

end

/-! ## instructions -/

section
variable {f g : Frame} {i : Insn}

theorem peek_mem {c : Category} (h : f.peek = .ok c) : c ∈ f.stack := by
  unfold peek at h
  split at h
  · exact absurd h (by simp)
  · rename_i c' rest hstack
    injection h with h
    rw [hstack, ← h]
    exact List.mem_cons_self

/-- the result of a call is pushed -/
theorem Keeps.of_result {ret : Option FieldType}
    (h : (match ret with
      | some t => Except.ok (f.push (.ofType t))
      | none => Except.ok f : Except AnalysisFailure Frame) = .ok g) : f.Keeps g := by
  cases ret with
  | none =>
    injection h with h
    rw [← h]
    exact .refl f
  | some t =>
    injection h with h
    rw [← h]
    exact (Keeps.refl f).push fun _ => ⟨t.kind, Category.kind?_ofType t⟩

/-- an instruction other than a store leaves the locals alone -/
theorem Keeps.of_apply (hi : ∀ k slot, i ≠ .store k slot) (h : f.apply i = .ok g) : f.Keeps g := by
  cases i with
  | store k slot => exact absurd rfl (hi k slot)
  | label | nop | jump =>
    injection h with h
    rw [← h]
    exact .refl f
  | nullConst | intConst | longConst | floatConst | doubleConst | stringConst | new =>
    injection h with h
    rw [← h]
    exact (Keeps.refl f).push fun _ => ⟨_, rfl⟩
  | load k slot =>
    obtain ⟨c, -, h⟩ := Effect.bind_eq_ok h
    split at h
    · rename_i hk
      injection h with h
      rw [← h]
      exact (Keeps.refl f).push fun _ => ⟨k, hk⟩
    · exact absurd h (by simp)
  | increment slot d =>
    obtain ⟨c, -, h⟩ := Effect.bind_eq_ok h
    split at h
    · injection h with h
      rw [← h]
      exact .refl f
    · exact absurd h (by simp)
  | arith _ k | neg k => exact .of_replace (Category.kind?_ofKind k) h
  | convert _ t => exact .of_replace (Category.kind?_ofKind t) h
  | compare | arrayLength | instanceOf => exact .of_replace rfl h
  | branch | tableSwitch | lookupSwitch | branchCompare | branchSame | branchDistinct | branchNull
  | branchNonNull | throw | arrayStore => exact .of_popKinds h
  | jumpSubroutine | returnSubroutine => exact absurd h (by simp [apply])
  | ret k =>
    cases k with
    | none =>
      injection h with h
      rw [← h]
      exact .refl f
    | some k => exact .of_popKinds h
  | getStatic r =>
    obtain ⟨c, hc, h⟩ := Effect.bind_eq_ok h
    injection h with h
    rw [← h]
    exact (Keeps.refl f).push fun _ => kind?_fieldCategory hc
  | putStatic r =>
    obtain ⟨c, -, h⟩ := Effect.bind_eq_ok h
    exact .of_popKinds h
  | getField r =>
    obtain ⟨f', hf', h⟩ := Effect.bind_eq_ok h
    obtain ⟨c, hc, h⟩ := Effect.bind_eq_ok h
    injection h with h
    rw [← h]
    exact (Keeps.of_popKinds hf').push fun _ => kind?_fieldCategory hc
  | putField r =>
    obtain ⟨c, -, h⟩ := Effect.bind_eq_ok h
    exact .of_popKinds h
  | invoke kind m =>
    cases hd : MethodDesc.parse? m.desc with
    | none =>
      simp only [apply, hd] at h
      exact absurd h (by simp)
    | some d =>
      simp only [apply, hd] at h
      obtain ⟨f1, hf1, h⟩ := Effect.bind_eq_ok h
      have h1 := Keeps.of_popKinds hf1
      split at h
      · obtain ⟨f2, hf2, h⟩ := Effect.bind_eq_ok h
        exact (h1.trans (Keeps.of_popKinds hf2)).trans (.of_result h)
      · obtain ⟨f2, hf2, h⟩ := Effect.bind_eq_ok h
        injection hf2 with hf2
        rw [← hf2] at h
        exact h1.trans (.of_result h)
  | newArray t =>
    obtain ⟨_, -, h⟩ := Effect.bind_eq_ok h
    exact .of_replace rfl h
  | arrayLoad k =>
    obtain ⟨f1, hf1, h⟩ := Effect.bind_eq_ok h
    obtain ⟨⟨c, f2⟩, hf2, h⟩ := Effect.bind_eq_ok h
    injection h with h
    rw [← h]
    exact ((Keeps.of_popKinds hf1).trans (Keeps.of_popKind hf2).1).push fun _ =>
      kind?_componentOf c k
  | checkCast t =>
    obtain ⟨⟨c, f'⟩, hf', h⟩ := Effect.bind_eq_ok h
    injection h with h
    rw [← h]
    refine (Keeps.of_popKind hf').1.push fun _ => ?_
    split <;> exact ⟨_, rfl⟩
  | pop =>
    obtain ⟨⟨c, f'⟩, hf', h⟩ := Effect.bind_eq_ok h
    injection h with h
    rw [← h]
    exact (Keeps.of_popNarrow hf').1
  | pop2 =>
    obtain ⟨top, -, h⟩ := Effect.bind_eq_ok h
    dsimp only at h
    split at h
    · obtain ⟨⟨c, f'⟩, hf', h⟩ := Effect.bind_eq_ok h
      injection h with h
      rw [← h]
      exact (Keeps.of_pop hf').1
    · obtain ⟨⟨a, f1⟩, hf1, h⟩ := Effect.bind_eq_ok h
      obtain ⟨⟨b, f2⟩, hf2, h⟩ := Effect.bind_eq_ok h
      injection h with h
      rw [← h]
      exact (Keeps.of_popNarrow hf1).1.trans (Keeps.of_popNarrow hf2).1
  | dup =>
    obtain ⟨⟨a, f1⟩, hf1, h⟩ := Effect.bind_eq_ok h
    injection h with h
    rw [← h]
    obtain ⟨h1, ha⟩ := Keeps.of_popNarrow hf1
    exact (h1.push ha).push ha
  | dupX1 =>
    obtain ⟨⟨a, f1⟩, hf1, h⟩ := Effect.bind_eq_ok h
    obtain ⟨⟨b, f2⟩, hf2, h⟩ := Effect.bind_eq_ok h
    injection h with h
    rw [← h]
    obtain ⟨h1, ha⟩ := Keeps.of_popNarrow hf1
    obtain ⟨h2, hb⟩ := Keeps.of_popNarrow hf2
    exact (((h1.trans h2).push ha).push fun hf => hb (h1.loaded hf)).push ha
  | dup2 =>
    obtain ⟨top, htop, h⟩ := Effect.bind_eq_ok h
    dsimp only at h
    split at h
    · injection h with h
      rw [← h]
      exact (Keeps.refl f).push fun hf => hf top (peek_mem htop)
    · obtain ⟨⟨a, f1⟩, hf1, h⟩ := Effect.bind_eq_ok h
      obtain ⟨⟨b, f2⟩, hf2, h⟩ := Effect.bind_eq_ok h
      injection h with h
      rw [← h]
      obtain ⟨h1, ha⟩ := Keeps.of_popNarrow hf1
      obtain ⟨h2, hb⟩ := Keeps.of_popNarrow hf2
      have hb' : f.Loaded → ∃ k, b.kind? = some k := fun hf => hb (h1.loaded hf)
      exact ((((h1.trans h2).push hb').push ha).push hb').push ha
  | swap =>
    obtain ⟨⟨a, f1⟩, hf1, h⟩ := Effect.bind_eq_ok h
    obtain ⟨⟨b, f2⟩, hf2, h⟩ := Effect.bind_eq_ok h
    injection h with h
    rw [← h]
    obtain ⟨h1, ha⟩ := Keeps.of_popNarrow hf1
    obtain ⟨h2, hb⟩ := Keeps.of_popNarrow hf2
    exact ((h1.trans h2).push ha).push fun hf => hb (h1.loaded hf)

/-- a store puts a value of its kind into its slot -/
theorem apply_store {k : Kind} {slot : UInt16} (h : f.apply (.store k slot) = .ok g) :
    ∃ c f', f.Keeps f' ∧ c.kind? = some k ∧ slot.toNat + c.width ≤ f.locals.length ∧
      g.locals = putLocal f.locals slot.toNat c ∧ g.stack = f'.stack := by
  obtain ⟨⟨c, f'⟩, hf', h⟩ := Effect.bind_eq_ok h
  obtain ⟨hkeeps, hk⟩ := Keeps.of_popKind hf'
  dsimp only at h
  unfold setLocal at h
  rw [hkeeps.locals] at h
  split at h
  · rename_i hle
    injection h with h
    exact ⟨c, f', hkeeps, hk, hle, by rw [← h], by rw [← h]⟩
  · exact absurd h (by simp)

end

/-! ## locals -/

/-- the locals without a wide value that reaches into an index -/
def cleared (locals : List Category) : Nat → List Category
  | 0 => locals
  | j + 1 =>
    if (locals[j]?).any (fun d : Category => d.width == 2) then locals.set j .empty else locals

section
variable {locals : List Category} {i n : Nat} {c : Category}

theorem putLocal_eq (locals : List Category) (i : Nat) (c : Category) :
    putLocal locals i c = if c.width = 2 then ((cleared locals i).set i c).set (i + 1) .empty
      else (cleared locals i).set i c := by
  cases i <;> rfl

theorem length_cleared (locals : List Category) (i : Nat) :
    (cleared locals i).length = locals.length := by
  cases i with
  | zero => rfl
  | succ j =>
    rw [cleared]
    split
    · rw [List.length_set]
    · rfl

/-- only the slot in front is ever cleared -/
theorem getElem?_cleared (locals : List Category) (i n : Nat) :
    (cleared locals i)[n]? = locals[n]? ∨ (cleared locals i)[n]? = some .empty ∧
      n + 1 = i ∧ ∃ d, locals[n]? = some d ∧ d.width = 2 := by
  cases i with
  | zero => exact .inl rfl
  | succ j =>
    rw [cleared]
    split
    · rename_i hany
      rw [Option.any_eq_true] at hany
      obtain ⟨d, hd, hd2⟩ := hany
      by_cases hj : n = j
      · subst hj
        refine .inr ⟨?_, rfl, d, hd, by simpa using hd2⟩
        rw [List.getElem?_set_self (List.getElem?_eq_some_iff.1 hd).1]
      · exact .inl (List.getElem?_set_ne (Ne.symm hj))
    · exact .inl rfl

/-- a wide value in front of the slot is cleared -/
theorem getElem?_cleared_of_wide {d : Category} (hd : locals[n]? = some d) (h2 : d.width = 2) :
    (cleared locals (n + 1))[n]? = some .empty := by
  have hany : (locals[n]?).any (fun d : Category => d.width == 2) = true := by
    rw [hd]
    simpa using h2
  rw [cleared, if_pos hany, List.getElem?_set_self (List.getElem?_eq_some_iff.1 hd).1]

theorem getElem?_putLocal_self (hi : i < locals.length) :
    (putLocal locals i c)[i]? = some c := by
  have hlt : i < (cleared locals i).length := by rw [length_cleared]; exact hi
  rw [putLocal_eq]
  split
  · rw [List.getElem?_set_ne (by omega), List.getElem?_set_self hlt]
  · rw [List.getElem?_set_self hlt]

theorem getElem?_putLocal_behind (hc : c.width = 2) (hi : i + 1 < locals.length) :
    (putLocal locals i c)[i + 1]? = some .empty := by
  rw [putLocal_eq, if_pos hc, List.getElem?_set_self]
  rw [List.length_set, length_cleared]
  exact hi

/-- elsewhere a store only clears -/
theorem getElem?_putLocal_of_ne (hn : n ≠ i) (hw : c.width = 2 → n ≠ i + 1) :
    (putLocal locals i c)[n]? = (cleared locals i)[n]? := by
  rw [putLocal_eq]
  split
  · rename_i h2
    rw [List.getElem?_set_ne (Ne.symm (hw h2)), List.getElem?_set_ne (Ne.symm hn)]
  · rw [List.getElem?_set_ne (Ne.symm hn)]

theorem not_kind?_empty {k : Kind} {d : Category} (h : some d = some .empty)
    (hk : d.kind? = some k) : False := by
  injection h with h
  rw [h] at hk
  exact absurd hk (by simp [Category.kind?])

/-- a local that holds a value after a store elsewhere held it before -/
theorem getElem?_of_putLocal {d : Category} {k : Kind} (hn : n ≠ i)
    (hd : (putLocal locals i c)[n]? = some d) (hk : d.kind? = some k) : locals[n]? = some d := by
  by_cases hbehind : c.width = 2 ∧ n = i + 1
  · obtain ⟨h2, rfl⟩ := hbehind
    have hlt : i + 1 < locals.length := by
      have h := (List.getElem?_eq_some_iff.1 hd).1
      rwa [length_putLocal] at h
    rw [getElem?_putLocal_behind h2 hlt] at hd
    exact (not_kind?_empty hd.symm hk).elim
  · rw [getElem?_putLocal_of_ne hn fun h2 h => hbehind ⟨h2, h⟩] at hd
    rcases getElem?_cleared locals i n with h | ⟨h, -⟩
    · rw [← h, hd]
    · exact (not_kind?_empty (hd.symm.trans h) hk).elim

theorem wideOk_putLocal (h : WideOk locals) (hi : i + c.width ≤ locals.length) :
    WideOk (putLocal locals i c) := by
  intro n d hd h2
  obtain ⟨k, hk⟩ := Category.kind?_of_width h2
  have hpos : 0 < c.width := by cases c <;> simp [Category.width]
  by_cases hn : n = i
  · subst hn
    rw [getElem?_putLocal_self (by omega)] at hd
    injection hd with hd
    subst hd
    exact ⟨.empty, getElem?_putLocal_behind h2 (by omega), rfl⟩
  · have hold := getElem?_of_putLocal hn hd hk
    obtain ⟨e, he, hnone⟩ := h n d hold h2
    -- the slot behind is not written to: the wide local would have been lost with it
    have hne : n + 1 ≠ i := by
      intro hni
      subst hni
      rw [getElem?_putLocal_of_ne hn (fun _ => by omega), getElem?_cleared_of_wide hold h2] at hd
      exact not_kind?_empty hd.symm hk
    have hbehind : c.width = 2 → n + 1 ≠ i + 1 := fun _ => by omega
    rcases getElem?_cleared locals i (n + 1) with hsame | ⟨hempty, -⟩
    · exact ⟨e, by rw [getElem?_putLocal_of_ne hne hbehind, hsame, he], hnone⟩
    · exact ⟨.empty, by rw [getElem?_putLocal_of_ne hne hbehind, hempty], rfl⟩

end

/-! ## instructions and joins -/

section
variable {p : Program} {n : Nat} {f g e : Frame} {i : Insn}

theorem length_apply (h : f.apply i = .ok g) : g.locals.length = f.locals.length := by
  by_cases hi : ∃ k slot, i = .store k slot
  · obtain ⟨k, slot, rfl⟩ := hi
    obtain ⟨c, f', -, -, -, hlocals, -⟩ := apply_store h
    rw [hlocals, length_putLocal]
  · rw [(Keeps.of_apply (fun k slot hi' => hi ⟨k, slot, hi'⟩) h).locals]

theorem Sound.apply (hf : f.Sound n) (h : f.apply i = .ok g) : g.Sound n := by
  by_cases hi : ∃ k slot, i = .store k slot
  · obtain ⟨k, slot, rfl⟩ := hi
    obtain ⟨c, f', hkeeps, hk, hle, hlocals, hstack⟩ := apply_store h
    refine ⟨?_, ?_, ?_⟩
    · rw [hlocals, length_putLocal, hf.length]
    · rw [hlocals]
      exact wideOk_putLocal hf.wide hle
    · intro d hd
      rw [hstack] at hd
      exact hkeeps.loaded hf.loaded d hd
  · have hkeeps := Keeps.of_apply (fun k slot hi' => hi ⟨k, slot, hi'⟩) h
    refine ⟨?_, ?_, hkeeps.loaded hf.loaded⟩
    · rw [hkeeps.locals, hf.length]
    · rw [hkeeps.locals]
      exact hf.wide

/-- a frame says nothing about the values of locals and operands that another one does not say -/
structure Above (p : Program) (f g : Frame) : Prop where
  locals : ∀ (i : Nat) (c : Category) (k : Kind), f.locals[i]? = some c → c.kind? = some k →
    ∃ d, g.locals[i]? = some d ∧ c.Above p d
  stack : List.Forall₂ (Category.Above p) f.stack g.stack

theorem Above.refl (p : Program) (f : Frame) : f.Above p f :=
  ⟨fun _ c _ hc _ => ⟨c, hc, .refl p c⟩, List.forall₂_same.2 fun c _ => .refl p c⟩

theorem Above.trans (h : f.Above p g) (h' : g.Above p e) : f.Above p e := by
  refine ⟨fun i c k hc hk => ?_, ?_⟩
  · obtain ⟨d, hd, hcd⟩ := h.locals i c k hc hk
    obtain ⟨d', hd', hdd⟩ := h'.locals i d k hd (hcd.kind k hk)
    exact ⟨d', hd', hcd.trans hdd⟩
  · exact Category.Above.trans_forall₂ h.stack h'.stack

/-- a frame takes no local for a value of a kind unless the other one does -/
def Covers (f g : Frame) : Prop :=
  ∀ (i : Nat) (c : Category) (k : Kind), f.locals[i]? = some c → c.kind? = some k →
    ∃ d, g.locals[i]? = some d ∧ d.kind? = some k

theorem Above.covers (h : f.Above p g) : f.Covers g := by
  intro i c k hc hk
  obtain ⟨d, hd, hcd⟩ := h.locals i c k hc hk
  exact ⟨d, hd, hcd.kind k hk⟩

theorem Covers.refl (f : Frame) : f.Covers f := fun _ c _ hc hk => ⟨c, hc, hk⟩

theorem Covers.trans (h : f.Covers g) (h' : g.Covers e) : f.Covers e := by
  intro i c k hc hk
  obtain ⟨d, hd, hdk⟩ := h i c k hc hk
  exact h' i d k hd hdk

/-- the join of two categories is of the kind of both -/
theorem kind?_mergeCategory {a b c : Category} (h : mergeCategory p a b = some c) :
    c.kind? = a.kind? ∧ c.kind? = b.kind? := by
  unfold mergeCategory at h
  split at h
  · rename_i hab
    injection h with h
    rw [← h, ← hab]
    exact ⟨rfl, rfl⟩
  · split at h
    · injection h with h
      rw [← h]
      exact ⟨rfl, rfl⟩
    · injection h with h
      rw [← h]
      exact ⟨rfl, rfl⟩
    · injection h with h
      rw [← h]
      exact ⟨rfl, rfl⟩
    · exact absurd h (by simp)

theorem above_mergeCategory {a b c : Category} (h : mergeCategory p a b = some c) :
    c.Above p a ∧ c.Above p b := by
  obtain ⟨ha, hb⟩ := kind?_mergeCategory h
  unfold mergeCategory at h
  split at h
  · rename_i hab
    obtain rfl := Option.some.inj h
    exact ⟨.refl p a, hab ▸ .refl p a⟩
  · split at h
    · obtain rfl := Option.some.inj h
      exact ⟨⟨fun k hk => ha ▸ hk, fun hc => absurd hc (by simp), fun _ _ => .inl rfl⟩, .refl p _⟩
    · obtain rfl := Option.some.inj h
      exact ⟨.refl p _, ⟨fun k hk => hb ▸ hk, fun hc => absurd hc (by simp), fun _ _ => .inl rfl⟩⟩
    · rename_i s t _
      obtain rfl := Option.some.inj h
      obtain ⟨hs, ht⟩ := p.widens_commonSupertype s t
      refine ⟨⟨fun k hk => ha ▸ hk, fun hc => absurd hc (by simp), fun u hu => ?_⟩,
        fun k hk => hb ▸ hk, fun hc => absurd hc (by simp), fun u hu => ?_⟩
      · exact .inr ⟨s, rfl, Category.ref.inj hu ▸ hs⟩
      · exact .inr ⟨t, rfl, Category.ref.inj hu ▸ ht⟩
    · exact absurd h (by simp)

/-- a joined stack is above both -/
theorem above_mergeStack {as bs cs : List Category} (hlen : as.length = bs.length)
    (h : mergeStack p as bs = .ok cs) :
    List.Forall₂ (Category.Above p) cs as ∧ List.Forall₂ (Category.Above p) cs bs := by
  induction as generalizing bs cs with
  | nil =>
    obtain rfl : [] = cs := by simpa [mergeStack] using h
    obtain rfl : bs = [] := List.length_eq_zero_iff.1 hlen.symm
    exact ⟨.nil, .nil⟩
  | cons a as ih =>
    cases bs with
    | nil => exact absurd hlen (by simp)
    | cons b bs =>
      rw [mergeStack] at h
      obtain ⟨rest, hrest, h⟩ := Effect.bind_eq_ok h
      obtain ⟨h1, h2⟩ := ih (by simpa using hlen) hrest
      cases hm : mergeCategory p a b with
      | none => rw [hm] at h; exact absurd h (by simp)
      | some d =>
        rw [hm] at h
        injection h with h
        obtain ⟨ha, hb⟩ := above_mergeCategory hm
        rw [← h]
        exact ⟨.cons ha h1, .cons hb h2⟩

theorem length_mergeLocals {as bs : List Category} (h : as.length = bs.length) :
    (mergeLocals p as bs).length = as.length := by
  induction as generalizing bs with
  | nil =>
    obtain rfl : bs = [] := List.length_eq_zero_iff.1 h.symm
    rfl
  | cons a as ih =>
    cases bs with
    | nil => exact absurd h (by simp)
    | cons b bs =>
      rw [mergeLocals, List.length_cons, List.length_cons, ih (by simpa using h)]

theorem getElem?_mergeLocals {as bs : List Category} (h : as.length = bs.length) (i : Nat) :
    (mergeLocals p as bs)[i]? =
      as[i]?.bind fun a => bs[i]?.map fun b => (mergeCategory p a b).getD .empty := by
  induction as generalizing bs i with
  | nil =>
    obtain rfl : bs = [] := List.length_eq_zero_iff.1 h.symm
    rfl
  | cons a as ih =>
    cases bs with
    | nil => exact absurd h (by simp)
    | cons b bs =>
      rw [mergeLocals]
      cases i with
      | zero => rfl
      | succ i =>
        rw [List.getElem?_cons_succ, List.getElem?_cons_succ, List.getElem?_cons_succ,
          ih (by simpa using h)]

/-- what a joined local says, both locals say -/
theorem mergeLocals_kind? {as bs : List Category} (h : as.length = bs.length) {i : Nat}
    {c : Category} {k : Kind} (hc : (mergeLocals p as bs)[i]? = some c) (hk : c.kind? = some k) :
    ∃ a b, as[i]? = some a ∧ bs[i]? = some b ∧ mergeCategory p a b = some c ∧
      a.kind? = some k ∧ b.kind? = some k := by
  rw [getElem?_mergeLocals h] at hc
  cases ha : as[i]? with
  | none => rw [ha] at hc; exact absurd hc (by simp)
  | some a =>
    cases hb : bs[i]? with
    | none => rw [ha, hb] at hc; exact absurd hc (by simp)
    | some b =>
      rw [ha, hb] at hc
      cases hm : mergeCategory p a b with
      | none =>
        obtain rfl : Category.empty = c := by simpa [hm] using hc
        exact absurd hk (by simp [Category.kind?])
      | some d =>
        obtain rfl : d = c := by simpa [hm] using hc
        obtain ⟨h1, h2⟩ := kind?_mergeCategory hm
        exact ⟨a, b, rfl, rfl, hm, by rw [← h1, hk], by rw [← h2, hk]⟩

theorem mergeStack_loaded {as bs cs : List Category} (h : mergeStack p as bs = .ok cs)
    (has : ∀ c ∈ as, ∃ k, c.kind? = some k) : ∀ c ∈ cs, ∃ k, c.kind? = some k := by
  induction as generalizing bs cs with
  | nil =>
    obtain rfl : [] = cs := by simpa [mergeStack] using h
    exact fun c hc => absurd hc (by simp)
  | cons a as ih =>
    cases bs with
    | nil =>
      obtain rfl : [] = cs := by simpa [mergeStack] using h
      exact fun c hc => absurd hc (by simp)
    | cons b bs =>
      rw [mergeStack] at h
      obtain ⟨rest, hrest, h⟩ := Effect.bind_eq_ok h
      cases hm : mergeCategory p a b with
      | none => rw [hm] at h; exact absurd h (by simp)
      | some d =>
        rw [hm] at h
        injection h with h
        rw [← h]
        intro c hc
        rcases List.mem_cons.1 hc with rfl | hc
        · rw [(kind?_mergeCategory hm).1]
          exact has a List.mem_cons_self
        · exact ih hrest (fun c hc => has c (List.mem_cons_of_mem _ hc)) c hc

/-- **Joins** are sound, and above both sides -/
theorem Sound.merge (hf : f.Sound n) (hg : g.Sound n) (h : Frame.merge p f g = .ok e) :
    e.Sound n ∧ e.Above p f ∧ e.Above p g := by
  have hlen : f.locals.length = g.locals.length := hf.length.trans hg.length.symm
  unfold Frame.merge at h
  split at h
  · rename_i hheight
    obtain ⟨stack, hstack, h⟩ := Effect.bind_eq_ok h
    injection h with h
    subst h
    obtain ⟨habove, habove'⟩ := above_mergeStack hheight hstack
    refine ⟨⟨?_, ?_, mergeStack_loaded hstack hf.loaded⟩, ⟨?_, habove⟩, ?_, habove'⟩
    · rw [length_mergeLocals hlen, hf.length]
    · intro i c hc h2
      obtain ⟨k, hk⟩ := Category.kind?_of_width h2
      obtain ⟨a, b, ha, hb, hm, hak, hbk⟩ := mergeLocals_kind? hlen hc hk
      have ha2 : a.width = 2 := by
        rw [Category.width_eq_of_kind? hak, ← Category.width_eq_of_kind? hk, h2]
      obtain ⟨d, hd, hnone⟩ := hf.wide i a ha ha2
      have hlt : i + 1 < (mergeLocals p f.locals g.locals).length := by
        rw [length_mergeLocals hlen]
        exact (List.getElem?_eq_some_iff.1 hd).1
      refine ⟨_, List.getElem?_eq_getElem hlt, ?_⟩
      cases hkind : (mergeLocals p f.locals g.locals)[i + 1].kind? with
      | none => rfl
      | some k' =>
        obtain ⟨a', -, ha', -, -, hak', -⟩ :=
          mergeLocals_kind? hlen (List.getElem?_eq_getElem hlt) hkind
        obtain rfl : d = a' := by
          rw [hd] at ha'
          injection ha'
        rw [hnone] at hak'
        exact absurd hak' (by simp)
    · intro i c k hc hk
      obtain ⟨a, b, ha, hb, hm, -, -⟩ := mergeLocals_kind? hlen hc hk
      exact ⟨a, ha, (above_mergeCategory hm).1⟩
    · intro i c k hc hk
      obtain ⟨a, b, ha, hb, hm, -, -⟩ := mergeLocals_kind? hlen hc hk
      exact ⟨b, hb, (above_mergeCategory hm).2⟩
  · exact absurd h (by simp)

end

end Frame
end Resumable
