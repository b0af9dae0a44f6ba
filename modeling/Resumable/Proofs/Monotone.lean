import Resumable.Proofs.Semilattice
import Resumable.Proofs.Taken

/-!
# What instructions leave of a lower frame

An instruction that can stand in two frames, one below the other, leaves frames of which one is below the other,
with one exception.  What is loaded from an array as a reference is taken for a reference to anything if nothing
is known of the array but that it is null, and for a number if the array holds numbers.  The array of a higher
frame may be of a type whose elements are known better, or of no array type, and then neither of both elements
is below the other one.  A cast keeps null as null.

* `Frame.LocalsBeneath.getElem?`, `Frame.LocalsBeneath.putLocal` : locals that are read and written;
* `Frame.popKind_beneath`, `Frame.popKinds_beneath`, … : operands;
* `Category.Odd`, `Frame.componentOf_under` : arrays, and which of them are the exception;
* `Frame.apply_arrayLoad` : what is loaded from an array;
* `Frame.apply_beneath` : instructions.
-/

namespace Resumable

section
variable {p : Program}

namespace Category

variable {c d : Category}

/-- operands of which one is below the other are of one kind -/
theorem Under.kind (h : c.Under p d) : c.kind? = d.kind? := by
  cases h <;> rfl

theorem Under.width (h : c.Under p d) : c.width = d.width := by
  cases h <;> rfl

/-- a local with values is above locals of its kind only -/
theorem LocalUnder.under {k : Kind} (h : c.LocalUnder p d) (hd : d.kind? = some k) : c.Under p d := by
  rcases h with rfl | h
  · exact absurd hd (by simp [kind?])
  · exact h

end Category

namespace Frame

/-! ## locals -/

namespace LocalsBeneath

variable {cs ds : List Category} {c d : Category} {i : Nat}

protected theorem getElem? (h : LocalsBeneath p cs ds) (hc : cs[i]? = some c) (hd : ds[i]? = some d) :
    c.LocalUnder p d := by
  induction h generalizing i with
  | nil => exact absurd hc (by simp)
  | beyond _ _ => exact absurd hc (by simp)
  | cons first _ ih =>
    cases i with
    | zero =>
      rw [← Option.some.inj hc, ← Option.some.inj hd]
      exact first
    | succ i => exact ih hc hd

protected theorem set (h : LocalsBeneath p cs ds) (hcd : c.LocalUnder p d) (hi : i < cs.length) :
    LocalsBeneath p (cs.set i c) (ds.set i d) := by
  induction h generalizing i with
  | nil => exact .nil
  | beyond _ _ => exact absurd hi (by simp)
  | cons first rest ih =>
    cases i with
    | zero => exact .cons hcd rest
    | succ i => exact .cons first (ih (Nat.lt_of_succ_lt_succ hi))

/-- locals without a wide value that a store overlaps -/
theorem cleared (h : LocalsBeneath p cs ds) (hi : i ≤ cs.length) :
    LocalsBeneath p (Frame.cleared cs i) (Frame.cleared ds i) := by
  cases i with
  | zero => exact h
  | succ j =>
    have hj : j < ds.length := Nat.lt_of_lt_of_le hi h.length_le
    have hlocal : (cs[j]).LocalUnder p ds[j] :=
      h.getElem? (List.getElem?_eq_getElem hi) (List.getElem?_eq_getElem hj)
    rw [Frame.cleared, Frame.cleared, List.getElem?_eq_getElem hi, List.getElem?_eq_getElem hj, Option.any_some,
      Option.any_some]
    rcases hlocal with hempty | hunder
    · -- the higher local is empty already
      have hset : ds.set j .empty = ds := by rw [← hempty, List.set_getElem_self]
      have hnarrow : ¬ (ds[j].width == 2) = true := by rw [hempty]; decide
      rw [if_neg (c := (ds[j].width == 2) = true) hnarrow]
      split
      · have hbelow := h.set (c := .empty) (d := .empty) (.inl rfl) hi
        rwa [hset] at hbelow
      · exact h
    · rw [hunder.width]
      split
      · exact h.set (.inl rfl) hi
      · exact h

/-- **A store** -/
theorem putLocal (h : LocalsBeneath p cs ds) (hcd : c.Under p d) (hi : i + c.width ≤ cs.length) :
    LocalsBeneath p (Frame.putLocal cs i c) (Frame.putLocal ds i d) := by
  have hpos : 0 < c.width := by cases c <;> simp [Category.width]
  have hset := (h.cleared (show i ≤ cs.length by omega)).set (.inr hcd)
    (show i < (Frame.cleared cs i).length by rw [length_cleared]; omega)
  rw [putLocal_eq, putLocal_eq, ← hcd.width]
  split
  · exact hset.set (.inl rfl) (by rw [List.length_set, length_cleared]; omega)
  · exact hset

end LocalsBeneath

/-! ## operands -/

section
variable {f g f' g' : Frame} {c d : Category} {k : Kind} {ks : List Kind}

theorem Beneath.push (h : f.Beneath p g) (hcd : c.Under p d) : (f.push c).Beneath p (g.push d) :=
  ⟨h.locals, .cons hcd h.stack⟩

/-- as many operands are taken from both frames -/
theorem Beneath.takes {cs ds : List Category} (h : f.Beneath p g) (hf : f.Takes cs f') (hg : g.Takes ds g')
    (hlen : cs.length = ds.length) : List.Forall₂ (Category.Under p) cs ds ∧ f'.Beneath p g' := by
  have hstack := h.stack
  rw [hf.stack, hg.stack] at hstack
  have htaken := List.forall₂_take cs.length hstack
  have hleft := List.forall₂_drop cs.length hstack
  rw [List.take_left, hlen, List.take_left] at htaken
  rw [List.drop_left, hlen, List.drop_left] at hleft
  refine ⟨htaken, ?_, hleft⟩
  rw [hf.locals, hg.locals]
  exact h.locals

section
variable (h : f.Beneath p g)
include h

theorem pop_beneath (hf : f.Takes [c] f') (hg : g.Takes [d] g') : c.Under p d ∧ f'.Beneath p g' := by
  obtain ⟨hcd, hbelow⟩ := h.takes hf hg rfl
  exact ⟨(List.forall₂_cons.1 hcd).1, hbelow⟩

theorem popKind_beneath (hf : f.popKind k = .ok (c, f')) (hg : g.popKind k = .ok (d, g')) :
    c.Under p d ∧ f'.Beneath p g' :=
  pop_beneath h (popKind_ok hf).1 (popKind_ok hg).1

theorem popNarrow_beneath (hf : f.popNarrow = .ok (c, f')) (hg : g.popNarrow = .ok (d, g')) :
    c.Under p d ∧ f'.Beneath p g' :=
  pop_beneath h (popNarrow_ok hf).1 (popNarrow_ok hg).1

theorem popKinds_beneath (hf : f.popKinds ks = .ok f') (hg : g.popKinds ks = .ok g') : f'.Beneath p g' := by
  obtain ⟨cs, hcs, hkinds⟩ := popKinds_ok hf
  obtain ⟨ds, hds, hkinds'⟩ := popKinds_ok hg
  exact (h.takes hcs hds ((length_of_kinds hkinds).trans (length_of_kinds hkinds').symm)).2

theorem replace_beneath (hf : f.replace ks c = .ok f') (hg : g.replace ks c = .ok g') : f'.Beneath p g' := by
  obtain ⟨f₁, hf₁, hf⟩ := Effect.bind_eq_ok hf
  obtain ⟨g₁, hg₁, hg⟩ := Effect.bind_eq_ok hg
  rw [← Except.ok.inj hf, ← Except.ok.inj hg]
  exact (popKinds_beneath h hf₁ hg₁).push (.refl c)

theorem result_beneath (ret : Option FieldType) : (f.pushResult ret).Beneath p (g.pushResult ret) := by
  cases ret with
  | none => exact h
  | some t => exact h.push (.refl _)

theorem peek_beneath (hf : f.peek = .ok c) (hg : g.peek = .ok d) : c.Under p d := by
  unfold peek at hf hg
  have hstack := h.stack
  split at hf
  · exact absurd hf (by simp)
  · rename_i c' rest hfs
    split at hg
    · exact absurd hg (by simp)
    · rename_i d' rest' hgs
      rw [hfs, hgs] at hstack
      rw [← Except.ok.inj hf, ← Except.ok.inj hg]
      exact (List.forall₂_cons.1 hstack).1

theorem setLocal_beneath {slot : UInt16} (hcd : c.Under p d) (hf : f.setLocal slot c = .ok f')
    (hg : g.setLocal slot d = .ok g') : f'.Beneath p g' := by
  obtain ⟨hfits, hfl, hfs⟩ := setLocal_ok hf
  obtain ⟨-, hgl, hgs⟩ := setLocal_ok hg
  constructor
  · rw [hfl, hgl]
    exact h.locals.putLocal hcd hfits
  · rw [hfs, hgs]
    exact h.stack

end

end

/-! ## arrays -/

end Frame

/-- An array of which an element is loaded as a reference but taken for something else than what an array above
it holds: nothing is known of it but that it is null, or it holds no references. -/
def Category.Odd (c : Category) : Prop :=
  c = .null ∨ (Frame.componentOf c .ref).kind? ≠ some .ref

instance (c : Category) : Decidable c.Odd := inferInstanceAs (Decidable (_ ∨ _))

namespace Frame

section
variable {f f' : Frame} {c d : Category} {k : Kind} {s t : String}

theorem componentOf_of_not_array (h : isArrayType s = false) : componentOf (.ref s) .ref = .ref objectType := by
  unfold componentOf
  dsimp only [Category.typeName?]
  unfold isArrayType at h
  split
  · rename_i elem hs
    rw [hs] at h
    exact absurd h (by simp)
  · rfl

/-- **What an array holds** is below what an array above it holds, unless it is an odd one -/
theorem componentOf_under (hflat : ∀ s t, p.Extends s t → isArrayType t = false)
    (h : c.Under p d) (hodd : ¬ c.Odd) : (componentOf c .ref).Under p (componentOf d .ref) := by
  cases h with
  | refl => exact .refl _
  | null t => exact absurd (.inl rfl) hodd
  | @ref s t hst =>
    have hkind : (componentOf (.ref s) .ref).kind? = some .ref := by
      by_contra hne
      exact hodd (.inr hne)
    by_cases heq : s = t
    · rw [heq]
      exact .refl _
    -- nothing but the root is above another type and is an array
    have htop : componentOf (.ref t) .ref = .ref objectType := by
      refine componentOf_of_not_array ?_
      rcases hst with hst | rfl | ⟨-, hchain⟩
      · exact absurd hst heq
      · decide
      · obtain hst | ⟨u, -, hut⟩ := Relation.ReflTransGen.cases_tail (Program.mem_chain_iff.1 hchain)
        · exact absurd hst.symm heq
        · exact hflat u t hut
    rw [htop]
    cases hs : componentOf (.ref s) .ref with
    | null => exact .null _
    | ref u => exact .ref (.root p u)
    | empty | int | long | float | double | returnAddress =>
      rw [hs] at hkind
      exact absurd hkind (by decide)

/-- nothing else is above an element of an odd array -/
theorem eq_of_odd_under (hp : p.Layered) (hodd : c.Odd) (h : (componentOf c .ref).Under p d) :
    d = componentOf c .ref := by
  rcases hodd with rfl | hkind
  · have hobject : (Category.ref objectType).Under p d := h
    cases hobject with
    | refl => rfl
    | ref hunder => rw [hp.under_root hunder]; rfl
  · generalize componentOf c .ref = e at h hkind
    cases h with
    | refl => rfl
    | null t => exact absurd rfl hkind
    | ref _ => exact absurd rfl hkind

/-- **An element is loaded** -/
theorem apply_arrayLoad (h : f.apply (.arrayLoad k) = .ok f') : ∃ i c rest,
    f.stack = i :: c :: rest ∧ f' = ⟨f.locals, componentOf c k :: rest⟩ := by
  obtain ⟨f₁, hindex, h⟩ := Effect.bind_eq_ok h
  obtain ⟨⟨i, f₂⟩, hi, hindex⟩ := Effect.bind_eq_ok hindex
  obtain ⟨⟨c, f₃⟩, hc, hpush⟩ := Effect.bind_eq_ok h
  obtain rfl : f₂ = f₁ := Except.ok.inj hindex
  have htakes := (popKind_ok hi).1.trans (popKind_ok hc).1
  refine ⟨i, c, f₃.stack, htakes.stack, ?_⟩
  rw [← Except.ok.inj hpush, ← htakes.locals]
  rfl

theorem componentOf_of_ne_ref (h : k ≠ .ref) (c : Category) : componentOf c k = .ofKind k := by
  cases k with
  | ref => exact absurd rfl h
  | int | long | float | double => rfl

end

/-! ## instructions -/

section
variable {f g f' g' : Frame} {insn : Insn}

/-- **An instruction** leaves a lower frame of a lower one, if the element that it may load from an array is below
the one in the higher frame -/
theorem apply_beneath (h : f.Beneath p g) (hf : f.apply insn = .ok f') (hg : g.apply insn = .ok g')
    (hload : ∀ c d, insn = .arrayLoad .ref → f.stack[1]? = some c → g.stack[1]? = some d →
      (componentOf c .ref).Under p (componentOf d .ref)) : f'.Beneath p g' := by
  cases insn with
  | label | nop | jump =>
    rw [← Except.ok.inj hf, ← Except.ok.inj hg]
    exact h
  | nullConst | intConst | longConst | floatConst | doubleConst | stringConst | new =>
    rw [← Except.ok.inj hf, ← Except.ok.inj hg]
    exact h.push (.refl _)
  | load k slot =>
    obtain ⟨c, hc, hf⟩ := Effect.bind_eq_ok hf
    obtain ⟨d, hd, hg⟩ := Effect.bind_eq_ok hg
    split at hf
    · split at hg
      · rename_i hkind
        rw [← Except.ok.inj hf, ← Except.ok.inj hg]
        exact h.push ((h.locals.getElem? (getLocal_ok hc) (getLocal_ok hd)).under hkind)
      · exact absurd hg (by simp)
    · exact absurd hf (by simp)
  | store k slot =>
    obtain ⟨⟨c, f₁⟩, hc, hf⟩ := Effect.bind_eq_ok hf
    obtain ⟨⟨d, g₁⟩, hd, hg⟩ := Effect.bind_eq_ok hg
    obtain ⟨hcd, hbelow⟩ := popKind_beneath h hc hd
    exact setLocal_beneath hbelow hcd hf hg
  | increment slot delta =>
    obtain ⟨c, -, hf⟩ := Effect.bind_eq_ok hf
    obtain ⟨d, -, hg⟩ := Effect.bind_eq_ok hg
    split at hf
    · split at hg
      · rw [← Except.ok.inj hf, ← Except.ok.inj hg]
        exact h
      · exact absurd hg (by simp)
    · exact absurd hf (by simp)
  | arith | neg | convert | compare | arrayLength | instanceOf => exact replace_beneath h hf hg
  | branch | tableSwitch | lookupSwitch | branchCompare | branchSame | branchDistinct | branchNull
  | branchNonNull | throw | arrayStore => exact popKinds_beneath h hf hg
  | jumpSubroutine | returnSubroutine => exact absurd hf (by simp [apply])
  | ret k =>
    cases k with
    | none =>
      rw [← Except.ok.inj hf, ← Except.ok.inj hg]
      exact h
    | some k => exact popKinds_beneath h hf hg
  | getStatic r =>
    obtain ⟨c, hc, hf⟩ := Effect.bind_eq_ok hf
    obtain ⟨d, hd, hg⟩ := Effect.bind_eq_ok hg
    obtain rfl : c = d := Except.ok.inj (hc.symm.trans hd)
    rw [← Except.ok.inj hf, ← Except.ok.inj hg]
    exact h.push (.refl c)
  | putStatic r =>
    obtain ⟨c, hc, hf⟩ := Effect.bind_eq_ok hf
    obtain ⟨d, hd, hg⟩ := Effect.bind_eq_ok hg
    obtain rfl : c = d := Except.ok.inj (hc.symm.trans hd)
    exact popKinds_beneath h hf hg
  | getField r =>
    obtain ⟨f₁, hf₁, hf⟩ := Effect.bind_eq_ok hf
    obtain ⟨g₁, hg₁, hg⟩ := Effect.bind_eq_ok hg
    obtain ⟨c, hc, hf⟩ := Effect.bind_eq_ok hf
    obtain ⟨d, hd, hg⟩ := Effect.bind_eq_ok hg
    obtain rfl : c = d := Except.ok.inj (hc.symm.trans hd)
    rw [← Except.ok.inj hf, ← Except.ok.inj hg]
    exact (popKinds_beneath h hf₁ hg₁).push (.refl c)
  | putField r =>
    obtain ⟨c, hc, hf⟩ := Effect.bind_eq_ok hf
    obtain ⟨d, hd, hg⟩ := Effect.bind_eq_ok hg
    obtain rfl : c = d := Except.ok.inj (hc.symm.trans hd)
    exact popKinds_beneath h hf hg
  | invoke kind m =>
    obtain ⟨desc, cs, f₁, hdesc, hcs, hkinds, rfl⟩ := apply_invoke hf
    obtain ⟨desc', ds, g₁, hdesc', hds, hkinds', rfl⟩ := apply_invoke hg
    obtain rfl : desc = desc' := Option.some.inj (hdesc.symm.trans hdesc')
    have hlen : cs.length = ds.length := (length_of_kinds hkinds).trans (length_of_kinds hkinds').symm
    exact result_beneath (h.takes hcs hds hlen).2 desc.ret
  | newArray t =>
    obtain ⟨-, -, hf⟩ := Effect.bind_eq_ok hf
    obtain ⟨-, -, hg⟩ := Effect.bind_eq_ok hg
    exact replace_beneath h hf hg
  | arrayLoad k =>
    obtain ⟨i, c, rest, hfs, rfl⟩ := apply_arrayLoad hf
    obtain ⟨j, d, rest', hgs, rfl⟩ := apply_arrayLoad hg
    have hstack := h.stack
    rw [hfs, hgs] at hstack
    have hrest := (List.forall₂_cons.1 (List.forall₂_cons.1 hstack).2).2
    refine ⟨h.locals, .cons ?_ hrest⟩
    by_cases hk : k = .ref
    · subst hk
      exact hload c d rfl (by rw [hfs]; rfl) (by rw [hgs]; rfl)
    · rw [componentOf_of_ne_ref hk, componentOf_of_ne_ref hk]
      exact .refl _
  | checkCast t =>
    obtain ⟨⟨c, f₁⟩, hc, hf⟩ := Effect.bind_eq_ok hf
    obtain ⟨⟨d, g₁⟩, hd, hg⟩ := Effect.bind_eq_ok hg
    obtain ⟨hcd, hbelow⟩ := popKind_beneath h hc hd
    rw [← Except.ok.inj hf, ← Except.ok.inj hg]
    refine hbelow.push ?_
    -- null stays null, and null is below what a reference is cast to
    cases hcd with
    | refl => exact .refl _
    | null => exact .null t
    | ref => exact .refl _
  | pop =>
    obtain ⟨⟨c, f₁⟩, hc, hf⟩ := Effect.bind_eq_ok hf
    obtain ⟨⟨d, g₁⟩, hd, hg⟩ := Effect.bind_eq_ok hg
    rw [← Except.ok.inj hf, ← Except.ok.inj hg]
    exact (popNarrow_beneath h hc hd).2
  | pop2 =>
    obtain ⟨a, ha, hf⟩ := Effect.bind_eq_ok hf
    obtain ⟨b, hb, hg⟩ := Effect.bind_eq_ok hg
    have hab : a.Under p b := peek_beneath h ha hb
    rw [← hab.width] at hg
    split at hf
    · rename_i hwide
      rw [if_pos hwide] at hg
      obtain ⟨⟨c, f₁⟩, hc, hf⟩ := Effect.bind_eq_ok hf
      obtain ⟨⟨d, g₁⟩, hd, hg⟩ := Effect.bind_eq_ok hg
      rw [← Except.ok.inj hf, ← Except.ok.inj hg]
      exact (pop_beneath h (pop_ok hc) (pop_ok hd)).2
    · rename_i hwide
      rw [if_neg hwide] at hg
      obtain ⟨⟨c, f₁⟩, hc, hf⟩ := Effect.bind_eq_ok hf
      obtain ⟨⟨d, g₁⟩, hd, hg⟩ := Effect.bind_eq_ok hg
      obtain ⟨⟨c', f₂⟩, hc', hf⟩ := Effect.bind_eq_ok hf
      obtain ⟨⟨d', g₂⟩, hd', hg⟩ := Effect.bind_eq_ok hg
      rw [← Except.ok.inj hf, ← Except.ok.inj hg]
      exact (popNarrow_beneath (popNarrow_beneath h hc hd).2 hc' hd').2
  | dup =>
    obtain ⟨⟨c, f₁⟩, hc, hf⟩ := Effect.bind_eq_ok hf
    obtain ⟨⟨d, g₁⟩, hd, hg⟩ := Effect.bind_eq_ok hg
    obtain ⟨hcd, hbelow⟩ := popNarrow_beneath h hc hd
    rw [← Except.ok.inj hf, ← Except.ok.inj hg]
    exact (hbelow.push hcd).push hcd
  | dupX1 =>
    obtain ⟨⟨c, f₁⟩, hc, hf⟩ := Effect.bind_eq_ok hf
    obtain ⟨⟨d, g₁⟩, hd, hg⟩ := Effect.bind_eq_ok hg
    obtain ⟨⟨c', f₂⟩, hc', hf⟩ := Effect.bind_eq_ok hf
    obtain ⟨⟨d', g₂⟩, hd', hg⟩ := Effect.bind_eq_ok hg
    obtain ⟨hcd, hbelow⟩ := popNarrow_beneath h hc hd
    obtain ⟨hcd', hbelow'⟩ := popNarrow_beneath hbelow hc' hd'
    rw [← Except.ok.inj hf, ← Except.ok.inj hg]
    exact ((hbelow'.push hcd).push hcd').push hcd
  | dup2 =>
    obtain ⟨a, ha, hf⟩ := Effect.bind_eq_ok hf
    obtain ⟨b, hb, hg⟩ := Effect.bind_eq_ok hg
    have hab : a.Under p b := peek_beneath h ha hb
    rw [← hab.width] at hg
    split at hf
    · rename_i hwide
      rw [if_pos hwide] at hg
      rw [← Except.ok.inj hf, ← Except.ok.inj hg]
      exact h.push hab
    · rename_i hwide
      rw [if_neg hwide] at hg
      obtain ⟨⟨c, f₁⟩, hc, hf⟩ := Effect.bind_eq_ok hf
      obtain ⟨⟨d, g₁⟩, hd, hg⟩ := Effect.bind_eq_ok hg
      obtain ⟨⟨c', f₂⟩, hc', hf⟩ := Effect.bind_eq_ok hf
      obtain ⟨⟨d', g₂⟩, hd', hg⟩ := Effect.bind_eq_ok hg
      obtain ⟨hcd, hbelow⟩ := popNarrow_beneath h hc hd
      obtain ⟨hcd', hbelow'⟩ := popNarrow_beneath hbelow hc' hd'
      rw [← Except.ok.inj hf, ← Except.ok.inj hg]
      exact (((hbelow'.push hcd').push hcd).push hcd').push hcd
  | swap =>
    obtain ⟨⟨c, f₁⟩, hc, hf⟩ := Effect.bind_eq_ok hf
    obtain ⟨⟨d, g₁⟩, hd, hg⟩ := Effect.bind_eq_ok hg
    obtain ⟨⟨c', f₂⟩, hc', hf⟩ := Effect.bind_eq_ok hf
    obtain ⟨⟨d', g₂⟩, hd', hg⟩ := Effect.bind_eq_ok hg
    obtain ⟨hcd, hbelow⟩ := popNarrow_beneath h hc hd
    obtain ⟨hcd', hbelow'⟩ := popNarrow_beneath hbelow hc' hd'
    rw [← Except.ok.inj hf, ← Except.ok.inj hg]
    exact (hbelow'.push hcd).push hcd'

end

end Frame

end

end Resumable
