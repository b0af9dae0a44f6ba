import Mathlib
import Resumable.Code.Insn

/-!
# Constants with a fraction

Instructions are compared as values are, which for constants with a fraction is not being written alike: what is no
number differs from itself, and the two zeros are equal.  Apart from this a constant is equal to no other one, which
comes from what its bits stand for: sign, exponent and mantissa are read off them, and only one value is no number.

* `unpack_inj` : bits that stand for the same value are the same;
* `Unpacked.beq_iff_dropSign` : when two constants are equal;
* `Insn.beq_iff_unsigned`, `Insn.beq_list_iff` : so for instructions and for code.
-/

namespace Resumable

open Float.Model (Format UnpackedFloat)
open Float.Model.UnpackedFloat (unpack unpackSign unpackExponent unpackMantissa Sign)

/-! ## bits and what they stand for -/

section
variable {spec : Format} {b c : BitVec spec.numBits}

theorem bits_ext (hs : unpackSign b = unpackSign c) (he : unpackExponent b = unpackExponent c)
    (hm : unpackMantissa b = unpackMantissa c) : b = c := by
  have hmantissa := spec.hm
  have hexponent := spec.he
  refine BitVec.eq_of_getLsbD_eq fun i hi => ?_
  unfold Format.numBits at hi
  by_cases hlow : i < spec.mantissaBitsWithoutImplicit
  · have h := congrArg (fun v => v.getLsbD i) hm
    simpa [unpackMantissa, BitVec.getLsbD_extractLsb,
      show i ≤ spec.mantissaBitsWithoutImplicit - 1 by omega] using h
  · by_cases hmid : i < spec.mantissaBitsWithoutImplicit + spec.exponentBits
    · have h := congrArg (fun v => v.getLsbD (i - spec.mantissaBitsWithoutImplicit)) he
      simpa [unpackExponent, BitVec.getLsbD_extractLsb,
        show spec.mantissaBitsWithoutImplicit + (i - spec.mantissaBitsWithoutImplicit) = i by omega,
        show i - spec.mantissaBitsWithoutImplicit ≤ spec.mantissaBitsWithoutImplicit + spec.exponentBits - 1 -
          spec.mantissaBitsWithoutImplicit by omega] using h
    · have h := congrArg (fun v => v.getLsbD 0) hs
      simpa [unpackSign, BitVec.getLsbD_extractLsb,
        show spec.mantissaBitsWithoutImplicit + spec.exponentBits = i by omega] using h

theorem sign_inj {x y : BitVec 1} (h : Sign.ofBitVec x = Sign.ofBitVec y) : x = y := by
  unfold Sign.ofBitVec at h
  rcases BitVec.eq_zero_or_eq_one x with rfl | rfl <;> rcases BitVec.eq_zero_or_eq_one y with rfl | rfl
  · rfl
  · exact absurd h (by simp)
  · exact absurd h (by simp)
  · rfl

/-- the one in front of a mantissa -/
theorem toNat_one_append {n : Nat} (v : BitVec n) : (1#1 ++ v).toNat = 2 ^ n + v.toNat := by
  have h := Nat.two_pow_add_eq_or_of_lt v.isLt 1
  rw [Nat.mul_one] at h
  rw [BitVec.toNat_append, Nat.shiftLeft_eq, BitVec.toNat_ofNat, Nat.mod_eq_of_lt (by decide), Nat.one_mul, h]

theorem unpack_infinity {s : Sign} (h : unpack spec b = .infinity s) :
    s = .ofBitVec (unpackSign b) ∧ unpackExponent b = -BitVec.ofNat spec.exponentBits 1 ∧ unpackMantissa b = 0 := by
  unfold unpack at h
  grind

theorem unpack_notANumber (h : unpack spec b = .notANumber) :
    unpackExponent b = -BitVec.ofNat spec.exponentBits 1 ∧ unpackMantissa b ≠ 0 := by
  unfold unpack at h
  grind

theorem unpack_zero {s : Sign} (h : unpack spec b = .zero s) :
    s = .ofBitVec (unpackSign b) ∧ unpackExponent b = 0 ∧ unpackMantissa b = 0 := by
  unfold unpack at h
  grind

/-- a finite value has a one in front of its mantissa unless its exponent is the least one -/
theorem unpack_finite {s : Sign} {m : Nat} {e : Int} {hm : 0 < m} (h : unpack spec b = .finite s m e hm) :
    s = .ofBitVec (unpackSign b) ∧
      (unpackExponent b = 0 ∧ m = (unpackMantissa b).toNat ∨
        m = 2 ^ spec.mantissaBitsWithoutImplicit + (unpackMantissa b).toNat ∧
          (unpackExponent b).toNat = e + (spec.exponentBias + spec.mantissaBitsWithoutImplicit)) := by
  unfold unpack at h
  dsimp only at h
  grind [toNat_one_append]

/-- **Bits** that stand for the same value are the same -/
theorem unpack_inj (hb : spec.Valid b) (hc : spec.Valid c) (h : unpack spec b = unpack spec c) : b = c := by
  cases hu : unpack spec b with
  | infinity s =>
    obtain ⟨hs, he, hm⟩ := unpack_infinity hu
    obtain ⟨hs', he', hm'⟩ := unpack_infinity (h ▸ hu)
    exact bits_ext (sign_inj (hs ▸ hs')) (he.trans he'.symm) (hm.trans hm'.symm)
  | notANumber =>
    obtain ⟨he, hm⟩ := unpack_notANumber hu
    obtain ⟨he', hm'⟩ := unpack_notANumber (h ▸ hu)
    rw [hb.eq_packedNaN he hm, hc.eq_packedNaN he' hm']
  | zero s =>
    obtain ⟨hs, he, hm⟩ := unpack_zero hu
    obtain ⟨hs', he', hm'⟩ := unpack_zero (h ▸ hu)
    exact bits_ext (sign_inj (hs ▸ hs')) (he.trans he'.symm) (hm.trans hm'.symm)
  | finite s m e hpos =>
    obtain ⟨hs, hcase⟩ := unpack_finite hu
    obtain ⟨hs', hcase'⟩ := unpack_finite (h ▸ hu)
    -- a mantissa without a one in front is smaller than every one that has it
    have hlt := (unpackMantissa b).isLt
    have hlt' := (unpackMantissa c).isLt
    refine bits_ext (sign_inj (hs ▸ hs')) ?_ ?_
    · rcases hcase with ⟨he, hm⟩ | ⟨hm, he⟩ <;> rcases hcase' with ⟨he', hm'⟩ | ⟨hm', he'⟩
      · exact he.trans he'.symm
      · omega
      · omega
      · exact BitVec.eq_of_toNat_eq (by omega)
    · rcases hcase with ⟨he, hm⟩ | ⟨hm, he⟩ <;> rcases hcase' with ⟨he', hm'⟩ | ⟨hm', he'⟩ <;>
        exact BitVec.eq_of_toNat_eq (by omega)

end

/-! ## constants that are equal -/

/-- values are equal if they are the same or both zero, but what is no number is equal to nothing -/
theorem beq_unpacked_iff {x y : UnpackedFloat} :
    x.beq y = true ↔ x ≠ .notANumber ∧ (x = y ∨ ∃ s t, x = .zero s ∧ y = .zero t) := by
  show (x.compare y == some .eq) = true ↔ _
  rw [beq_iff_eq]
  -- values are ordered by their signs first, so the cases are split along these
  rcases x with (_ | _) | _ | _ | ⟨_ | _, _⟩ <;> rcases y with (_ | _) | _ | _ | ⟨_ | _, _⟩ <;>
    simp [UnpackedFloat.compare]
  case infinity.negative.infinity.negative | infinity.positive.infinity.positive => rfl
  case finite.negative.finite.negative | finite.positive.finite.positive => exact and_comm

/-- a constant, zero without its sign -/
def dropSign {α : Type} [BEq α] (zero v : α) : α := if v == zero then zero else v

/-- constants as what they stand for -/
structure Unpacked {α : Type} [BEq α] (value : α → UnpackedFloat) (zero : α) : Prop where
  inj : ∀ {v w : α}, value v = value w → v = w
  beq : ∀ v w : α, (v == w) = (value v).beq (value w)
  zero : ∃ s, value zero = .zero s

namespace Unpacked

variable {α : Type} [BEq α] {value : α → UnpackedFloat} {zero v w : α}

theorem float : Unpacked (fun v : Float => v.toModel.unpack) 0.0 where
  inj {v w} h := by
    obtain ⟨⟨b, hb⟩⟩ := v
    obtain ⟨⟨c, hc⟩⟩ := w
    obtain rfl : b = c := UInt64.toBitVec_inj.1 (unpack_inj hb hc h)
    rfl
  beq _ _ := rfl
  zero := ⟨.positive, rfl⟩

theorem float32 : Unpacked (fun v : Float32 => v.toModel.unpack) 0.0 where
  inj {v w} h := by
    obtain ⟨⟨b, hb⟩⟩ := v
    obtain ⟨⟨c, hc⟩⟩ := w
    obtain rfl : b = c := UInt32.toBitVec_inj.1 (unpack_inj hb hc h)
    rfl
  beq _ _ := rfl
  zero := ⟨.positive, rfl⟩

theorem beq_zero_iff (h : Unpacked value zero) : (v == zero) = true ↔ ∃ s, value v = .zero s := by
  obtain ⟨t, ht⟩ := h.zero
  rw [h.beq, beq_unpacked_iff, ht]
  constructor
  · rintro ⟨-, heq | ⟨s, t, hs, -⟩⟩
    · exact ⟨t, heq⟩
    · exact ⟨s, hs⟩
  · rintro ⟨s, hs⟩
    exact ⟨by rw [hs]; simp, .inr ⟨s, t, hs, rfl⟩⟩

/-- **Constants are equal** if they are numbers and the same but for the sign of zero -/
theorem beq_iff_dropSign (h : Unpacked value zero) :
    (v == w) = true ↔ (value v).isNaN = false ∧ dropSign zero v = dropSign zero w := by
  have hnumber : value v ≠ .notANumber ↔ (value v).isNaN = false := by
    cases value v <;> simp [UnpackedFloat.isNaN]
  rw [h.beq, beq_unpacked_iff, hnumber]
  refine and_congr_right fun hv => ?_
  unfold dropSign
  constructor
  · rintro (heq | ⟨s, t, hs, ht⟩)
    · rw [h.inj heq]
    · rw [if_pos (h.beq_zero_iff.2 ⟨s, hs⟩), if_pos (h.beq_zero_iff.2 ⟨t, ht⟩)]
  · intro heq
    by_cases hv : (v == zero) = true
    · obtain ⟨s, hs⟩ := h.beq_zero_iff.1 hv
      by_cases hw : (w == zero) = true
      · obtain ⟨t, ht⟩ := h.beq_zero_iff.1 hw
        exact .inr ⟨s, t, hs, ht⟩
      · rw [if_pos hv, if_neg hw] at heq
        exact absurd (h.beq_zero_iff.2 (heq ▸ h.zero)) hw
    · by_cases hw : (w == zero) = true
      · rw [if_neg hv, if_pos hw] at heq
        exact absurd (h.beq_zero_iff.2 (heq ▸ h.zero)) hv
      · rw [if_neg hv, if_neg hw] at heq
        exact .inl (by rw [heq])

end Unpacked

/-! ## instructions -/

namespace Insn

/-- a constant that is no number -/
def isNaN : Insn → Bool
  | .floatConst v => v.isNaN
  | .doubleConst v => v.isNaN
  | _ => false

/-- an instruction, a constant zero without its sign -/
def unsigned : Insn → Insn
  | .floatConst v => .floatConst (dropSign 0.0 v)
  | .doubleConst v => .doubleConst (dropSign 0.0 v)
  | i => i

/-- a constant with a fraction -/
def isFractional : Insn → Bool
  | .floatConst _ | .doubleConst _ => true
  | _ => false

/-- comparing two instructions finds no difference -/
inductive Coincides : Insn → Insn → Prop
  | same {i : Insn} (h : i.isFractional = false) : Coincides i i
  | float {v w : Float32} (h : (v == w) = true) : Coincides (.floatConst v) (.floatConst w)
  | double {v w : Float} (h : (v == w) = true) : Coincides (.doubleConst v) (.doubleConst w)

theorem beq_self {i : Insn} (h : i.isFractional = false) : (i == i) = true := by
  show instBEqInsn.beq i i = true
  cases i with
  | floatConst | doubleConst => exact absurd h (by simp [isFractional])
  | _ =>
    simp only [instBEqInsn.beq, beq_self_eq_true, Bool.and_self]
    rfl

theorem Coincides.of_eq {i j : Insn} (h : i = j) (hi : i.isFractional = false) : i.Coincides j := by
  rw [← h]
  exact .same hi

theorem Coincides.of_beq {i j : Insn} (h : (i == j) = true) : i.Coincides j := by
  change instBEqInsn.beq i j = true at h
  unfold instBEqInsn.beq at h
  split at h
  · split at h
    case floatConst => exact .float h
    case doubleConst => exact .double h
    all_goals exact .of_eq (by first | rfl | simpa using h) rfl
  · exact absurd h (by simp)

theorem unsigned_of_not_fractional {i : Insn} (h : i.isFractional = false) : i.unsigned = i ∧ i.isNaN = false := by
  cases i <;> first | exact ⟨rfl, rfl⟩ | exact absurd h (by simp [isFractional])

theorem isFractional_unsigned (i : Insn) : i.unsigned.isFractional = i.isFractional := by
  cases i <;> rfl

/-- **Comparing instructions** -/
theorem beq_iff_unsigned {i j : Insn} : (i == j) = true ↔ i.isNaN = false ∧ i.unsigned = j.unsigned := by
  constructor
  · intro h
    cases Coincides.of_beq h with
    | same hi => exact ⟨(unsigned_of_not_fractional hi).2, rfl⟩
    | float h =>
      obtain ⟨hnumber, heq⟩ := Unpacked.float32.beq_iff_dropSign.1 h
      exact ⟨hnumber, congrArg Insn.floatConst heq⟩
    | double h =>
      obtain ⟨hnumber, heq⟩ := Unpacked.float.beq_iff_dropSign.1 h
      exact ⟨hnumber, congrArg Insn.doubleConst heq⟩
  · rintro ⟨hnumber, heq⟩
    by_cases hi : i.isFractional = true
    · cases i with
      | floatConst v =>
        cases j with
        | floatConst w => exact Unpacked.float32.beq_iff_dropSign.2 ⟨hnumber, Insn.floatConst.inj heq⟩
        | _ => exact absurd heq (by simp [unsigned])
      | doubleConst v =>
        cases j with
        | doubleConst w => exact Unpacked.float.beq_iff_dropSign.2 ⟨hnumber, Insn.doubleConst.inj heq⟩
        | _ => exact absurd heq (by simp [unsigned])
      | _ => exact absurd hi (by simp [isFractional])
    · have hj : j.isFractional = false := by
        rw [← isFractional_unsigned, ← heq, isFractional_unsigned]
        simpa using hi
      rw [(unsigned_of_not_fractional (by simpa using hi)).1, (unsigned_of_not_fractional hj).1] at heq
      rw [heq]
      exact beq_self hj

/-- **Comparing code** -/
theorem beq_list_iff {is js : List Insn} :
    (is == js) = true ↔ (∀ i ∈ is, i.isNaN = false) ∧ is.map unsigned = js.map unsigned := by
  induction is generalizing js with
  | nil => cases js <;> simp
  | cons i is ih =>
    cases js with
    | nil => simp
    | cons j js =>
      rw [List.cons_beq_cons, Bool.and_eq_true, beq_iff_unsigned, ih, List.forall_mem_cons, List.map_cons,
        List.map_cons, List.cons.injEq]
      exact and_and_and_comm

end Insn
end Resumable
