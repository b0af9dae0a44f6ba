import Mathlib.Data.List.Basic
import Resumable.Decimal.Layout
import Resumable.Json.Decode
import Resumable.Json.Reader

/-!
# Numbers as they are written

Integers and finite floating numbers are written as numbers of JSON: their whole part is zero or has no leading zero,
and there are digits on both sides of a point and behind the mark of an exponent.  An integer is read as itself.

* `Decimal.IsDigits`, `Decimal.IsWhole` : runs of digits;
* `Json.int?_ofInt` : integers are read back;
* `Json.Token.isNumber_integer`, `Json.Token.isNumber_finite` : the texts of numbers are numbers.
-/

namespace Resumable

/-! ## digits -/

namespace Decimal

/-- a run of digits that is not empty -/
structure IsDigits (ds : List Char) : Prop where
  ne_nil : ds ≠ []
  all : ∀ c ∈ ds, isDigit c

/-- zero, or digits without a leading zero -/
structure IsWhole (ds : List Char) : Prop extends IsDigits ds where
  lead : ds.head? = some '0' → ds = ['0']

section
variable {a b ds : List Char} {c : Char} {n : Nat}

theorem IsDigits.exists_cons (h : IsDigits ds) : ∃ c cs, ds = c :: cs ∧ isDigit c := by
  cases ds with
  | nil => exact absurd rfl h.ne_nil
  | cons c cs => exact ⟨c, cs, rfl, h.all c List.mem_cons_self⟩

theorem IsDigits.append (ha : IsDigits a) (hb : ∀ c ∈ b, isDigit c) : IsDigits (a ++ b) := by
  refine ⟨by simp [ha.ne_nil], ?_⟩
  intro c hc
  rcases List.mem_append.1 hc with hc | hc
  · exact ha.all c hc
  · exact hb c hc

theorem IsDigits.prepend (ha : ∀ c ∈ a, isDigit c) (hb : IsDigits b) : IsDigits (a ++ b) := by
  refine ⟨by simp [hb.ne_nil], ?_⟩
  intro c hc
  rcases List.mem_append.1 hc with hc | hc
  · exact ha c hc
  · exact hb.all c hc

theorem IsWhole.ofLead (h : IsDigits ds) (hlead : ds.head? ≠ some '0') : IsWhole ds :=
  ⟨h, fun hzero => absurd hzero hlead⟩

theorem isDigit_of_mem_zeros (h : c ∈ Layout.zeros n) : isDigit c := by
  obtain ⟨-, rfl⟩ := List.mem_replicate.1 h
  decide

theorem isDigit_of_mem_digits (h : c ∈ Layout.digits n) : isDigit c := by
  have hc : c.isDigit := Nat.isDigit_of_mem_toDigits (by decide) (by decide) h
  simpa [Char.isDigit, isDigit, Char.le_def, and_comm] using hc

theorem isDigits_digits (n : Nat) : IsDigits (Layout.digits n) :=
  ⟨Nat.toDigits_ne_nil, fun _ => isDigit_of_mem_digits⟩

theorem digitsValue_digits (n : Nat) : digitsValue 0 (Layout.digits n) = n :=
  Nat.ofDigitChars_ten_toDigits

/-- only zero is written with a leading zero -/
theorem eq_zero_of_lead (n : Nat) : (Layout.digits n).head? = some '0' → n = 0 := by
  induction n using Nat.strongRecOn with
  | ind n ih =>
    intro h
    rcases Nat.lt_or_ge n 10 with hn | hn
    · rw [Layout.digits, Nat.toDigits_of_lt_base hn] at h
      simpa using h
    · rw [Layout.digits, Nat.toDigits_of_base_le (by decide) hn,
        List.head?_append_of_ne_nil _ Nat.toDigits_ne_nil] at h
      have := ih (n / 10) (by omega) h
      omega

theorem isWhole_digits (n : Nat) : IsWhole (Layout.digits n) := by
  refine ⟨isDigits_digits n, fun h => ?_⟩
  rw [eq_zero_of_lead n h]
  rfl

/-- no sign stands before digits -/
theorem splitSign_digits (h : IsDigits ds) : splitSign ds = (false, ds) := by
  cases ds with
  | nil => rfl
  | cons c r =>
    have hc := h.all c List.mem_cons_self
    unfold splitSign
    split <;> simp_all [isDigit]

theorem digitRun?_digits (n : Nat) : digitRun? (Layout.digits n) = some n := by
  have hall : (Layout.digits n).all isDigit := List.all_eq_true.2 (isDigits_digits n).all
  rw [digitRun?, if_pos, digitsValue_digits]
  simp [hall, (isDigits_digits n).ne_nil]

end

/-! ## integers -/

theorem toList_toString (n : Int) : (toString n).toList = Layout.integer n := by
  cases n with
  | ofNat m =>
    show (Nat.repr m).toList = _
    rw [Nat.toList_repr, Layout.integer, if_neg (by simp)]
    rfl
  | negSucc m =>
    show ("-" ++ Nat.repr (m + 1)).toList = _
    rw [String.toList_append, Nat.toList_repr, Layout.integer, if_pos (Int.negSucc_lt_zero m)]
    rfl

theorem splitSign_integer (n : Int) :
    splitSign (Layout.integer n) = (decide (n < 0), Layout.digits n.natAbs) := by
  unfold Layout.integer
  split
  · rename_i h
    simp [splitSign, h]
  · rename_i h
    rw [splitSign_digits (isDigits_digits _)]
    simp [h]

/-- an integer within bounds is read back -/
theorem readInt?_toString {lo hi n : Int} (hlo : lo ≤ n) (hhi : n ≤ hi) :
    readInt? lo hi (toString n) = some n := by
  have hvalue : (if decide (n < 0) then -(n.natAbs : Int) else n.natAbs) = n := by
    simp only [decide_eq_true_eq]
    split <;> omega
  simp only [readInt?, toList_toString, splitSign_integer, digitRun?_digits, Option.bind_eq_bind,
    Option.bind_some, hvalue]
  rw [if_pos ⟨hlo, hhi⟩]

end Decimal

/-! ## numbers of JSON -/

namespace Json

open Decimal (IsDigits IsWhole isDigit BinaryFormat)

/-- no integer is written as minus zero -/
theorem toString_ne_minusZero (n : Int) : toString n ≠ "-0" := by
  intro h
  have htext : Decimal.Layout.integer n = ['-', '0'] := by
    rw [← Decimal.toList_toString, h]
    decide
  have hsign := Decimal.splitSign_integer n
  rw [htext] at hsign
  obtain ⟨hneg, hdigits⟩ := Prod.mk.inj hsign
  have hzero := Decimal.eq_zero_of_lead n.natAbs (by rw [← hdigits]; rfl)
  have : n < 0 := by simpa using hneg.symm
  omega

theorem int?_ofInt {lo hi n : Int} (hlo : lo ≤ n) (hhi : n ≤ hi) : int? lo hi (.ofInt n) = some n := by
  rw [ofInt, int?, if_neg (by simpa using toString_ne_minusZero n), Decimal.readInt?_toString hlo hhi]

namespace Token

/-- no digit stands at the head of the text -/
def NoDigit (r : List Char) : Prop := ∀ c ∈ r.head?, isDigit c = false

/-- what may follow the whole part of a number -/
def isTail : List Char → Bool
  | '.' :: r => (digits? r).any isExponent
  | r => isExponent r

section
variable {c : Char} {ds f r w x : List Char}

theorem noDigit_nil : NoDigit [] := by simp [NoDigit]

theorem noDigit_cons (h : isDigit c = false) : NoDigit (c :: r) := by
  simpa [NoDigit] using h

theorem digits?_append (h : IsDigits ds) (hr : NoDigit r) : digits? (ds ++ r) = some r := by
  cases ds with
  | nil => exact absurd rfl h.ne_nil
  | cons c cs =>
    have hdrop : (c :: cs ++ r).dropWhile isDigit = r := by
      rw [List.dropWhile_append_of_pos h.all]
      cases r with
      | nil => rfl
      | cons d r => rw [List.dropWhile_cons_of_neg (by simp [hr d rfl])]
    show (if isDigit c then some ((c :: cs ++ r).dropWhile isDigit) else none) = some r
    rw [hdrop, if_pos (h.all c List.mem_cons_self)]

/-- an exponent without a sign -/
theorem isExponent_digits (h : IsDigits ds) : isExponent ('e' :: ds) := by
  have hread := digits?_append h noDigit_nil
  rw [List.append_nil] at hread
  cases ds with
  | nil => exact absurd rfl h.ne_nil
  | cons c cs =>
    have hc := h.all c List.mem_cons_self
    have hplus : c ≠ '+' := by rintro rfl; simp [isDigit] at hc
    have hminus : c ≠ '-' := by rintro rfl; simp [isDigit] at hc
    simp [isExponent, hplus, hminus, hread]

/-- an exponent with a sign -/
theorem isExponent_signed (hc : c = '+' ∨ c = '-') (h : IsDigits ds) : isExponent ('e' :: c :: ds) := by
  have hread := digits?_append h noDigit_nil
  rw [List.append_nil] at hread
  rcases hc with rfl | rfl <;> simp [isExponent, hread]

theorem isTail_of_isExponent (h : isExponent x) : isTail x := by
  unfold isTail
  split
  · simp [isExponent] at h
  · exact h

theorem noDigit_of_isTail (h : isTail r) : NoDigit r := by
  cases r with
  | nil => exact noDigit_nil
  | cons c r =>
    apply noDigit_cons
    unfold isTail at h
    split at h
    · rename_i heq
      obtain ⟨rfl, -⟩ := List.cons.inj heq
      decide
    · simp only [isExponent] at h
      split at h
      · rename_i hc
        simp only [Bool.or_eq_true, beq_iff_eq] at hc
        rcases hc with rfl | rfl <;> decide
      · exact absurd h (by simp)

theorem isTail_fraction (hf : IsDigits f) (hx : isExponent x) : isTail ('.' :: (f ++ x)) := by
  have hread := digits?_append hf (noDigit_of_isTail (isTail_of_isExponent hx))
  simp [isTail, hread, hx]

/-- the rest after the whole part of a number -/
def whole? : List Char → Option (List Char)
  | '0' :: r => some r
  | r => digits? r

theorem isNumber_minus (w : List Char) : isNumber ('-' :: w) = (whole? w).any isTail := by
  unfold isNumber
  dsimp only
  split
  · rename_i h
    have hwhole : whole? w = none := h
    rw [hwhole]
    rfl
  · rename_i r h
    have hwhole : whole? w = some ('.' :: r) := h
    rw [hwhole]
    rfl
  · rename_i r hpoint h
    have hwhole : whole? w = some r := h
    rw [hwhole, Option.any_some, isTail]
    exact hpoint

theorem isNumber_unsigned (h : w.head? ≠ some '-') : isNumber w = isNumber ('-' :: w) := by
  cases w with
  | nil => rfl
  | cons c cs =>
    have hc : c ≠ '-' := by simpa using h
    simp [isNumber, hc]

theorem whole?_append (hw : IsWhole w) (hr : NoDigit r) : whole? (w ++ r) = some r := by
  have hread := digits?_append hw.toIsDigits hr
  unfold whole?
  split
  · rename_i r' heq
    -- a leading zero is all of the whole part
    obtain ⟨c, cs, rfl, -⟩ := hw.exists_cons
    obtain ⟨rfl, rfl⟩ := List.cons.inj heq
    have hzero := hw.lead rfl
    obtain rfl : cs = [] := by simpa using hzero
    rfl
  · exact hread

/-- the text of a number by its parts -/
theorem isNumber_signed (neg : Bool) (hw : IsWhole w) (hr : isTail r) :
    isNumber ((if neg then ['-'] else []) ++ (w ++ r)) := by
  have hread := whole?_append hw (noDigit_of_isTail hr)
  have hminus : isNumber ('-' :: (w ++ r)) := by rw [isNumber_minus, hread, Option.any_some, hr]
  cases neg with
  | true => exact hminus
  | false =>
    show isNumber (w ++ r)
    rw [isNumber_unsigned, hminus]
    obtain ⟨c, cs, rfl, hc⟩ := hw.exists_cons
    intro h
    obtain rfl : c = '-' := by simpa using h
    exact absurd hc (by decide)

/-! ### their characters -/

theorem mem_of_digits? (h : digits? w = some r) (hc : c ∈ w) : isDigit c ∨ c ∈ r := by
  cases w with
  | nil => exact absurd h (by simp [digits?])
  | cons d ds =>
    simp only [digits?] at h
    split at h
    · rw [← Option.some.inj h]
      rw [← List.takeWhile_append_dropWhile (p := isDigit) (l := d :: ds)] at hc
      rcases List.mem_append.1 hc with hc | hc
      · exact .inl (List.all_eq_true.1 List.all_takeWhile _ hc)
      · exact .inr hc
    · exact absurd h (by simp)

theorem isNumberChar_of_isDigit (h : isDigit c) : isNumberChar c := by simp [isNumberChar, h]

theorem isNumberChar_of_digits? (h : digits? w = some []) (hc : c ∈ w) : isNumberChar c :=
  isNumberChar_of_isDigit ((mem_of_digits? h hc).resolve_right List.not_mem_nil)

theorem isNumberChar_of_isExponent (h : isExponent x) (hc : c ∈ x) : isNumberChar c := by
  cases x with
  | nil => exact absurd hc (by simp)
  | cons d r =>
    simp only [isExponent] at h
    split at h
    · rename_i hmark
      rcases List.mem_cons.1 hc with rfl | hc
      · simp only [Bool.or_eq_true, beq_iff_eq] at hmark
        rcases hmark with rfl | rfl <;> decide
      · have hread := eq_of_beq h
        split at hread
        · rcases List.mem_cons.1 hc with rfl | hc
          · decide
          · exact isNumberChar_of_digits? hread hc
        · rcases List.mem_cons.1 hc with rfl | hc
          · decide
          · exact isNumberChar_of_digits? hread hc
        · exact isNumberChar_of_digits? hread hc
    · exact absurd h (by simp)

theorem isNumberChar_of_isTail (h : isTail r) (hc : c ∈ r) : isNumberChar c := by
  unfold isTail at h
  split at h
  · rename_i r
    rcases List.mem_cons.1 hc with rfl | hc
    · decide
    · cases hread : digits? r with
      | none => rw [hread] at h; exact absurd h (by simp)
      | some x =>
        rw [hread, Option.any_some] at h
        rcases mem_of_digits? hread hc with hc | hc
        · exact isNumberChar_of_isDigit hc
        · exact isNumberChar_of_isExponent h hc
  · exact isNumberChar_of_isExponent h hc

theorem isNumberChar_of_whole? (h : (whole? w).any isTail) (hc : c ∈ w) : isNumberChar c := by
  unfold whole? at h
  split at h
  · rcases List.mem_cons.1 hc with rfl | hc
    · decide
    · exact isNumberChar_of_isTail h hc
  · cases hread : digits? w with
    | none => rw [hread] at h; exact absurd h (by simp)
    | some r =>
      rw [hread, Option.any_some] at h
      rcases mem_of_digits? hread hc with hc | hc
      · exact isNumberChar_of_isDigit hc
      · exact isNumberChar_of_isTail h hc

theorem isNumberChar_of_isNumber (h : isNumber w) (hc : c ∈ w) : isNumberChar c := by
  by_cases hsign : w.head? = some '-'
  · cases w with
    | nil => exact absurd hc (by simp)
    | cons d ds =>
      obtain rfl : d = '-' := by simpa using hsign
      rw [isNumber_minus] at h
      rcases List.mem_cons.1 hc with rfl | hc
      · decide
      · exact isNumberChar_of_whole? h hc
  · rw [isNumber_unsigned hsign, isNumber_minus] at h
    exact isNumberChar_of_whole? h hc

end

/-! ### integers and floating numbers -/

section
variable {ds : List Char}

theorem isNumber_integer (n : Int) : isNumber (toString n).toList := by
  have hsigned := isNumber_signed (decide (n < 0)) (Decimal.isWhole_digits n.natAbs) (r := []) rfl
  rw [List.append_nil] at hsigned
  rw [Decimal.toList_toString, Decimal.Layout.integer]
  split <;> simpa [*] using hsigned

/-- the exponent of a number -/
theorem isExponent_integer (e : Int) : isExponent ('e' :: Decimal.Layout.integer e) := by
  unfold Decimal.Layout.integer
  split
  · exact isExponent_signed (.inr rfl) (Decimal.isDigits_digits _)
  · exact isExponent_digits (Decimal.isDigits_digits _)

/-- the text is a whole part and what may follow one -/
def IsUnsigned (cs : List Char) : Prop := ∃ w r, cs = w ++ r ∧ IsWhole w ∧ isTail r

theorem isUnsigned_positional (h : IsDigits ds) (hlead : ds.head? ≠ some '0') (e : Int) :
    IsUnsigned (Decimal.Layout.positional ds e) := by
  unfold Decimal.Layout.positional
  split
  · have hf : IsDigits (Decimal.Layout.zeros (-e - 1).toNat ++ ds) :=
      .prepend (fun _ => Decimal.isDigit_of_mem_zeros) h
    refine ⟨['0'], _, rfl, Decimal.isWhole_digits 0, ?_⟩
    simpa using isTail_fraction hf (x := []) rfl
  · dsimp only
    split
    · have hw : IsDigits (ds ++ Decimal.Layout.zeros (e.toNat + 1 - ds.length)) :=
        h.append fun _ => Decimal.isDigit_of_mem_zeros
      refine ⟨_, ['.', '0'], rfl, .ofLead hw ?_, by decide⟩
      rwa [List.head?_append_of_ne_nil _ h.ne_nil]
    · rename_i hlong
      have hf : IsDigits (ds.drop (e.toNat + 1)) :=
        ⟨by simp; omega, fun c hc => h.all c (List.mem_of_mem_drop hc)⟩
      have hw : IsDigits (ds.take (e.toNat + 1)) :=
        ⟨by simp [h.ne_nil], fun c hc => h.all c (List.mem_of_mem_take hc)⟩
      refine ⟨_, _, rfl, .ofLead hw ?_, by simpa using isTail_fraction hf (x := []) rfl⟩
      rwa [List.head?_take, if_neg (by omega)]

theorem isExponent_scientific (l : Decimal.Layout) (e : Int) :
    isExponent ('e' :: ((if l.plus && 0 ≤ e then ['+'] else []) ++ Decimal.Layout.integer e)) := by
  split
  · rename_i h
    have he : ¬ e < 0 := by simp at h; omega
    rw [Decimal.Layout.integer, if_neg he]
    exact isExponent_signed (.inl rfl) (Decimal.isDigits_digits _)
  · exact isExponent_integer e

theorem isUnsigned_scientific (h : IsDigits ds) (hlead : ds.head? ≠ some '0') (l : Decimal.Layout) (e : Int) :
    IsUnsigned (l.scientific ds e) := by
  have hx := isExponent_scientific l e
  obtain ⟨d, r, rfl, hd⟩ := h.exists_cons
  have hw : IsWhole [d] := .ofLead ⟨by simp, by simpa using hd⟩ (by simpa using hlead)
  cases r with
  | nil => exact ⟨[d], _, rfl, hw, isTail_of_isExponent hx⟩
  | cons d' r =>
    have hf : IsDigits (d' :: r) := ⟨by simp, fun c hc => h.all c (List.mem_cons_of_mem _ hc)⟩
    exact ⟨[d], _, by simp [Decimal.Layout.scientific], hw, isTail_fraction hf hx⟩

theorem isUnsigned_decimal (l : Decimal.Layout) (d : Nat) (k : Int) : IsUnsigned (l.decimal d k) := by
  unfold Decimal.Layout.decimal
  split
  · exact ⟨['0'], ['.', '0'], rfl, Decimal.isWhole_digits 0, by decide⟩
  · rename_i hd
    have hlead : (Decimal.Layout.digits d).head? ≠ some '0' := fun h => hd (Decimal.eq_zero_of_lead d h)
    dsimp only
    split
    · exact isUnsigned_positional (Decimal.isDigits_digits d) hlead _
    · exact isUnsigned_scientific (Decimal.isDigits_digits d) hlead l _

theorem isNumber_finite (l : Decimal.Layout) (f : BinaryFormat) (neg : Bool) (m : Nat) (q : Int) :
    isNumber (l.finite f neg m q).toList := by
  obtain ⟨w, r, hparts, hw, hr⟩ :=
    isUnsigned_decimal l (Decimal.shortest f l.tie m q).1 (Decimal.shortest f l.tie m q).2
  rw [Decimal.Layout.finite, String.toList_ofList, hparts]
  exact isNumber_signed neg hw hr

end

end Token

end Json

end Resumable
