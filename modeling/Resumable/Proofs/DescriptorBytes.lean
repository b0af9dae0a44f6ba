import Mathlib.Data.String.Basic
import Resumable.Proofs.DescriptorGrammar

/-!
# Descriptors by their bytes

A text is stored as bytes, and a character may take several of them.  A reader that goes from offset to offset has
to keep to the beginnings of characters when it cuts a piece out of the text.  The readers below follow the bytes
and refuse to cut inside a character.  They never come to that: they stop where the readers of characters stop.

* `slice` : a piece of a text between two offsets;
* `readAt`, `fieldAt`, `methodAt` : descriptors by their bytes;
* `readAt_eq`, `fieldAt_eq`, `methodAt_eq` : they read what the readers of characters read.
-/

namespace Resumable
namespace Descriptor

open String (utf8Len)
open FieldType (Read)

/-- why a text gives no descriptor -/
inductive Flaw where
  /-- it is no descriptor -/
  | malformed
  /-- it was cut inside a character or outside of the text -/
  | cut
deriving DecidableEq, Repr

/-- the byte at an offset, as the character of that number -/
def byteAt (s : String) (i : Nat) (h : i < s.utf8ByteSize) : Char := .ofUInt8 (s.getUTF8Byte ⟨i⟩ h)

/-- the piece of a text between two offsets, each the beginning of a character or the end of the text -/
def slice (s : String) (i j : Nat) : Except Flaw String :=
  if i ≤ j ∧ String.Pos.Raw.isValid s ⟨i⟩ ∧ String.Pos.Raw.isValid s ⟨j⟩ then
    .ok (String.Pos.Raw.extract s ⟨i⟩ ⟨j⟩)
  else .error .cut

/-- the offset of a character in a text -/
def find? (s : String) (c : Char) : Option Nat :=
  if c ∈ s.toList then some (utf8Len (s.toList.takeWhile (· != c))) else none

variable {s : String} {p x cs r : List Char} {c : Char} {i j : Nat} {t : FieldType}

theorem toNat_ofUInt8_ofNat {n : Nat} (h : n < 0x100) : (Char.ofUInt8 (.ofNat n)).toNat = n := by
  show (UInt8.ofNat n).toUInt32.toNat = n
  rw [UInt8.toNat_toUInt32, UInt8.toNat_ofNat_of_lt' h]

/-- the first byte of a character is the character, or both are no letters of descriptors -/
theorem firstByte (c : Char) : ∃ a as, String.utf8EncodeChar c = a :: as ∧
    (Char.ofUInt8 a = c ∨ 0x80 ≤ (Char.ofUInt8 a).toNat ∧ 0x80 ≤ c.toNat) := by
  fun_cases String.utf8EncodeChar c
  case case1 v hv =>
    have htoNat := toNat_ofUInt8_ofNat (n := c.toNat) (Nat.lt_of_le_of_lt hv (by decide))
    exact ⟨_, _, rfl, .inl (Char.toNat_inj.1 htoNat)⟩
  all_goals
    -- the bits that begin a longer character are above the letters
    have hc : 0x80 ≤ c.toNat := Nat.lt_of_not_le ‹_›
    refine ⟨_, _, rfl, .inr ⟨?_, hc⟩⟩
    rw [toNat_ofUInt8_ofNat] <;> omega

/-- **The byte where a character begins** -/
theorem byteAt_utf8Len (h : s.toList = p ++ c :: r) : ∃ hi : utf8Len p < s.utf8ByteSize,
    byteAt s (utf8Len p) hi = c ∨ 0x80 ≤ (byteAt s (utf8Len p) hi).toNat ∧ 0x80 ≤ c.toNat := by
  obtain ⟨a, as, henc, hc⟩ := firstByte c
  have hs : s.toByteArray = p.utf8Encode ++ (a :: as ++ r.flatMap String.utf8EncodeChar).toByteArray := by
    rw [← String.utf8Encode_toList, h, List.utf8Encode_append, ← henc, ← List.flatMap_cons]
    rfl
  have hp : p.utf8Encode.size = utf8Len p := by
    rw [← String.utf8ByteSize_ofList, ← String.size_toByteArray, String.toByteArray_ofList]
  have hi : utf8Len p < s.utf8ByteSize := by
    rw [← String.size_toByteArray, hs, ByteArray.size_append, hp, List.size_toByteArray]
    simp
  have hbyte : s.getUTF8Byte ⟨utf8Len p⟩ hi = a := by
    simp only [String.getUTF8Byte, hs, ← hp]
    rw [ByteArray.getElem_append_right (Nat.le_refl _)]
    simp
  rw [← hbyte] at hc
  exact ⟨hi, hc⟩

theorem isValid_utf8Len (h : s.toList = p ++ r) : String.Pos.Raw.isValid s ⟨utf8Len p⟩ = true := by
  refine String.Pos.Raw.isValid_eq_true_iff.2 (String.Pos.Raw.isValid_iff_exists_append.2 ?_)
  refine ⟨.ofList p, .ofList r, ?_, ?_⟩
  · rw [← String.ofList_append, ← h, String.ofList_toList]
  · rw [String.rawEndPos_ofList]

/-- **A piece between characters** is cut out as it stands -/
theorem slice_eq (h : s.toList = p ++ x ++ r) : slice s (utf8Len p) (utf8Len (p ++ x)) = .ok (String.ofList x) := by
  have hstart : String.Pos.Raw.isValid s ⟨utf8Len p⟩ = true := isValid_utf8Len (h.trans (List.append_assoc p x r))
  rw [slice, if_pos ⟨by simp, hstart, isValid_utf8Len h⟩]
  rw [← String.ofList_toList (s := s), h, String.utf8Len_append, String.extract_of_valid]


/-! ## The readers -/

/-- the class between the letter at an offset and the semicolon after it -/
def classAt (s : String) (i : Nat) : Except Flaw (FieldType × Nat) :=
  match slice s i s.utf8ByteSize with
  | .error e => .error e
  | .ok rest =>
    match find? rest ';' with
    | none => .error .malformed
    | some k =>
      if k + i = i + 1 then .error .malformed
      else (slice s (i + 1) (k + i)).map fun name => (.ref name, k + i + 1)

/-- the field descriptor at an offset, and the offset after it -/
def readAt (s : String) (i : Nat) : Except Flaw (FieldType × Nat) :=
  if h : i < s.utf8ByteSize then
    match byteAt s i h with
    | 'Z' | 'B' | 'C' | 'S' | 'I' => .ok (.int, i + 1)
    | 'J' => .ok (.long, i + 1)
    | 'F' => .ok (.float, i + 1)
    | 'D' => .ok (.double, i + 1)
    | 'L' => classAt s i
    | '[' =>
      match readAt s (i + 1) with
      | .error e => .error e
      | .ok (_, j) => (slice s i j).map fun text => (.ref text, j)
    | _ => .error .malformed
  else .error .malformed
termination_by s.utf8ByteSize - i

theorem map_eq_ok {α β : Type} {f : α → β} {e : Except Flaw α} {y : β} (h : e.map f = .ok y) :
    ∃ x, e = .ok x ∧ f x = y := by
  cases e with
  | error => exact absurd h (by simp [Except.map])
  | ok x => exact ⟨x, rfl, Except.ok.inj h⟩

theorem lt_of_classAt (h : classAt s i = .ok (t, j)) : i < j := by
  unfold classAt at h
  split at h
  · exact absurd h (by simp)
  split at h
  · exact absurd h (by simp)
  split at h
  · exact absurd h (by simp)
  obtain ⟨name, -, heq⟩ := map_eq_ok h
  have hj := (Prod.mk.inj heq).2
  omega

/-- **A field descriptor takes bytes** -/
theorem lt_of_readAt (h : readAt s i = .ok (t, j)) : i < j := by
  fun_induction readAt s i generalizing t j
  case case9 => exact lt_of_classAt h
  case case11 ih =>
    obtain ⟨text, -, heq⟩ := map_eq_ok h
    obtain rfl := (Prod.mk.inj heq).2
    exact Nat.lt_of_succ_lt (ih ‹_›)
  case case1 | case2 | case3 | case4 | case5 | case6 | case7 | case8 =>
    obtain rfl := (Prod.mk.inj (Except.ok.inj h)).2
    exact Nat.lt_succ_self _
  all_goals exact absurd h (by simp)

theorem byteAt_letter (h : s.toList = p ++ c :: r) (hc : c.toNat < 0x80) :
    ∃ hi : utf8Len p < s.utf8ByteSize, byteAt s (utf8Len p) hi = c := by
  obtain ⟨hi, hb | ⟨-, hb⟩⟩ := byteAt_utf8Len h
  · exact ⟨hi, hb⟩
  · exact absurd hc (Nat.not_lt_of_le hb)

theorem find?_eq_some (h : s.toList = x ++ ';' :: r) (free : ';' ∉ x) : find? s ';' = some (utf8Len x) := by
  rw [find?, h, takeWhile_before free, if_pos (by simp)]

/-- the rest of a text from the beginning of a character -/
theorem slice_end (h : s.toList = p ++ r) : slice s (utf8Len p) s.utf8ByteSize = .ok (String.ofList r) := by
  rw [← String.utf8Len_toList, h]
  exact slice_eq (h.trans (List.append_nil _).symm)

/-- a letter takes one byte -/
theorem utf8Len_snoc (hc : c.utf8Size = 1) : utf8Len (p ++ [c]) = utf8Len p + 1 := by
  rw [String.utf8Len_append, String.utf8Len_cons, String.utf8Len_nil, hc]

theorem classAt_eq {name : List Char} (h : s.toList = p ++ 'L' :: (name ++ ';' :: r)) (free : ';' ∉ name) :
    classAt s (utf8Len p) =
      if name = [] then .error .malformed
      else .ok (.ref (String.ofList name), utf8Len (p ++ ('L' :: name ++ [';']))) := by
  have hfind : find? (String.ofList ('L' :: (name ++ ';' :: r))) ';' = some (utf8Len name + 1) :=
    find?_eq_some (x := 'L' :: name) String.toList_ofList (by simpa using free)
  have hname : slice s (utf8Len p + 1) (utf8Len name + 1 + utf8Len p) = .ok (String.ofList name) := by
    have hslice := slice_eq (p := p ++ ['L']) (x := name) (r := ';' :: r) (by simpa using h)
    have hstart : utf8Len (p ++ ['L']) = utf8Len p + 1 := utf8Len_snoc rfl
    have hend : utf8Len name + 1 + utf8Len p = utf8Len (p ++ ['L'] ++ name) := by
      rw [String.utf8Len_append, hstart]
      omega
    rw [hend, ← hstart, hslice]
  have hnone : utf8Len name + 1 + utf8Len p = utf8Len p + 1 ↔ name = [] := by
    rw [← String.utf8Len_eq_zero]
    omega
  have hafter : utf8Len name + 1 + utf8Len p + 1 = utf8Len (p ++ ('L' :: name ++ [';'])) := by
    rw [← List.append_assoc, utf8Len_snoc rfl, String.utf8Len_append, Nat.add_comm (utf8Len p)]
    rfl
  simp only [classAt, slice_end h, hfind, hnone, hname, hafter]
  rfl

theorem classAt_open (h : s.toList = p ++ 'L' :: r) (free : ';' ∉ r) : classAt s (utf8Len p) = .error .malformed := by
  have hfind : find? (String.ofList ('L' :: r)) ';' = none := by
    rw [find?, String.toList_ofList, if_neg (by simpa using free)]
  simp only [classAt, slice_end h, hfind]

/-- **The reader of bytes** stops between characters, where the reader of characters does -/
theorem readAt_eq (h : s.toList = p ++ cs) : readAt s (utf8Len p) =
    (FieldType.read? cs).elim (.error .malformed) fun d => .ok (d.type, utf8Len (p ++ d.text)) := by
  fun_induction FieldType.read? cs generalizing p
  case case1 =>
    have hp : ¬ utf8Len p < s.utf8ByteSize := by
      rw [← String.utf8Len_toList, h, List.append_nil]
      exact Nat.lt_irrefl _
    rw [readAt, dif_neg hp]
    rfl
  case case2 | case3 | case4 | case5 | case6 | case7 | case8 | case9 =>
    obtain ⟨hi, hb⟩ := byteAt_letter h (by decide)
    rw [readAt, dif_pos hi, hb, Option.elim_some, utf8Len_snoc rfl]
    rfl
  case case10 hdrop hname =>
    obtain ⟨hi, hb⟩ := byteAt_letter h (by decide)
    obtain ⟨_, rfl, free, hr⟩ := exists_of_dropWhile hdrop
    rw [readAt, dif_pos hi, hb]
    exact (classAt_eq (hr ▸ h) free).trans (if_pos (List.isEmpty_iff.1 hname))
  case case11 hdrop hname =>
    obtain ⟨hi, hb⟩ := byteAt_letter h (by decide)
    obtain ⟨_, rfl, free, hr⟩ := exists_of_dropWhile hdrop
    rw [readAt, dif_pos hi, hb]
    exact (classAt_eq (hr ▸ h) free).trans (if_neg (mt List.isEmpty_iff.2 hname))
  case case12 hdrop =>
    obtain ⟨hi, hb⟩ := byteAt_letter h (by decide)
    have free : ';' ∉ _ := fun hmem => by simpa using List.dropWhile_eq_nil_iff.1 hdrop _ hmem
    rw [readAt, dif_pos hi, hb]
    exact classAt_open h free
  case case13 r elem helem ih =>
    obtain ⟨hi, hb⟩ := byteAt_letter h (by decide)
    have hnext : readAt s (utf8Len p + 1) = .ok (elem.type, utf8Len (p ++ '[' :: elem.text)) := by
      rw [← utf8Len_snoc (c := '[') rfl, ih (h.trans (List.append_cons p '[' r)), helem, Option.elim_some,
        List.append_cons p '[' elem.text]
    have htext : s.toList = p ++ '[' :: elem.text ++ elem.rest := by
      rw [h, (FieldType.denotes_of_read? helem).1, List.append_assoc, List.cons_append]
    rw [readAt, dif_pos hi, hb]
    simp only [hnext, slice_eq htext]
    rfl
  case case14 r helem ih =>
    obtain ⟨hi, hb⟩ := byteAt_letter h (by decide)
    have hnext : readAt s (utf8Len p + 1) = .error .malformed := by
      rw [← utf8Len_snoc (c := '[') rfl, ih (h.trans (List.append_cons p '[' r)), helem, Option.elim_none]
    rw [readAt, dif_pos hi, hb]
    simp only [hnext]
    rfl
  case case15 =>
    obtain ⟨hi, hb⟩ := byteAt_utf8Len h
    rw [readAt, dif_pos hi]
    split
    case h_11 => rfl
    -- a letter that is the byte would be the character
    all_goals
      rename_i hletter
      rw [hletter] at hb
      obtain rfl | ⟨hb, -⟩ := hb
      · contradiction
      · exact absurd hb (by decide)

/-! ## Whole descriptors -/

/-- the parameters from an offset, and the offset of what closes them -/
def paramsAt (s : String) (i : Nat) : Except Flaw (List FieldType × Nat) :=
  if hi : i < s.utf8ByteSize then
    if byteAt s i hi = ')' then .ok ([], i)
    else
      match _ : readAt s i with
      | .error e => .error e
      | .ok (t, j) => (paramsAt s j).map fun p => (t :: p.1, p.2)
  else .error .malformed
termination_by s.utf8ByteSize - i
decreasing_by
  have hj := lt_of_readAt ‹_›
  omega

/-- the type of a whole text -/
def fieldAt (s : String) : Except Flaw FieldType :=
  match readAt s 0 with
  | .error e => .error e
  | .ok (t, j) => if j = s.utf8ByteSize then .ok t else .error .malformed

/-- the method of a whole text -/
def methodAt (s : String) : Except Flaw MethodDesc :=
  if s.toList.head? ≠ some '(' then .error .malformed
  else
    match paramsAt s 1 with
    | .error e => .error e
    | .ok (params, i) =>
      match slice s (i + 1) s.utf8ByteSize with
      | .error e => .error e
      | .ok ret =>
        if ret = "V" then .ok ⟨params, none⟩ else (fieldAt ret).map fun t => ⟨params, some t⟩

theorem fieldAt_eq (s : String) : fieldAt s = (FieldType.parse? s).elim (.error .malformed) .ok := by
  have hread : readAt s 0 = _ := readAt_eq (p := []) (show s.toList = [] ++ s.toList from rfl)
  unfold fieldAt FieldType.parse?
  cases hs : FieldType.read? s.toList with
  | none =>
    rw [hread, hs]
    rfl
  | some d =>
    obtain ⟨t, x, r⟩ := d
    have hsize : utf8Len x = s.utf8ByteSize ↔ r = [] := by
      rw [← String.utf8Len_toList, (FieldType.denotes_of_read? hs).1, String.utf8Len_append, Nat.left_eq_add,
        String.utf8Len_eq_zero]
    rw [hread, hs]
    simp only [Option.elim_some, List.nil_append, hsize]
    cases r with
    | nil => rfl
    | cons => rfl

variable {ts : List FieldType} {fuel : Nat}

/-- what closes the parameters -/
theorem paramsAt_close (h : s.toList = p ++ ')' :: r) : paramsAt s (utf8Len p) = .ok ([], utf8Len p) := by
  obtain ⟨hi, hb⟩ := byteAt_letter h (by decide)
  rw [paramsAt, dif_pos hi, if_pos hb]

/-- another parameter -/
theorem paramsAt_step (h : s.toList = p ++ cs) (hne : ∀ r, cs ≠ ')' :: r) : paramsAt s (utf8Len p) =
    match readAt s (utf8Len p) with
    | .error e => .error e
    | .ok (t, j) => (paramsAt s j).map fun q => (t :: q.1, q.2) := by
  cases cs with
  | nil =>
    have hp : ¬ utf8Len p < s.utf8ByteSize := by
      rw [← String.utf8Len_toList, h, List.append_nil]
      exact Nat.lt_irrefl _
    rw [paramsAt, dif_neg hp, readAt, dif_neg hp]
  | cons c r =>
    obtain ⟨hi, hb⟩ := byteAt_utf8Len h
    have hclose : ¬ byteAt s (utf8Len p) hi = ')' := by
      intro hletter
      rw [hletter] at hb
      obtain rfl | ⟨hb, -⟩ := hb
      · exact hne r rfl
      · exact absurd hb (by decide)
    rw [paramsAt, dif_pos hi, if_neg hclose]
    split <;> simp_all

theorem paramsAt_ok (h : s.toList = p ++ cs) (hparams : MethodDesc.params? fuel cs = some (ts, r)) :
    ∃ q, s.toList = q ++ ')' :: r ∧ paramsAt s (utf8Len p) = .ok (ts, utf8Len q) := by
  fun_induction MethodDesc.params? fuel cs generalizing p ts r
  case case1 =>
    obtain ⟨rfl, rfl⟩ := Prod.mk.inj (Option.some.inj hparams)
    exact ⟨p, h, paramsAt_close h⟩
  case case3 hne elem helem ih =>
    obtain ⟨⟨us, r'⟩, hus, heq⟩ := Option.map_eq_some_iff.1 hparams
    obtain ⟨rfl, rfl⟩ := Prod.mk.inj heq
    have hrest : s.toList = p ++ elem.text ++ elem.rest := by
      rw [h, (FieldType.denotes_of_read? helem).1, List.append_assoc]
    obtain ⟨q, hq, hok⟩ := ih hrest hus
    refine ⟨q, hq, ?_⟩
    rw [paramsAt_step h hne, readAt_eq h, helem, Option.elim_some]
    simp only [hok]
    rfl
  all_goals exact absurd hparams (by simp)

theorem paramsAt_error (h : s.toList = p ++ cs) (hfuel : cs.length ≤ fuel)
    (hparams : MethodDesc.params? fuel cs = none) :
    paramsAt s (utf8Len p) = .error .malformed := by
  fun_induction MethodDesc.params? fuel cs generalizing p
  case case1 => exact absurd hparams (by simp)
  case case2 hne =>
    obtain rfl := List.length_eq_zero_iff.1 (Nat.le_zero.1 hfuel)
    rw [paramsAt_step h hne, readAt_eq h]
    rfl
  case case3 fuel cs hne elem helem ih =>
    obtain ⟨hcs, hdenotes⟩ := FieldType.denotes_of_read? helem
    have hrest : s.toList = p ++ elem.text ++ elem.rest := by rw [h, hcs, List.append_assoc]
    -- the parameter takes a character
    obtain ⟨c, x, hx, -⟩ := hdenotes.head
    have hlength : elem.rest.length ≤ fuel := by
      rw [hcs, hx, List.length_append, List.length_cons] at hfuel
      omega
    rw [paramsAt_step h hne, readAt_eq h, helem, Option.elim_some]
    simp only [ih hrest hlength (Option.map_eq_none_iff.1 hparams)]
    rfl
  case case4 hne helem =>
    rw [paramsAt_step h hne, readAt_eq h, helem]
    rfl

/-- a result is no type, or a field descriptor -/
theorem result?_ofList (cs : List Char) : MethodDesc.result? cs =
    if String.ofList cs = "V" then some none else (FieldType.parse? (String.ofList cs)).map some := by
  have hvoid : String.ofList cs = String.ofList ['V'] ↔ cs = ['V'] := String.ofList_inj
  have hvoid : String.ofList cs = "V" ↔ cs = ['V'] := hvoid
  simp only [MethodDesc.result?, FieldType.parse?, hvoid, String.toList_ofList]
  split
  · rfl
  · split <;> rfl

theorem methodAt_eq (s : String) : methodAt s = (MethodDesc.parse? s).elim (.error .malformed) .ok := by
  unfold methodAt MethodDesc.parse?
  split
  case isTrue hhead =>
    split
    · exact absurd (List.head?_eq_some_iff.2 ⟨_, ‹_›⟩) hhead
    · rfl
  case isFalse hhead =>
    obtain ⟨r, hs⟩ := List.head?_eq_some_iff.1 (not_not.1 hhead)
    have hstart : s.toList = ['('] ++ r := hs
    simp only [hs]
    cases hparams : MethodDesc.params? r.length r with
    | none =>
      have herror : paramsAt s 1 = .error .malformed := paramsAt_error hstart (Nat.le_refl _) hparams
      simp only [herror]
      rfl
    | some q =>
      obtain ⟨ts, y⟩ := q
      obtain ⟨q, hq, hok⟩ := paramsAt_ok hstart hparams
      have hok : paramsAt s 1 = .ok (ts, utf8Len q) := hok
      have hret : slice s (utf8Len q + 1) s.utf8ByteSize = .ok (String.ofList y) := by
        rw [← utf8Len_snoc (c := ')') rfl]
        exact slice_end (hq.trans (List.append_cons q ')' y))
      simp only [hok, hret, fieldAt_eq, result?_ofList]
      split
      · rfl
      · cases FieldType.parse? (String.ofList y) <;> rfl

/-! ## The grammar -/

/-- **The descriptors that are read** are those of the grammar: a field descriptor is parsed as the type that it
stands for, a method descriptor as the types of its one decomposition, and both are read alike by their bytes, without
a cut inside a character. -/
theorem parse_iff_denotes (s : String) :
    (∀ t, FieldType.parse? s = some t ↔ FieldType.Denotes s.toList t) ∧
    (∀ d, MethodDesc.parse? s = some d ↔ ∃ xs, MethodDesc.Denotes s.toList xs d ∧
      (∀ ys e, MethodDesc.Denotes s.toList ys e → ys = xs ∧ e = d) ∧
      d.paramSlots = xs.foldr (fun x n => (if x = ['J'] ∨ x = ['D'] then 2 else 1) + n) 0) ∧
    fieldAt s = (FieldType.parse? s).elim (.error .malformed) .ok ∧
    methodAt s = (MethodDesc.parse? s).elim (.error .malformed) .ok := by
  refine ⟨fun t => FieldType.parse?_eq_some_iff, fun d => ?_, fieldAt_eq s, methodAt_eq s⟩
  constructor
  · intro h
    obtain ⟨xs, hd⟩ := MethodDesc.parse?_eq_some_iff.1 h
    exact ⟨xs, hd, fun ys e he => he.unique hd, hd.paramSlots⟩
  · rintro ⟨xs, hd, -, -⟩
    exact MethodDesc.parse?_eq_some_iff.2 ⟨xs, hd⟩

end Descriptor
end Resumable
