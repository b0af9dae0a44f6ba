import Mathlib.Data.List.Basic
import Mathlib.Tactic.IntervalCases
import Resumable.Assembly.Build
import Resumable.Proofs.Readers

/-!
# Spellings of a literal

A character of a literal can be written as itself, by the escape that it has, or by its code point between braces.
Which one is chosen does not matter: every spelling of a text is one literal, up to its closing quote, and stands for
this text.

* `Spells`, `Spelled` : the spellings of a character and of a text;
* `hexChar?_hexDigits` : code points are read as they are written;
* `Spelled.decode`, `Spelled.literalBody` : what a spelling stands for, and where it ends;
* `Assembly.spelling_read` : a literal in any spelling, as an operand and as the constant of a line.
-/

namespace Resumable

namespace Text

open Quoted

/-! ## code points -/

theorem hexNumber?_append (a b : List Char) (n : Nat) :
    hexNumber? n (a ++ b) = (hexNumber? n a).bind fun m => hexNumber? m b := by
  induction a generalizing n with
  | nil => rfl
  | cons c a ih =>
    show ((hexValue? c).bind fun v => hexNumber? (n * 16 + v) (a ++ b)) =
      ((hexValue? c).bind fun v => hexNumber? (n * 16 + v) a).bind fun m => hexNumber? m b
    rw [Option.bind_assoc]
    exact congrArg _ (funext fun v => ih _)

theorem hexValue?_digitChar {n : Nat} (h : n < 16) : hexValue? (Nat.digitChar n) = some n := by
  interval_cases n <;> decide

/-- **Digits** are read as the number that they were written from -/
theorem hexNumber?_toDigits (n : Nat) : hexNumber? 0 (Nat.toDigits 16 n) = some n := by
  induction n using Nat.strongRecOn with
  | ind n ih =>
    have hlast (k d : Nat) (hd : d < 16) : hexNumber? k [Nat.digitChar d] = some (k * 16 + d) := by
      unfold hexNumber?
      rw [hexValue?_digitChar hd]
      rfl
    rcases Nat.lt_or_ge n 16 with hn | hn
    · rw [Nat.toDigits_of_lt_base hn, hlast 0 n hn, Nat.zero_mul, Nat.zero_add]
    · rw [Nat.toDigits_of_base_le (by decide) hn, hexNumber?_append, ih (n / 16) (by omega), Option.bind_some,
        hlast _ _ (Nat.mod_lt n (by decide)), Nat.div_add_mod']

theorem hexChar?_hexDigits (c : Char) : hexChar? (hexDigits c) = some c := by
  have hvalid : c.toNat.isValidChar := c.valid
  unfold hexChar? hexDigits
  rw [hexNumber?_toDigits]
  exact dif_pos hvalid

/-- what is read as a number has nothing but digits -/
theorem ne_of_hexNumber? {cs : List Char} {n m : Nat} (h : hexNumber? n cs = some m) {d : Char}
    (hd : hexValue? d = none) : d ∉ cs := by
  induction cs generalizing n with
  | nil => simp
  | cons c cs ih =>
    obtain ⟨v, hv, hrest⟩ := Option.bind_eq_some_iff.1 h
    rintro (_ | ⟨_, hmem⟩)
    · rw [hd] at hv
      exact absurd hv (by simp)
    · exact ih hrest hmem

theorem not_mem_hexDigits (c : Char) {d : Char} (hd : hexValue? d = none) : d ∉ hexDigits c :=
  ne_of_hexNumber? (hexNumber?_toDigits c.toNat) hd

theorem codePoint?_hexDigits (c : Char) : codePoint? (hexDigits c) = some c := by
  have hplus : '+' ∉ hexDigits c := not_mem_hexDigits c (by decide)
  have hne : (hexDigits c).isEmpty = false := by simp [hexDigits, Nat.toDigits_ne_nil]
  unfold codePoint?
  split
  · rename_i h
    exact absurd (h ▸ List.mem_cons_self) hplus
  · show (if (hexDigits c).isEmpty then none else hexChar? (hexDigits c)) = _
    rw [hne]
    exact hexChar?_hexDigits c

/-! ## spellings -/

namespace Quoted

/-- the spellings of a character -/
inductive Spells : Char → List Char → Prop
  | plain {c : Char} (hquote : c ≠ '"') (hslash : c ≠ '\\') : Spells c [c]
  | lineFeed : Spells '\n' ['\\', 'n']
  | tab : Spells '\t' ['\\', 't']
  | carriageReturn : Spells '\r' ['\\', 'r']
  | zero : Spells '\x00' ['\\', '0']
  | backslash : Spells '\\' ['\\', '\\']
  | quote : Spells '"' ['\\', '"']
  | codePoint (c : Char) : Spells c ('\\' :: 'u' :: '\x7b' :: (hexDigits c ++ ['\x7d']))

/-- the spellings of a text, one of each character -/
inductive Spelled : List Char → List Char → Prop
  | nil : Spelled [] []
  | cons {c : Char} {cs w ws : List Char} (first : Spells c w) (more : Spelled cs ws) : Spelled (c :: cs) (w ++ ws)

section
variable {c : Char} {cs w ws r : List Char} {s : String}

/-- **A literal as it is printed** is a spelling of its text -/
theorem spells_encodeChar (c : Char) : Spells c (encodeChar c) := by
  unfold encodeChar
  split
  · exact .quote
  · exact .backslash
  · exact .lineFeed
  · exact .carriageReturn
  · exact .tab
  · exact .zero
  · rename_i hquote hslash _ _ _ _
    split
    · exact .codePoint c
    · exact .plain hquote hslash

theorem spelled_encodeChars (cs : List Char) : Spelled cs (encodeChars cs) := by
  induction cs with
  | nil => exact .nil
  | cons c cs ih => exact .cons (spells_encodeChar c) ih

/-! ### what they stand for -/

/-- the digits of a code point up to the brace after them -/
theorem decodeFrom_code (ds cs r : List Char) (h : '\x7d' ∉ cs) :
    decodeFrom (.code ds) (cs ++ '\x7d' :: r) =
      (codePoint? (ds.reverse ++ cs)).toList ++ decodeFrom .plain r := by
  induction cs generalizing ds with
  | nil => simp [decodeFrom]
  | cons c cs ih =>
    obtain ⟨hc, hcs⟩ := List.ne_and_not_mem_of_not_mem_cons h
    rw [List.cons_append, decodeFrom, if_neg (Ne.symm hc), ih (c :: ds) hcs]
    simp

theorem decodeFrom_codePoint (c : Char) (r : List Char) :
    decodeFrom .brace ('\x7b' :: (hexDigits c ++ '\x7d' :: r)) = c :: decodeFrom .plain r := by
  -- no digit is a brace: the digits start behind the first one and end at the next one
  have hopen : '\x7b' ∉ hexDigits c := not_mem_hexDigits c (by decide)
  have hclose : '\x7d' ∉ hexDigits c := not_mem_hexDigits c (by decide)
  have hpoint := codePoint?_hexDigits c
  rw [decodeFrom, if_pos rfl]
  cases hdigits : hexDigits c with
  | nil => exact absurd hdigits Nat.toDigits_ne_nil
  | cons d ds =>
    rw [hdigits] at hopen hclose hpoint
    obtain ⟨hd, -⟩ := List.ne_and_not_mem_of_not_mem_cons hopen
    obtain ⟨hd', hds⟩ := List.ne_and_not_mem_of_not_mem_cons hclose
    rw [List.cons_append, decodeFrom, if_neg (Ne.symm hd), if_neg (Ne.symm hd'), decodeFrom_code _ _ _ hds]
    show (codePoint? (d :: ds)).toList ++ _ = _
    rw [hpoint]
    rfl

/-- **A spelling of a character** is read as this character, whatever follows -/
theorem Spells.decodeFrom (h : Spells c w) (r : List Char) :
    decodeFrom .plain (w ++ r) = c :: Quoted.decodeFrom .plain r := by
  cases h with
  | plain hquote hslash => exact decodeFrom_plain_cons c r hslash
  | codePoint =>
    have hbrace := decodeFrom_codePoint c r
    rw [List.cons_append, List.cons_append, List.cons_append, List.append_assoc]
    exact hbrace
  | lineFeed | tab | carriageReturn | zero | backslash | quote => rfl

theorem Spelled.decodeFrom (h : Spelled cs ws) : decodeFrom .plain ws = cs := by
  induction h with
  | nil => rfl
  | cons first more ih => rw [first.decodeFrom, ih]

theorem Spelled.decode (h : Spelled s.toList ws) : decode (String.ofList ws) = s := by
  unfold Quoted.decode
  rw [String.toList_ofList, h.decodeFrom, String.ofList_toList]

end
end Quoted
end Text

/-! ## literals in a source -/

namespace Assembly

open Reader Text.Quoted

section
variable {c : Char} {cs w ws rest : List Char} {s : String}

theorem literalBody?_cons (h : c ≠ '"') (h' : c ≠ '\\') :
    literalBody? (c :: rest) = (literalBody? rest).map fun p => (c :: p.1, p.2) := by
  rw [literalBody?]
  · exact h
  · exact fun _ _ hslash _ => h' hslash
  · exact fun hslash _ => h' hslash

/-- characters without quote and backslash belong to the literal -/
theorem literalBody?_append (hquote : '"' ∉ cs) (hslash : '\\' ∉ cs) (rest : List Char) :
    literalBody? (cs ++ rest) = (literalBody? rest).map fun p => (cs ++ p.1, p.2) := by
  induction cs with
  | nil => simp
  | cons c cs ih =>
    obtain ⟨hc, hcs⟩ := List.ne_and_not_mem_of_not_mem_cons hquote
    obtain ⟨hc', hcs'⟩ := List.ne_and_not_mem_of_not_mem_cons hslash
    rw [List.cons_append, literalBody?_cons (Ne.symm hc) (Ne.symm hc'), ih hcs hcs', Option.map_map]
    rfl

/-- **A spelling of a character** does not end the literal, and is not cut by its end -/
theorem literalBody?_spells (h : Spells c w) (rest : List Char) :
    literalBody? (w ++ rest) = (literalBody? rest).map fun p => (w ++ p.1, p.2) := by
  cases h with
  | plain hquote hslash => exact literalBody?_cons hquote hslash
  | codePoint =>
    have hquote : '"' ∉ hexDigits c := Text.not_mem_hexDigits c (by decide)
    have hslash : '\\' ∉ hexDigits c := Text.not_mem_hexDigits c (by decide)
    have hbraces : literalBody? (('\x7b' :: (hexDigits c ++ ['\x7d'])) ++ rest) = _ :=
      literalBody?_append (by simp [hquote]) (by simp [hslash]) rest
    show (literalBody? (('\x7b' :: (hexDigits c ++ ['\x7d'])) ++ rest)).map _ = _
    rw [hbraces, Option.map_map]
    rfl
  | lineFeed | tab | carriageReturn | zero | backslash | quote => rfl

/-- **A spelling of a text** is the whole inside of its literal -/
theorem literalBody?_spelled (h : Spelled cs ws) (rest : List Char) :
    literalBody? (ws ++ '"' :: rest) = some (ws, rest) := by
  induction h with
  | nil => rfl
  | @cons c cs w ws first more ih =>
    rw [List.append_assoc, literalBody?_spells first, ih]
    rfl

/-- a spelling between quotes -/
def quoted (ws : List Char) : List Char := '"' :: (ws ++ ['"'])

theorem literalOperand_quoted (h : Spelled cs ws) (rest : List Char) (o : Nat) :
    (literalOperand ⟨quoted ws ++ rest, o⟩).found =
      some (.literal (String.ofList ws), ⟨rest, o + (quoted ws).length⟩) := by
  have htext : quoted ws ++ rest = '"' :: (ws ++ '"' :: rest) := by simp [quoted]
  have hlength : o + (quoted ws).length = o + ws.length + 2 := by
    simp only [quoted, List.length_cons, List.length_append, List.length_nil]
    omega
  rw [htext, hlength]
  unfold literalOperand rule
  simp only [literalBody?_spelled h]

/-- the blank in front of a literal is skipped, and nothing of the literal -/
theorem drop_skipLength_quoted (ws rest : List Char) :
    (' ' :: (quoted ws ++ rest)).drop (skipLength (' ' :: (quoted ws ++ rest))) = quoted ws ++ rest := by
  rw [skipLength_blank]
  rfl

/-- the literal is the only operand of its line -/
theorem reads_operands_quoted (h : Spelled cs ws) (rest : List Char) :
    Reads (next (many operand)) (' ' :: (quoted ws ++ '\n' :: rest)) ('\n' :: rest)
      (· = [.literal (String.ofList ws)]) := by
  have hliteral : Reads operand (quoted ws ++ '\n' :: rest) ('\n' :: rest) (· = .literal (String.ofList ws)) :=
    .orElse fun o => ⟨_, _, literalOperand_quoted h _ o, rfl⟩
  have hnone : Refuses (next operand) ('\n' :: rest) := .next (refuses_operand rest)
  refine .next ?_
  rw [drop_skipLength_quoted]
  refine (hliteral.many (reads_more_nil hnone _)).mono ?_
  rintro _ ⟨_, _, rfl, rfl, rfl⟩
  rfl

/-- **A line** with a literal, in any spelling -/
theorem reads_constant (h : Spelled cs ws) (rest : List Char) :
    Reads bodyLine ("ldc ".toList ++ quoted ws ++ '\n' :: rest) ('\n' :: rest) fun l =>
      ∃ o, l = .insn ⟨o, "ldc", [.literal (String.ofList ws)]⟩ := by
  have hcolon : Refuses (next (word [':'])) (' ' :: (quoted ws ++ '\n' :: rest)) := by
    refine .next ?_
    rw [drop_skipLength_quoted]
    exact fun _ => rfl
  have htext : "ldc ".toList ++ quoted ws ++ '\n' :: rest =
      "ldc".toList ++ ' ' :: (quoted ws ++ '\n' :: rest) := by simp
  rw [htext]
  exact reads_insn (by decide) rfl (.inl rfl) hcolon (reads_operands_quoted h rest)

/-- **Literals survive.**  A literal in any spelling of a text is taken whole as an operand, wherever it stands and
whatever follows, and its inside stands for the text.  The printed constant has such a spelling, and the line of a
constant in any spelling adds this constant to the code. -/
theorem spelling_read (h : Spelled s.toList ws) (rest : List Char) :
    (∀ o, (literalOperand ⟨quoted ws ++ rest, o⟩).found =
      some (.literal (String.ofList ws), ⟨rest, o + (quoted ws).length⟩)) ∧
    decode (String.ofList ws) = s ∧
    (∃ vs, Spelled s.toList vs ∧ (Insn.stringConst s).text.toList = "ldc ".toList ++ quoted vs) ∧
    Reads bodyLine ("ldc ".toList ++ quoted ws ++ '\n' :: rest) ('\n' :: rest) fun l =>
      ∀ b : Body, b.addLine l = .ok { b with code := b.code ++ [.stringConst s] } := by
  refine ⟨literalOperand_quoted h rest, h.decode, ⟨_, spelled_encodeChars s.toList, ?_⟩,
    (reads_constant h rest).mono ?_⟩
  · have hliteral : (encode s).toList = quoted (encodeChars s.toList) := String.toList_ofList
    rw [← hliteral]
    exact String.toList_append
  · rintro _ ⟨o, rfl⟩ b
    have hinsn : b.insn ⟨o, "ldc", [.literal (String.ofList ws)]⟩ =
        .ok (.stringConst (decode (String.ofList ws)), b) := rfl
    show b.addInsn _ = _
    unfold Body.addInsn
    rw [hinsn, h.decode]
    rfl

/-! #### several spellings at once -/

namespace Mixed

/-- a quote, a brace, a backslash and a comment -/
def text : String := "\"\x7d\\//\n"

/-- the quote and the line feed as escapes, brace and backslash as code points, the slashes as they are -/
def spelling : List Char :=
  ['\\', '"'] ++ ("\\u\x7b7d\x7d".toList ++ ("\\u\x7b5c\x7d".toList ++ (['/'] ++ (['/'] ++ (['\\', 'n'] ++ [])))))

theorem spelled : Spelled text.toList spelling :=
  .cons .quote (.cons (.codePoint '\x7d') (.cons (.codePoint '\\') (.cons (.plain (by decide) (by decide))
    (.cons (.plain (by decide) (by decide)) (.cons .lineFeed .nil)))))

end Mixed

/-- the literal with a comment behind it -/
theorem spelling_read_mixed : Spelled Mixed.text.toList Mixed.spelling ∧
    (literalOperand ⟨quoted Mixed.spelling ++ " # end".toList, 6⟩).found =
      some (.literal (String.ofList Mixed.spelling), ⟨" # end".toList, 26⟩) ∧
    decode (String.ofList Mixed.spelling) = Mixed.text := by
  obtain ⟨hoperand, hdecode, -⟩ := spelling_read Mixed.spelled " # end".toList
  exact ⟨Mixed.spelled, hoperand 6, hdecode⟩

end
end Assembly
end Resumable
