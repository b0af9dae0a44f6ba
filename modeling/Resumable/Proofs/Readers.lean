import Mathlib.Data.List.Forall2
import Resumable.Assembly.Grammar

/-!
# Reading words and blocks

What readers do with the head of a text, and the words of a line: a word ends at a blank and at the end of
the line, nothing is skipped in front of it, and words with blanks between them are read as operands.

Parts that stand one after another are read as many as they are, when each of them can be read and none stands behind
the last.  A block is such a sequence of lines, which may be empty, between braces.

* `Reader.Reads`, `Reader.Refuses` : a reader finds something, or nothing, at the head of a text;
* `IsWord` : texts that are read as one operand;
* `reads_operands` : the operands of a line;
* `Reader.Sequence`, `Reader.Sequence.many` : parts up to a place where there is none, read as a whole;
* `reads_block`, `reads_printedBlock` : a block of lines, and one that was printed.
-/

namespace Resumable.Assembly

/-! ## readers -/

namespace Reader

variable {α β : Type} {p q : Reader α} {f : α → Reader β} {text rest end_ : List Char} {P : α → Prop}
  {Q : β → Prop}

/-- the reader takes the head of a text, wherever it stands, and finds something with a property -/
def Reads (p : Reader α) (text rest : List Char) (P : α → Prop) : Prop :=
  ∀ o, ∃ a o', (p ⟨text, o⟩).found = some (a, ⟨rest, o'⟩) ∧ P a

/-- the reader finds nothing at the head of a text -/
def Refuses (p : Reader α) (text : List Char) : Prop := ∀ o, (p ⟨text, o⟩).found = none

theorem Reads.mono (h : Reads p text rest P) {P' : α → Prop} (hP : ∀ a, P a → P' a) :
    Reads p text rest P' := by
  intro o
  obtain ⟨a, o', hfound, ha⟩ := h o
  exact ⟨a, o', hfound, hP a ha⟩

theorem reads_pure (a : α) (text : List Char) : Reads (Pure.pure a) text text (· = a) :=
  fun o => ⟨a, o, rfl, rfl⟩

theorem reads_offset (text : List Char) : Reads offset text text fun _ => True :=
  fun o => ⟨o, o, rfl, trivial⟩

theorem Reads.bind (h : Reads p text rest P) (hf : ∀ a, P a → Reads (f a) rest end_ Q) :
    Reads (p >>= f) text end_ Q := by
  intro o
  obtain ⟨a, o', hfound, ha⟩ := h o
  obtain ⟨b, o'', hfound', hb⟩ := hf a ha o'
  refine ⟨b, o'', ?_, hb⟩
  show (Reader.bind p f ⟨text, o⟩).found = _
  unfold Reader.bind
  simp only [hfound]
  exact hfound'

theorem Reads.refuses (h : Reads p text rest P) (hf : ∀ a, P a → Refuses (f a) rest) :
    Refuses (p >>= f) text := by
  intro o
  obtain ⟨a, o', hfound, ha⟩ := h o
  show (Reader.bind p f ⟨text, o⟩).found = _
  unfold Reader.bind
  simp only [hfound]
  exact hf a ha o'

theorem Refuses.bind (h : Refuses p text) : Refuses (p >>= f) text := by
  intro o
  show (Reader.bind p f ⟨text, o⟩).found = _
  unfold Reader.bind
  simp only [h o]

theorem Reads.rule (h : Reads p text rest P) : Reads (rule p) text rest P := by
  intro o
  obtain ⟨a, o', hfound, ha⟩ := h o
  refine ⟨a, o', ?_, ha⟩
  unfold Reader.rule
  simp only [hfound]

theorem Refuses.rule (h : Refuses p text) : Refuses (rule p) text := by
  intro o
  unfold Reader.rule
  simp only [h o]

theorem Reads.orElse (h : Reads p text rest P) : Reads (Reader.orElse p q) text rest P := by
  intro o
  obtain ⟨a, o', hfound, ha⟩ := h o
  refine ⟨a, o', ?_, ha⟩
  unfold Reader.orElse
  simp only [hfound]

theorem Refuses.orElse (h : Refuses p text) (hq : Reads q text rest P) :
    Reads (Reader.orElse p q) text rest P := by
  intro o
  obtain ⟨a, o', hfound, ha⟩ := hq o
  refine ⟨a, o', ?_, ha⟩
  unfold Reader.orElse
  simp only [h o]
  exact hfound

theorem Refuses.orElse_refuses (h : Refuses p text) (hq : Refuses q text) :
    Refuses (Reader.orElse p q) text := by
  intro o
  unfold Reader.orElse
  simp only [h o]
  exact hq _

theorem Reads.next (h : Reads p (text.drop (skipLength text)) rest P) : Reads (next p) text rest P :=
  fun o => h (o + skipLength text)

theorem Refuses.next (h : Refuses p (text.drop (skipLength text))) : Refuses (next p) text :=
  fun o => h (o + skipLength text)

/-! ### repetition -/

theorem reads_more_nil (h : Refuses (next p) text) (n : Nat) : Reads (moreFrom p n) text text (· = []) := by
  cases n with
  | zero => exact reads_pure [] text
  | succ n =>
    intro o
    refine ⟨[], o, ?_, rfl⟩
    unfold moreFrom
    simp only [h o]

theorem Reads.more {n : Nat} {R : List α → Prop} (h : Reads (Reader.next p) text rest P)
    (hmore : Reads (moreFrom p n) rest end_ R) :
    Reads (moreFrom p (n + 1)) text end_ fun as => ∃ a bs, as = a :: bs ∧ P a ∧ R bs := by
  intro o
  obtain ⟨a, o', hfound, ha⟩ := h o
  obtain ⟨bs, o'', hfound', hbs⟩ := hmore o'
  refine ⟨a :: bs, o'', ?_, a, bs, rfl, ha, hbs⟩
  unfold moreFrom
  simp only [hfound, hfound', Option.map_some]

theorem reads_many_nil (h : Refuses p text) : Reads (many p) text text (· = []) := by
  intro o
  refine ⟨[], o, ?_, rfl⟩
  unfold many
  simp only [h o]

theorem Reads.many {R : List α → Prop} (h : Reads p text rest P)
    (hmore : Reads (moreFrom p (rest.length + 1)) rest end_ R) :
    Reads (Reader.many p) text end_ fun as => ∃ a bs, as = a :: bs ∧ P a ∧ R bs := by
  intro o
  obtain ⟨a, o', hfound, ha⟩ := h o
  obtain ⟨bs, o'', hfound', hbs⟩ := hmore o'
  refine ⟨a :: bs, o'', ?_, a, bs, rfl, ha, hbs⟩
  unfold Reader.many
  simp only [hfound, hfound', Option.map_some]

/-! ### characters -/

theorem reads_word (w rest : List Char) : Reads (word w) (w ++ rest) rest fun _ => True := by
  intro o
  refine ⟨(), o + w.length, ?_, trivial⟩
  unfold word
  rw [if_pos (by simp), List.drop_left]

theorem refuses_word {w : List Char} (h : w.isPrefixOf text = false) : Refuses (word w) text := by
  intro o
  unfold word
  rw [h]
  rfl

theorem refuses_char {c d : Char} (h : d ≠ c) (rest : List Char) : Refuses (word [c]) (d :: rest) :=
  refuses_word (Bool.eq_false_iff.2 fun hprefix => by simp [Ne.symm h] at hprefix)

/-- a run of characters up to one that does not belong to it -/
theorem reads_run1 {test : Char → Bool} {cs : List Char} (hne : cs ≠ []) (hcs : ∀ c ∈ cs, test c = true)
    (hrest : ∀ c, rest.head? = some c → test c = false) : Reads (run1 test) (cs ++ rest) rest (· = cs) := by
  have htaken : (cs ++ rest).takeWhile test = cs := by
    rw [List.takeWhile_append_of_pos hcs]
    cases rest with
    | nil => simp
    | cons c rest => simp [hrest c rfl]
  intro o
  refine ⟨cs, o + cs.length, ?_, rfl⟩
  unfold run1 run
  simp only [htaken, List.drop_left]
  cases cs with
  | nil => exact absurd rfl hne
  | cons c cs => rfl

/-- a blank is skipped -/
theorem skipLength_blank (text : List Char) : skipLength (' ' :: text) = skipLength text + 1 := by
  have hblanks : (' ' :: text).takeWhile isBlank = ' ' :: text.takeWhile isBlank :=
    List.takeWhile_cons_of_pos rfl
  unfold skipLength
  simp only [hblanks, List.length_cons, List.drop_succ_cons]
  omega

theorem skipLength_blanks (k : Nat) (text : List Char) :
    skipLength (List.replicate k ' ' ++ text) = k + skipLength text := by
  induction k with
  | zero => exact (Nat.zero_add _).symm
  | succ k ih =>
    rw [List.replicate_succ, List.cons_append, skipLength_blank, ih]
    omega

/-- blanks in front of a part of a rule -/
theorem Reads.next_blanks {k : Nat} (hsolid : skipLength text = 0) (h : Reads p text rest P) :
    Reads (Reader.next p) (List.replicate k ' ' ++ text) rest P := by
  refine .next ?_
  rw [skipLength_blanks, hsolid]
  simpa using h

end Reader

open Reader

/-! ## words -/

/-- a text that the grammar reads as one operand -/
structure IsWord (w : String) : Prop where
  ne : w.toList ≠ []
  whole : wordLength w.toList = w.toList.length

instance (w : String) : Decidable (IsWord w) :=
  decidable_of_iff (w.toList ≠ [] ∧ wordLength w.toList = w.toList.length)
    ⟨fun h => ⟨h.1, h.2⟩, fun h => ⟨h.ne, h.whole⟩⟩

section
variable {cs rest : List Char} {c : Char} {w : String} {ws : List String}

/-- a character at which a word cannot go on -/
def EndsWord (c : Char) : Prop := isBlank c = true ∨ isLineEnd c = true

theorem EndsWord.cases (h : EndsWord c) : c = ' ' ∨ c = '\t' ∨ c = '\n' ∨ c = '\r' := by
  unfold EndsWord at h
  simpa [isBlank, isLineEnd, or_assoc] using h

theorem EndsWord.not_opcode (h : EndsWord c) : isOpcodeChar c = false := by
  rcases h.cases with rfl | rfl | rfl | rfl <;> decide

theorem EndsWord.ne_slash (h : EndsWord c) : c ≠ '/' := by
  rcases h.cases with rfl | rfl | rfl | rfl <;> decide

theorem wordLength_eq (c : Char) (rest : List Char) : wordLength (c :: rest) =
    if isBlank c || isLineEnd c || c == '"' || c == '#' then 0
    else if c == '/' && rest.head? == some '/' then 0 else 1 + wordLength rest := rfl

/-- the first character of a word -/
theorem wordLength_cons (h : wordLength (c :: rest) ≠ 0) :
    ¬ EndsWord c ∧ c ≠ '"' ∧ c ≠ '#' ∧ ¬ (c = '/' ∧ rest.head? = some '/') ∧
      wordLength (c :: rest) = wordLength rest + 1 := by
  rw [wordLength_eq] at h ⊢
  split at h
  · exact absurd rfl h
  · rename_i hplain
    split at h
    · exact absurd rfl h
    · rename_i hslash
      rw [if_neg hplain, if_neg hslash, Nat.add_comm]
      simp only [Bool.or_eq_true, beq_iff_eq, not_or] at hplain
      simp only [Bool.and_eq_true, beq_iff_eq] at hslash
      exact ⟨fun h => h.elim hplain.1.1.1 hplain.1.1.2, hplain.1.2, hplain.2, hslash, rfl⟩

/-- a word ends at a blank and at the end of the line -/
theorem wordLength_append (h : wordLength cs = cs.length) (hc : EndsWord c) :
    wordLength (cs ++ c :: rest) = cs.length := by
  induction cs with
  | nil =>
    unfold wordLength
    rcases hc with hc | hc <;> simp [hc]
  | cons d cs ih =>
    obtain ⟨hends, hquote, hsharp, hslash, hlen⟩ := wordLength_cons (by rw [h]; exact Nat.succ_ne_zero _)
    have htail := ih (by rw [hlen] at h; exact Nat.succ.inj h)
    have hslash' : (d == '/' && (cs ++ c :: rest).head? == some '/') = false := by
      refine Bool.eq_false_iff.2 fun h => ?_
      obtain ⟨hd, hhead⟩ : d = '/' ∧ (cs ++ c :: rest).head? = some '/' := by simpa using h
      cases cs with
      | nil => exact hc.ne_slash (Option.some.inj hhead)
      | cons e cs => exact hslash ⟨hd, hhead⟩
    have hplain : (isBlank d || isLineEnd d || d == '"' || d == '#') = false := by
      unfold EndsWord at hends
      simpa [hquote, hsharp] using hends
    rw [List.cons_append, wordLength_eq, hplain, hslash', htail, List.length_cons, Nat.add_comm]
    rfl

/-- nothing is skipped in front of a word -/
theorem skipLength_word (h : wordLength cs ≠ 0) : skipLength cs = 0 := by
  cases cs with
  | nil => rfl
  | cons c rest =>
    obtain ⟨hends, -, hsharp, hslash, -⟩ := wordLength_cons h
    have hblank : isBlank c = false := by simpa using fun h => hends (.inl h)
    have hcomment : commentLength (c :: rest) = 0 := by
      unfold commentLength
      split
      · rename_i heq
        exact absurd (List.cons.inj heq).1 hsharp
      · rename_i heq
        obtain ⟨hc, hrest⟩ := List.cons.inj heq
        exact absurd ⟨hc, by rw [hrest]; rfl⟩ hslash
      · rfl
    have hblanks : (c :: rest).takeWhile isBlank = [] := List.takeWhile_cons_of_neg (by simp [hblank])
    unfold skipLength
    simp only [hblanks, List.length_nil, List.drop_zero, hcomment]

/-- a character that stands anywhere in words -/
def isPlain (c : Char) : Bool := !(isBlank c || isLineEnd c || c == '"' || c == '#' || c == '/')

theorem isPlain_of_opcode (hc : isOpcodeChar c = true) : isPlain c = true := by
  unfold isPlain
  rw [Bool.not_eq_true']
  refine Bool.eq_false_iff.2 fun h => ?_
  simp only [Bool.or_eq_true, beq_iff_eq, or_assoc] at h
  rcases h with h | h | rfl | rfl | rfl
  · exact absurd hc (by simp [EndsWord.not_opcode (.inl h)])
  · exact absurd hc (by simp [EndsWord.not_opcode (.inr h)])
  · exact absurd hc (by decide)
  · exact absurd hc (by decide)
  · exact absurd hc (by decide)

theorem wordLength_plain (hcs : ∀ c ∈ cs, isPlain c = true) (rest : List Char) :
    wordLength (cs ++ rest) = cs.length + wordLength rest := by
  induction cs with
  | nil => exact (Nat.zero_add _).symm
  | cons c cs ih =>
    have hc := hcs c List.mem_cons_self
    unfold isPlain at hc
    rw [Bool.not_eq_true', Bool.or_eq_false_iff] at hc
    rw [List.cons_append, wordLength_eq, hc.1, hc.2, ih fun d hd => hcs d (List.mem_cons_of_mem _ hd),
      List.length_cons]
    simp only [Bool.false_and, Bool.false_eq_true, if_false]
    omega

theorem skipLength_plain (hc : isPlain c = true) (rest : List Char) : skipLength (c :: rest) = 0 := by
  have hlength : wordLength ([c] ++ rest) = [c].length + wordLength rest := wordLength_plain (by simpa using hc) rest
  exact skipLength_word (by rw [List.singleton_append] at hlength; rw [hlength]; simp)

/-- a text of plain characters is a word -/
theorem IsWord.ofPlain (hne : w.toList ≠ []) (hw : w.toList.all isPlain = true) : IsWord w :=
  ⟨hne, by
    have hlength := wordLength_plain (List.all_eq_true.1 hw) []
    rwa [List.append_nil] at hlength⟩

/-- nothing is skipped in front of an opcode -/
theorem skipLength_opcode (hne : cs ≠ []) (hcs : ∀ c ∈ cs, isOpcodeChar c = true) :
    skipLength (cs ++ rest) = 0 := by
  refine skipLength_word ?_
  rw [wordLength_plain fun c hc => isPlain_of_opcode (hcs c hc)]
  have hpos := List.length_pos_iff.2 hne
  omega

/-- the head of a text that goes on with a word -/
theorem IsWord.wordLength (h : IsWord w) (hc : EndsWord c) (rest : List Char) :
    wordLength (w.toList ++ c :: rest) = w.toList.length :=
  wordLength_append h.whole hc

theorem IsWord.pos (h : IsWord w) (hc : EndsWord c) (rest : List Char) :
    Assembly.wordLength (w.toList ++ c :: rest) ≠ 0 := by
  rw [h.wordLength hc]
  exact fun heq => h.ne (List.length_eq_zero_iff.1 heq)

/-- **A word** is read as an operand -/
theorem reads_operand (h : IsWord w) (hc : EndsWord c) (rest : List Char) :
    Reads operand (w.toList ++ c :: rest) (c :: rest) (· = .word w) := by
  have hpos := h.pos hc rest
  have hliteral : Refuses literalOperand (w.toList ++ c :: rest) := by
    refine Refuses.rule fun o => ?_
    obtain ⟨d, cs, hw⟩ := List.exists_cons_of_ne_nil h.ne
    rw [hw, List.cons_append] at hpos ⊢
    obtain ⟨-, hquote, -⟩ := wordLength_cons hpos
    split
    · rename_i heq
      exact absurd (List.cons.inj heq).1 hquote
    · rfl
  refine hliteral.orElse (Reads.rule fun o => ?_)
  have hlen := h.wordLength hc rest
  refine ⟨_, o + w.toList.length, ?_, rfl⟩
  dsimp only
  split
  · rename_i hzero
    exact absurd hzero hpos
  · rw [hlen, List.take_left, List.drop_left, String.ofList_toList]

/-- at the end of the line there is no operand -/
theorem refuses_operand (rest : List Char) : Refuses operand ('\n' :: rest) :=
  Refuses.orElse_refuses (Refuses.rule fun _ => rfl) (Refuses.rule fun _ => rfl)

/-! ## directives -/

/-- words with a blank before each of them -/
def spaced (ws : List String) : List Char := ws.flatMap fun w => ' ' :: w.toList

theorem length_le_spaced (ws : List String) : ws.length ≤ (spaced ws).length := by
  induction ws with
  | nil => exact Nat.le_refl _
  | cons w ws ih =>
    simp only [spaced, List.flatMap_cons, List.length_append, List.length_cons] at ih ⊢
    omega

/-- words are followed by a blank or by the end of the line -/
theorem spaced_line (ws : List String) (rest : List Char) :
    ∃ c cs, spaced ws ++ '\n' :: rest = c :: cs ∧ EndsWord c := by
  cases ws with
  | nil => exact ⟨_, _, rfl, .inr rfl⟩
  | cons w ws => exact ⟨_, _, rfl, .inl rfl⟩

/-- the first of several words, and what follows it -/
theorem spaced_cons (hw : IsWord w) (ws : List String) (rest : List Char) :
    ∃ c cs, spaced ws ++ '\n' :: rest = c :: cs ∧ EndsWord c ∧
      (spaced (w :: ws) ++ '\n' :: rest).drop (skipLength (spaced (w :: ws) ++ '\n' :: rest)) =
        w.toList ++ c :: cs := by
  obtain ⟨c, cs, hcs, hc⟩ := spaced_line ws rest
  refine ⟨c, cs, hcs, hc, ?_⟩
  have htext : spaced (w :: ws) ++ '\n' :: rest = ' ' :: (w.toList ++ c :: cs) := by
    rw [← hcs]
    simp [spaced]
  rw [htext, skipLength_blank, skipLength_word (hw.pos hc cs), List.drop_succ_cons, List.drop_zero]

/-- further operands of a line -/
theorem reads_more (h : ∀ w ∈ ws, IsWord w) (rest : List Char) (n : Nat) (hn : ws.length ≤ n) :
    Reads (moreFrom operand n) (spaced ws ++ '\n' :: rest) ('\n' :: rest) (· = ws.map .word) := by
  induction ws generalizing n with
  | nil => exact reads_more_nil (Refuses.next (refuses_operand rest)) n
  | cons w ws ih =>
    obtain ⟨n, rfl⟩ : ∃ k, n = k + 1 := ⟨n - 1, by rw [List.length_cons] at hn; omega⟩
    have hw : IsWord w := h w List.mem_cons_self
    obtain ⟨c, cs, hcs, hc, hskipped⟩ := spaced_cons hw ws rest
    have hfirst : Reads (next operand) (spaced (w :: ws) ++ '\n' :: rest) (c :: cs) (· = .word w) :=
      Reads.next (hskipped ▸ reads_operand hw hc cs)
    have hmore := ih (fun v hv => h v (List.mem_cons_of_mem _ hv)) n (Nat.le_of_succ_le_succ hn)
    rw [hcs] at hmore
    refine (hfirst.more hmore).mono ?_
    rintro _ ⟨_, _, rfl, rfl, rfl⟩
    rfl

/-- **The operands** of a line -/
theorem reads_operands (h : ∀ w ∈ ws, IsWord w) (rest : List Char) :
    Reads (next (many operand)) (spaced ws ++ '\n' :: rest) ('\n' :: rest) (· = ws.map .word) := by
  cases ws with
  | nil => exact Reads.next (reads_many_nil (refuses_operand rest))
  | cons w ws =>
    have hw : IsWord w := h w List.mem_cons_self
    obtain ⟨c, cs, hcs, hc, hskipped⟩ := spaced_cons hw ws rest
    have hcount : ws.length ≤ (c :: cs).length + 1 := by
      have hlen := congrArg List.length hcs
      have hle := length_le_spaced ws
      rw [List.length_append] at hlen
      omega
    have hmore := reads_more (fun v hv => h v (List.mem_cons_of_mem _ hv)) rest _ hcount
    rw [hcs] at hmore
    refine Reads.next ?_
    rw [hskipped]
    refine ((reads_operand hw hc cs).many hmore).mono ?_
    rintro _ ⟨_, _, rfl, rfl, rfl⟩
    rfl

/-! ## lines -/

/-- a token is a run of its characters -/
theorem reads_token {test : Char → Bool} (hne : cs ≠ []) (hcs : ∀ c ∈ cs, test c = true)
    (hrest : ∀ c, rest.head? = some c → test c = false) :
    Reads (rule do return String.ofList (← run1 test)) (cs ++ rest) rest (· = String.ofList cs) :=
  .rule (.bind (reads_run1 hne hcs hrest) fun _ ha => (reads_pure _ _).mono fun _ hb => by rw [hb, ha])

/-- no token starts with another character -/
theorem refuses_token {test : Char → Bool} (hc : test c = false) :
    Refuses (rule do return String.ofList (← run1 test)) (c :: rest) := by
  refine .rule (.bind fun o => ?_)
  have hnone : (c :: rest).takeWhile test = [] := List.takeWhile_cons_of_neg (by simp [hc])
  unfold run1 run
  simp only [hnone]

theorem isNameChar_of_opcode (h : isOpcodeChar c = true) : isNameChar c = true := by
  unfold isOpcodeChar at h
  unfold isNameChar
  rcases Bool.or_eq_true_iff.1 h with h | h <;> simp [h]

/-- no name goes on at a blank or at the end of the line -/
theorem EndsWord.not_name (h : EndsWord c) : isNameChar c = false := by
  rcases h.cases with rfl | rfl | rfl | rfl <;> decide

/-- behind words there is no colon, nor before them if the first one does not start with it -/
theorem refuses_colon (h : ∀ w ∈ ws, IsWord w) (hcolon : ∀ w, ws.head? = some w → w.toList.head? ≠ some ':')
    (rest : List Char) : Refuses (next (word [':'])) (spaced ws ++ '\n' :: rest) := by
  cases ws with
  | nil => exact Refuses.next fun _ => rfl
  | cons w ws =>
    have hw : IsWord w := h w List.mem_cons_self
    obtain ⟨c, cs, -, -, hskipped⟩ := spaced_cons hw ws rest
    refine Refuses.next ?_
    rw [hskipped]
    obtain ⟨d, ds, hd⟩ := List.exists_cons_of_ne_nil hw.ne
    have hne : d ≠ ':' := fun heq => hcolon w rfl (by rw [hd, heq]; rfl)
    rw [hd]
    exact refuses_char hne _

/-- a name without a colon behind it does not define a label -/
theorem refuses_labelLine (hne : cs ≠ []) (hcs : ∀ c ∈ cs, isNameChar c = true)
    (hstop : ∀ c, rest.head? = some c → isNameChar c = false) (hcolon : Refuses (next (word [':'])) rest) :
    Refuses labelLine (cs ++ rest) :=
  .rule (Reads.refuses (reads_offset _) fun _ _ => Reads.refuses (reads_token hne hcs hstop) fun _ _ => .bind hcolon)

/-- no line starts with a character that stands in no name -/
theorem refuses_bodyLine (hc : isNameChar c = false) : Refuses bodyLine (c :: rest) := by
  have hopcode : isOpcodeChar c = false := Bool.eq_false_iff.2 fun h => by simp [isNameChar_of_opcode h] at hc
  have hdot : c ≠ '.' := by
    rintro rfl
    exact absurd hc (by decide)
  exact .orElse_refuses (.rule (Reads.refuses (reads_offset _) fun _ _ => .bind (refuses_token hc)))
    (.orElse_refuses (.rule (Reads.refuses (reads_offset _) fun _ _ => .bind (refuses_char hdot rest)))
      (.rule (Reads.refuses (reads_offset _) fun _ _ => .bind (refuses_token hopcode))))

/-- **The line of a label**: its name and a colon, with blanks between them or without -/
theorem reads_label {n : String} (hne : n.toList ≠ []) (hn : n.toList.all isNameChar = true) (k : Nat) :
    Reads bodyLine (n.toList ++ (List.replicate k ' ' ++ ':' :: rest)) rest fun l => ∃ o, l = .label o n := by
  have hstop : ∀ c, (List.replicate k ' ' ++ ':' :: rest).head? = some c → isNameChar c = false := by
    intro c hc
    cases k with
    | zero => exact Option.some.inj hc ▸ (by decide)
    | succ k => exact Option.some.inj hc ▸ (by decide)
  have hname : Reads name _ _ (· = n) := (reads_token hne (List.all_eq_true.1 hn) hstop).mono fun _ ha => by
    rw [ha, String.ofList_toList]
  have hcolon : Reads (next (word [':'])) (List.replicate k ' ' ++ ':' :: rest) rest fun _ => True :=
    .next_blanks rfl (reads_word [':'] rest)
  refine .orElse (.rule (.bind (reads_offset _) fun o _ => .bind hname fun _ ha => .bind hcolon fun _ _ => ?_))
  rw [ha]
  exact (reads_pure _ _).mono fun _ hl => ⟨o, hl⟩

/-- **The line of an instruction**: its opcode, then something that is read as operands and starts with no colon -/
theorem reads_insn {op : String} {os : List Operand} (hne : op.toList ≠ [])
    (hop : op.toList.all isOpcodeChar = true) (hc : EndsWord c) (hcolon : Refuses (next (word [':'])) (c :: cs))
    (hoperands : Reads (next (many operand)) (c :: cs) rest (· = os)) :
    Reads bodyLine (op.toList ++ c :: cs) rest fun l => ∃ o, l = .insn ⟨o, op, os⟩ := by
  have hchars := List.all_eq_true.1 hop
  have hends : ∀ d, (c :: cs).head? = some d → EndsWord d := fun d hd => Option.some.inj hd ▸ hc
  have hopcode : Reads opcode (op.toList ++ c :: cs) (c :: cs) (· = op) :=
    (reads_token hne hchars fun d hd => (hends d hd).not_opcode).mono fun _ ha => by rw [ha, String.ofList_toList]
  have hlabel : Refuses labelLine (op.toList ++ c :: cs) :=
    refuses_labelLine hne (fun d hd => isNameChar_of_opcode (hchars d hd))
      (fun d hd => (hends d hd).not_name) hcolon
  have hdirective : Refuses directiveLine (op.toList ++ c :: cs) := by
    obtain ⟨d, ds, hd⟩ := List.exists_cons_of_ne_nil hne
    have hdot : d ≠ '.' := by
      rintro rfl
      exact absurd (hchars '.' (hd ▸ List.mem_cons_self)) (by decide)
    rw [hd]
    exact .rule (Reads.refuses (reads_offset _) fun _ _ => .bind (refuses_char hdot _))
  refine hlabel.orElse (hdirective.orElse (.rule (.bind (reads_offset _) fun o _ => .bind hopcode fun _ ha =>
    .bind hoperands fun _ hb => ?_)))
  rw [ha, hb]
  exact (reads_pure _ _).mono fun _ hl => ⟨o, hl⟩

end

namespace Reader

variable {α : Type} {p : Reader α} {text mid rest behind : List Char} {P : α → Prop} {Ps : List (α → Prop)} {k : Nat}

theorem Reads.optional (h : Reads p text rest P) :
    Reads (Reader.optional p) text rest fun o => ∃ a, o = some a ∧ P a := by
  intro o
  obtain ⟨a, o', hfound, ha⟩ := h o
  refine ⟨some a, o', ?_, a, rfl, ha⟩
  unfold Reader.optional
  simp only [hfound]

theorem Refuses.optional (h : Refuses p text) : Reads (Reader.optional p) text text (· = none) := by
  intro o
  refine ⟨none, o, ?_, rfl⟩
  unfold Reader.optional
  simp only [h o]

theorem drop_blanks (hsolid : skipLength text = 0) :
    (List.replicate k ' ' ++ text).drop (skipLength (List.replicate k ' ' ++ text)) = text := by
  rw [skipLength_blanks, hsolid]
  simp

theorem Refuses.next_blanks (hsolid : skipLength text = 0) (h : Refuses p text) :
    Refuses (Reader.next p) (List.replicate k ' ' ++ text) :=
  .next ((drop_blanks hsolid).symm ▸ h)

/-! ## sequences -/

/-- parts one after another, with blanks in front of each of them, up to a place where there is none -/
inductive Sequence (p : Reader α) : List Char → List Char → List (α → Prop) → Prop
  | nil {text : List Char} (h : Refuses p (text.drop (skipLength text))) : Sequence p text text []
  | cons {text mid rest : List Char} {P : α → Prop} {Ps : List (α → Prop)}
    (first : Reads p (text.drop (skipLength text)) mid P) (shorter : mid.length < text.length)
    (more : Sequence p mid rest Ps) : Sequence p text rest (P :: Ps)

/-- no part, behind blanks -/
theorem Sequence.last (hsolid : skipLength text = 0) (h : Refuses p text) :
    Sequence p (List.replicate k ' ' ++ text) (List.replicate k ' ' ++ text) [] :=
  .nil ((drop_blanks hsolid).symm ▸ h)

/-- a part behind blanks, and what follows it -/
theorem Sequence.part (hsolid : skipLength text = 0) (first : Reads p text mid P) (shorter : mid.length < text.length)
    (more : Sequence p mid rest Ps) : Sequence p (List.replicate k ' ' ++ text) rest (P :: Ps) :=
  .cons ((drop_blanks hsolid).symm ▸ first) (by rw [List.length_append]; omega) more

/-- a sequence has no more parts than characters -/
theorem Sequence.moreFrom (h : Sequence p text rest Ps) (n : Nat) (hn : text.length ≤ n) :
    Reads (moreFrom p n) text rest (List.Forall₂ (fun P a => P a) Ps) := by
  -- each part leaves a shorter text, so the steps last
  induction h generalizing n with
  | nil h => exact (reads_more_nil (.next h) n).mono fun _ has => has ▸ .nil
  | cons first shorter _ ih =>
    obtain ⟨n, rfl⟩ : ∃ m, n = m + 1 := ⟨n - 1, by omega⟩
    refine (Reads.more (.next first) (ih n (by omega))).mono ?_
    rintro _ ⟨a, as, rfl, ha, has⟩
    exact .cons ha has

/-- a sequence with a part at least -/
theorem Sequence.many_cons (h : Sequence p text rest (P :: Ps)) :
    Reads (Reader.next (Reader.many p)) text rest (List.Forall₂ (fun P a => P a) (P :: Ps)) := by
  cases h with
  | cons first shorter more =>
    refine .next ((Reads.many first (more.moreFrom _ (by omega))).mono ?_)
    rintro _ ⟨a, as, rfl, ha, has⟩
    exact .cons ha has

/-- **A sequence** is read as a whole; blanks behind it may be left -/
theorem Sequence.many (h : Sequence p text (List.replicate k ' ' ++ behind) Ps) (hsolid : skipLength behind = 0) :
    ∃ j, Reads (Reader.next (Reader.many p)) text (List.replicate j ' ' ++ behind)
      (List.Forall₂ (fun P a => P a) Ps) := by
  cases Ps with
  | nil =>
    cases h with
    | nil h =>
      rw [drop_blanks hsolid] at h
      exact ⟨0, .next_blanks hsolid ((reads_many_nil h).mono fun _ has => has ▸ .nil)⟩
  | cons P Ps => exact ⟨k, h.many_cons⟩

theorem Sequence.many1 (h : Sequence p text rest (P :: Ps)) :
    Reads (Reader.next (Reader.many1 p)) text rest (List.Forall₂ (fun P a => P a) (P :: Ps)) := by
  intro o
  obtain ⟨as, o', hfound, has⟩ := h.many_cons o
  refine ⟨as, o', ?_, has⟩
  show (Reader.many1 p _).found = _
  change (Reader.many p _).found = _ at hfound
  unfold Reader.many1
  cases has
  simp only [hfound]

end Reader

open Reader

/-! ## lines -/

section
variable {α : Type} {p : Reader α} {text rest : List Char} {P : α → Prop} {Ps : List (Option α → Prop)} {k : Nat}

theorem reads_lineEnd (rest : List Char) : Reads (next lineEnd) ('\n' :: rest) rest fun _ => True :=
  .next fun o => ⟨(), o + 1, rfl, trivial⟩

/-- a line with its end -/
theorem reads_terminated (h : Reads p text ('\n' :: rest) P) :
    Reads (terminated p) text rest fun o => ∃ a, o = some a ∧ P a :=
  .bind h.optional fun _ ho => .bind (reads_lineEnd rest) fun _ _ => (reads_pure _ rest).mono fun _ heq => heq ▸ ho

/-- an empty line -/
theorem reads_emptyLine (h : Refuses p ('\n' :: rest)) : Reads (terminated p) ('\n' :: rest) rest (· = none) :=
  .bind h.optional fun _ ho => .bind (reads_lineEnd rest) fun _ _ => (reads_pure _ rest).mono fun _ heq => heq ▸ ho

theorem refuses_terminated (h : Refuses p text) (hend : Refuses (next lineEnd) text) : Refuses (terminated p) text :=
  Reads.refuses h.optional fun _ _ => .bind hend

/-- a block is read as its lines that are not empty -/
theorem reads_block (h : Sequence (terminated p) text (List.replicate k ' ' ++ '\x7d' :: rest) Ps) :
    Reads (block p) ('\x7b' :: '\n' :: text) rest fun as =>
      ∃ os, List.Forall₂ (fun P o => P o) Ps os ∧ as = os.filterMap id := by
  obtain ⟨j, hlines⟩ := h.many rfl
  exact .bind (reads_word ['\x7b'] _) fun _ _ => .bind (reads_lineEnd text) fun _ _ => .bind hlines fun os hos =>
    .bind (.next_blanks rfl (reads_word ['\x7d'] rest)) fun _ _ => (reads_pure _ rest).mono fun _ heq => ⟨os, hos, heq⟩

end

/-! ## printed blocks -/

/-- a line of a text with blanks in front of it -/
def indented (n : Nat) (cs : List Char) : List Char := List.replicate n ' ' ++ (cs ++ ['\n'])

section
variable {α ι : Type} {p : Reader α} {Q : ι → α → Prop} {indent : ι → Nat} {text : ι → List Char}
  {lines : List (Option ι)} {os : List (Option α)} {rest : List Char}

/-- a line that is printed, or an empty one -/
def lineOf (indent : ι → Nat) (text : ι → List Char) : Option ι → List Char
  | none => ['\n']
  | some x => indented (indent x) (text x)

/-- what a line is read as -/
def ReadsLine (Q : ι → α → Prop) : Option ι → Option α → Prop
  | none, o => o = none
  | some x, o => ∃ a, o = some a ∧ Q x a

theorem forall₂_readsLine (h : List.Forall₂ (fun P o => P o) (lines.map (ReadsLine Q)) os) :
    List.Forall₂ Q (lines.filterMap id) (os.filterMap id) := by
  rw [List.forall₂_map_left_iff] at h
  induction h with
  | nil => exact .nil
  | @cons line o lines os hline _ ih =>
    cases line with
    | none =>
      obtain rfl : o = none := hline
      exact ih
    | some x =>
      obtain ⟨a, rfl, ha⟩ := hline
      exact .cons ha ih

theorem sequence_lines (k : Nat) (hsolid : ∀ x rest, skipLength (text x ++ '\n' :: rest) = 0)
    (hread : ∀ x, some x ∈ lines → ∀ rest, Reads p (text x ++ '\n' :: rest) ('\n' :: rest) (Q x))
    (hempty : ∀ rest, Refuses p ('\n' :: rest)) (hend : Refuses p ('\x7d' :: rest)) :
    Sequence (terminated p) (lines.flatMap (lineOf indent text) ++ (List.replicate k ' ' ++ '\x7d' :: rest))
      (List.replicate k ' ' ++ '\x7d' :: rest) (lines.map (ReadsLine Q)) := by
  induction lines with
  | nil => exact .last rfl (refuses_terminated hend (.next fun _ => rfl))
  | cons line lines ih =>
    have hmore := ih fun x hx => hread x (List.mem_cons_of_mem _ hx)
    cases line with
    | none => exact .part (k := 0) rfl (reads_emptyLine (hempty _)) (Nat.lt_succ_self _) hmore
    | some x =>
      have htext : ((some x :: lines).flatMap (lineOf indent text) ++ (List.replicate k ' ' ++ '\x7d' :: rest)) =
          List.replicate (indent x) ' ' ++ (text x ++ '\n' :: (lines.flatMap (lineOf indent text) ++
            (List.replicate k ' ' ++ '\x7d' :: rest))) := by
        simp [lineOf, indented]
      rw [htext]
      exact .part (hsolid x _) (reads_terminated (hread x List.mem_cons_self _)) (by simp; omega) hmore

/-- **A printed block** is read as what its lines were printed from -/
theorem reads_printedBlock (k : Nat) (hsolid : ∀ x rest, skipLength (text x ++ '\n' :: rest) = 0)
    (hread : ∀ x, some x ∈ lines → ∀ rest, Reads p (text x ++ '\n' :: rest) ('\n' :: rest) (Q x))
    (hempty : ∀ rest, Refuses p ('\n' :: rest)) (hend : Refuses p ('\x7d' :: rest)) :
    Reads (block p) ('\x7b' :: '\n' :: (lines.flatMap (lineOf indent text) ++ (List.replicate k ' ' ++ '\x7d' :: rest)))
      rest (List.Forall₂ Q (lines.filterMap id)) :=
  (reads_block (sequence_lines k hsolid hread hempty hend)).mono fun _ ⟨_, hos, heq⟩ => heq ▸ forall₂_readsLine hos

end
end Resumable.Assembly
