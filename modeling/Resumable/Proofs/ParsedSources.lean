import Resumable.Proofs.PrintedClasses

/-!
# What stands in a source

What stands in the tree of a source can be read again: names are names, the operands of lines are words, no operand
of an instruction starts with a colon in front of all others, and what is not marked as static is not called so.  Every
line of a method stands at the head of a line of the text.

* `skipLength_drop`, `IsWord.ofTaken`, `IsName.ofTaken` : what is skipped, and what is taken for words and names;
* `Reader.Leads`, `Reader.Yields` : what holds of all that a reader finds, and of what it leaves;
* `bodyLine_read`, `BodyLine.StandsIn` : lines of methods, and where they stand;
* `Source.parse_read`, `Source.parse_desc` : what stands in a source.
-/

namespace Resumable.Assembly

open Reader

/-! ## what is skipped -/

section
variable {cs text : List Char}

theorem drop_takeWhile (test : Char → Bool) (cs : List Char) :
    cs.drop (cs.takeWhile test).length = cs.dropWhile test := by
  have hdrop : (cs.takeWhile test ++ cs.dropWhile test).drop (cs.takeWhile test).length = cs.dropWhile test :=
    List.drop_left
  rwa [List.takeWhile_append_dropWhile] at hdrop

theorem test_head_dropWhile {test : Char → Bool} {c : Char} (h : (cs.dropWhile test).head? = some c) :
    test c = false := by
  have hnot := List.head?_dropWhile_not test cs
  rwa [h] at hnot

/-- a comment ends with the line -/
theorem isLineEnd_head_drop (h : commentLength cs ≠ 0) {c : Char}
    (hc : (cs.drop (commentLength cs)).head? = some c) : isLineEnd c = true := by
  have hend {r : List Char} (hc : (r.drop (r.takeWhile fun c => !isLineEnd c).length).head? = some c) :
      isLineEnd c = true := by
    rw [drop_takeWhile] at hc
    simpa using test_head_dropWhile hc
  unfold commentLength at h hc
  split at hc
  · rw [Nat.add_comm] at hc
    exact hend hc
  · rw [Nat.add_comm] at hc
    exact hend hc
  · simp at h

theorem skipLength_of_lineEnd (h : ∀ c, cs.head? = some c → isLineEnd c = true) : skipLength cs = 0 := by
  cases cs with
  | nil => rfl
  | cons c cs =>
    have hcases : c = '\n' ∨ c = '\r' := by simpa [isLineEnd] using h c rfl
    rcases hcases with rfl | rfl <;> exact skipLength_cons (by decide) rfl

theorem drop_skipLength (text : List Char) : text.drop (skipLength text) =
    (text.dropWhile isBlank).drop (commentLength (text.dropWhile isBlank)) := by
  unfold skipLength
  dsimp only
  rw [← List.drop_drop, drop_takeWhile]

/-- **Behind blanks and a comment** nothing is skipped -/
theorem skipLength_drop (text : List Char) : skipLength (text.drop (skipLength text)) = 0 := by
  rw [drop_skipLength]
  by_cases hcomment : commentLength (text.dropWhile isBlank) = 0
  · rw [hcomment, List.drop_zero]
    cases hrest : text.dropWhile isBlank with
    | nil => rfl
    | cons c cs =>
      have hblank : isBlank c = false :=
        test_head_dropWhile (show (text.dropWhile isBlank).head? = some c by rw [hrest]; rfl)
      exact skipLength_cons hblank (hrest ▸ hcomment)
  · exact skipLength_of_lineEnd fun c hc => isLineEnd_head_drop hcomment hc

/-- in front of what does not end the line there are only blanks -/
theorem drop_skipLength_of_head {c : Char} (hc : (text.drop (skipLength text)).head? = some c)
    (hend : isLineEnd c = false) : text.drop (skipLength text) = text.dropWhile isBlank := by
  rw [drop_skipLength] at hc ⊢
  by_cases hcomment : commentLength (text.dropWhile isBlank) = 0
  · rw [hcomment, List.drop_zero]
  · have hline := isLineEnd_head_drop hcomment hc
    rw [hend] at hline
    exact absurd hline (by decide)

/-! ## what is taken -/

theorem wordLength_le (cs : List Char) : wordLength cs ≤ cs.length := by
  induction cs with
  | nil => exact Nat.le_refl _
  | cons c cs ih =>
    by_cases h : wordLength (c :: cs) = 0
    · rw [h]
      exact Nat.zero_le _
    · obtain ⟨-, -, -, -, hlen⟩ := wordLength_cons h
      rw [hlen]
      exact Nat.succ_le_succ ih

theorem wordLength_take (cs : List Char) : wordLength (cs.take (wordLength cs)) = wordLength cs := by
  induction cs with
  | nil => rfl
  | cons c cs ih =>
    by_cases h : wordLength (c :: cs) = 0
    · rw [h]
      rfl
    · obtain ⟨hends, hquote, hsharp, hslash, hlen⟩ := wordLength_cons h
      have hplain : (isBlank c || isLineEnd c || c == '"' || c == '#') = false := by
        unfold EndsWord at hends
        simpa [hquote, hsharp] using hends
      have hslash' : (c == '/' && (cs.take (wordLength cs)).head? == some '/') = false := by
        refine Bool.eq_false_iff.2 fun heq => hslash ?_
        obtain ⟨hc, hhead⟩ : c = '/' ∧ (cs.take (wordLength cs)).head? = some '/' := by simpa using heq
        refine ⟨hc, ?_⟩
        rw [List.head?_take] at hhead
        split at hhead
        · exact absurd hhead (by simp)
        · exact hhead
      rw [hlen, List.take_succ_cons, wordLength_eq, hplain, hslash', ih, Nat.add_comm]
      rfl

/-- **What is taken for a word** is one -/
theorem IsWord.ofTaken (h : Assembly.wordLength cs ≠ 0) :
    IsWord (String.ofList (cs.take (Assembly.wordLength cs))) := by
  have hlen : (cs.take (Assembly.wordLength cs)).length = Assembly.wordLength cs :=
    List.length_take_of_le (wordLength_le cs)
  refine ⟨fun hnil => h ?_, ?_⟩
  · rw [String.toList_ofList] at hnil
    rw [← hlen, hnil]
    rfl
  · rw [String.toList_ofList, wordLength_take, hlen]

/-- the end of a word is one, if anything is left -/
theorem IsWord.ofAppend {a b : String} (h : IsWord (a ++ b)) (hb : b ≠ "") : IsWord b := by
  have hsuffix : ∀ as bs : List Char, Assembly.wordLength (as ++ bs) = (as ++ bs).length →
      Assembly.wordLength bs = bs.length := by
    intro as bs
    induction as with
    | nil => exact id
    | cons c as ih =>
      intro h
      obtain ⟨-, -, -, -, hlen⟩ := wordLength_cons (by rw [List.cons_append] at h; rw [h]; exact Nat.succ_ne_zero _)
      rw [List.cons_append, hlen] at h
      exact ih (Nat.succ.inj h)
  have hwhole := h.whole
  rw [String.toList_append] at hwhole
  exact ⟨fun hnil => hb (String.toList_inj.1 hnil), hsuffix _ _ hwhole⟩

/-- **What is taken for a name** is one, if it was not a comment -/
theorem IsName.ofTaken (hsolid : skipLength cs = 0) (hne : cs.takeWhile isNameChar ≠ []) :
    IsName (String.ofList (cs.takeWhile isNameChar)) := by
  refine ⟨by rwa [String.toList_ofList], ?_, fun hcomment => ?_⟩
  · rw [String.toList_ofList]
    exact List.all_takeWhile
  · rw [String.toList_ofList] at hcomment
    obtain ⟨more, rfl⟩ := hcomment.trans (List.takeWhile_prefix _)
    exact absurd hsolid (by simp [skipLength, isBlank, commentLength])

end

/-! ## what readers find -/

namespace Reader

variable {α β : Type} {p q : Reader α} {f : α → Reader β} {c d : Cursor} {a : α} {b : β}

/-- the place behind blanks and a comment -/
def skipped (c : Cursor) : Cursor := ⟨c.rest.drop (skipLength c.rest), c.offset + skipLength c.rest⟩

theorem skipLength_skipped (c : Cursor) : skipLength (skipped c).rest = 0 := skipLength_drop c.rest

theorem skipped_skipped (c : Cursor) : skipped (skipped c) = skipped c := by
  have hzero := skipLength_skipped c
  generalize skipped c = e at hzero
  simp [skipped, hzero]

theorem bind_found (h : ((p >>= f) c).found = some (b, d)) :
    ∃ a e, (p c).found = some (a, e) ∧ (f a e).found = some (b, d) := by
  change (Reader.bind p f c).found = some (b, d) at h
  unfold Reader.bind at h
  dsimp only at h
  split at h
  · exact nomatch h
  · rename_i a e ha
    exact ⟨a, e, ha, h⟩

theorem rule_found (h : (rule p c).found = some (a, d)) : (p c).found = some (a, d) := by
  unfold rule at h
  dsimp only at h
  split at h
  · rename_i r hr
    exact hr.trans h
  · exact nomatch h

theorem orElse_found (h : (Reader.orElse p q c).found = some (a, d)) :
    (p c).found = some (a, d) ∨ (p c).found = none ∧ (q c).found = some (a, d) := by
  unfold Reader.orElse at h
  dsimp only at h
  split at h
  · rename_i r hr
    exact .inl (hr.trans h)
  · rename_i hnone
    exact .inr ⟨hnone, h⟩

theorem optional_found {o : Option α} (h : (Reader.optional p c).found = some (o, d)) :
    (∃ a, o = some a ∧ (p c).found = some (a, d)) ∨ o = none ∧ d = c ∧ (p c).found = none := by
  unfold Reader.optional at h
  dsimp only at h
  split at h
  · rename_i a e ha
    obtain ⟨rfl, rfl⟩ := Prod.mk.inj (Option.some.inj h)
    exact .inl ⟨a, rfl, ha⟩
  · rename_i hnone
    obtain ⟨rfl, rfl⟩ := Prod.mk.inj (Option.some.inj h)
    exact .inr ⟨rfl, rfl, hnone⟩

/-- several values are a first one and further ones -/
theorem many_found {as : List α} (h : (many p c).found = some (as, d)) : as = [] ∧ d = c ∨ ∃ a e bs n,
    as = a :: bs ∧ (p c).found = some (a, e) ∧ (moreFrom p n e).found = some (bs, d) := by
  unfold many at h
  dsimp only at h
  split at h
  · obtain ⟨rfl, rfl⟩ := Prod.mk.inj (Option.some.inj h)
    exact .inl ⟨rfl, rfl⟩
  · rename_i a e ha
    obtain ⟨⟨bs, d'⟩, hbs, heq⟩ := Option.map_eq_some_iff.1 h
    obtain ⟨rfl, rfl⟩ := Prod.mk.inj heq
    exact .inr ⟨a, e, bs, _, rfl, ha, hbs⟩

/-- a token is the longest run of its characters -/
theorem token_found {test : Char → Bool} {n : String}
    (h : (rule (do return String.ofList (← run1 test)) c).found = some (n, d)) :
    n = String.ofList (c.rest.takeWhile test) ∧ c.rest.takeWhile test ≠ [] ∧ d.rest = c.rest.dropWhile test := by
  obtain ⟨cs, e, hrun, h⟩ := bind_found (rule_found h)
  obtain ⟨rfl, rfl⟩ := Prod.mk.inj (Option.some.inj h)
  unfold run1 run at hrun
  dsimp only at hrun
  split at hrun
  · exact nomatch hrun
  · rename_i hne
    obtain ⟨rfl, rfl⟩ := Prod.mk.inj (Option.some.inj hrun)
    exact ⟨rfl, fun hnil => hne _ (by rw [hnil]), drop_takeWhile test c.rest⟩

/-! ## what holds of it -/

section
variable {S T : List Char → Prop} {P : α → List Char → Prop} {Q : β → List Char → Prop}

/-- a reader that starts at a rest of one kind leads to a value and a rest of another kind -/
def Leads (S : List Char → Prop) (p : Reader α) (P : α → List Char → Prop) : Prop :=
  ∀ c a d, S c.rest → (p c).found = some (a, d) → P a d.rest

theorem leads_pure (h : ∀ r, S r → P a r) : Leads S (Pure.pure a) P := by
  intro c a' d hc hfound
  obtain ⟨rfl, rfl⟩ := Prod.mk.inj (Option.some.inj hfound)
  exact h _ hc

/-- a kind may say something that is not about the rest -/
theorem leads_and {A : Prop} (hp : A → Leads S p P) : Leads (fun r => A ∧ S r) p P :=
  fun c a d hc h => hp hc.1 c a d hc.2 h

theorem Leads.bind (hp : Leads S p P) (hf : ∀ a, Leads (P a) (f a) Q) : Leads S (p >>= f) Q := by
  intro c b d hc h
  obtain ⟨a, e, ha, h⟩ := bind_found h
  exact hf a e b d (hp c a e hc ha) h

theorem Leads.rule (hp : Leads S p P) : Leads S (rule p) P := fun c a d hc h => hp c a d hc (rule_found h)

theorem Leads.orElse (hp : Leads S p P) (hq : Leads S q P) : Leads S (Reader.orElse p q) P :=
  fun c a d hc h => (orElse_found h).elim (hp c a d hc) fun h => hq c a d hc h.2

theorem Leads.optional {P : Option α → List Char → Prop} (hp : Leads S p fun a => P (some a))
    (hnone : ∀ r, S r → P none r) : Leads S (Reader.optional p) P := by
  intro c o d hc h
  rcases optional_found h with ⟨a, rfl, ha⟩ | ⟨rfl, rfl, -⟩
  · exact hp c a d hc ha
  · exact hnone _ hc

theorem Leads.next (h : ∀ r, S r → T (r.drop (skipLength r))) (hp : Leads T p P) : Leads S (next p) P :=
  fun c a d hc hfound => hp (skipped c) a d (h _ hc) hfound

theorem Leads.moreFrom {P : α → Prop} (hp : Leads S (Reader.next p) fun a r => P a ∧ S r) (n : Nat) :
    Leads S (moreFrom p n) fun as r => (∀ a ∈ as, P a) ∧ S r := by
  induction n with
  | zero => exact leads_pure fun _ hr => ⟨fun _ ha => (nomatch ha), hr⟩
  | succ n ih =>
    intro c as d hc h
    unfold Reader.moreFrom at h
    dsimp only at h
    split at h
    · obtain ⟨rfl, rfl⟩ := Prod.mk.inj (Option.some.inj h)
      exact ⟨fun _ ha => (nomatch ha), hc⟩
    · rename_i a e ha
      obtain ⟨⟨bs, d'⟩, hbs, heq⟩ := Option.map_eq_some_iff.1 h
      obtain ⟨rfl, rfl⟩ := Prod.mk.inj heq
      obtain ⟨ha, he⟩ := hp c a e hc ha
      obtain ⟨hbs, hd⟩ := ih e bs d' he hbs
      exact ⟨List.forall_mem_cons.2 ⟨ha, hbs⟩, hd⟩

/-- **Values one after another**, each of which leads to the next -/
theorem Leads.many {P : α → Prop} (hp : Leads S (Reader.next p) fun a r => P a ∧ S r) :
    Leads S (Reader.next (many p)) fun as r => (∀ a ∈ as, P a) ∧ ∃ r', S r' ∧ r <:+ r' := by
  intro c as d hc h
  rcases many_found (c := skipped c) h with ⟨rfl, rfl⟩ | ⟨a, e, bs, n, rfl, ha, hbs⟩
  · exact ⟨fun _ ha => (nomatch ha), c.rest, hc, List.drop_suffix _ _⟩
  · obtain ⟨ha, he⟩ := hp c a e hc ha
    obtain ⟨hbs, hd⟩ := hp.moreFrom n e bs d he hbs
    exact ⟨List.forall_mem_cons.2 ⟨ha, hbs⟩, d.rest, hd, List.suffix_rfl⟩

end

section
variable {text : List Char} {P : α → Prop} {Q : β → Prop}

/-- all that a reader finds in a text has a property -/
def Yields (text : List Char) (p : Reader α) (P : α → Prop) : Prop :=
  Leads (· <:+ text) p fun a r => P a ∧ r <:+ text

theorem yields_pure (ha : P a) : Yields text (Pure.pure a) P := leads_pure fun _ hr => ⟨ha, hr⟩

theorem Yields.bind (hp : Yields text p P) (hf : ∀ a, P a → Yields text (f a) Q) : Yields text (p >>= f) Q :=
  Leads.bind hp fun a => leads_and (hf a)

theorem Yields.rule (hp : Yields text p P) : Yields text (rule p) P := Leads.rule hp

theorem Yields.orElse (hp : Yields text p P) (hq : Yields text q P) : Yields text (Reader.orElse p q) P :=
  Leads.orElse hp hq

theorem Yields.optional (hp : Yields text p P) : Yields text (Reader.optional p) fun o => ∀ a ∈ o, P a :=
  Leads.optional (fun c a d hc h => ⟨fun _ heq => Option.some.inj heq ▸ (hp c a d hc h).1, (hp c a d hc h).2⟩)
    fun _ hr => ⟨fun _ ha => (nomatch ha), hr⟩

theorem Yields.next (hp : Yields text p P) : Yields text (next p) P :=
  Leads.next (fun r hr => (List.drop_suffix (skipLength r) r).trans hr) hp

theorem Yields.many (hp : Yields text (Reader.next p) P) :
    Yields text (Reader.next (many p)) fun as => ∀ a ∈ as, P a := by
  intro c as d hc h
  obtain ⟨has, r, hr, hd⟩ := Leads.many hp c as d hc h
  exact ⟨has, hd.trans hr⟩

theorem Yields.many1 (hp : Yields text (Reader.next p) P) :
    Yields text (Reader.next (many1 p)) fun as => ∀ a ∈ as, P a := by
  intro c as d hc h
  refine hp.many c as d hc ?_
  change (Reader.many1 p ⟨_, _⟩).found = some (as, d) at h
  unfold Reader.many1 at h
  dsimp only at h
  split at h
  · exact nomatch h
  · exact h

/-! ### parts without readers of their own -/

theorem yields_offset : Yields text offset fun _ => True := fun c a d hc h => by
  obtain ⟨-, rfl⟩ := Prod.mk.inj (Option.some.inj h)
  exact ⟨trivial, hc⟩

theorem yields_word (w : List Char) : Yields text (word w) fun _ => True := by
  intro c a d hc h
  unfold word at h
  split at h
  · obtain ⟨-, rfl⟩ := Prod.mk.inj (Option.some.inj h)
    exact ⟨trivial, (List.drop_suffix _ _).trans hc⟩
  · exact nomatch h

theorem yields_token (test : Char → Bool) :
    Yields text (Reader.rule (do return String.ofList (← run1 test))) fun _ => True := by
  intro c n d hc h
  obtain ⟨-, -, hd⟩ := token_found h
  exact ⟨trivial, hd ▸ (List.dropWhile_suffix _).trans hc⟩

theorem yields_notFollowedBy (test : Char → Bool) : Yields text (notFollowedBy test) fun _ => True := by
  intro c a d hc h
  unfold notFollowedBy at h
  split at h
  · split at h
    · exact nomatch h
    · obtain ⟨-, rfl⟩ := Prod.mk.inj (Option.some.inj h)
      exact ⟨trivial, hc⟩
  · obtain ⟨-, rfl⟩ := Prod.mk.inj (Option.some.inj h)
    exact ⟨trivial, hc⟩

theorem yields_endOfText : Yields text endOfText fun _ => True := by
  intro c a d hc h
  unfold endOfText at h
  split at h
  · obtain ⟨-, rfl⟩ := Prod.mk.inj (Option.some.inj h)
    exact ⟨trivial, hc⟩
  · exact nomatch h

end
end Reader

/-! ## lines of a text -/

section
variable {text : List Char}

/-- a line of the text starts with the rest -/
def LineStart (text rest : List Char) : Prop := ∃ before c, text = before ++ c :: rest ∧ isLineEnd c = true

/-- behind blanks and a comment a line of the text goes on like this -/
def LineHead (text cs : List Char) : Prop := ∃ rest, LineStart text rest ∧ cs = rest.drop (skipLength rest)

theorem LineStart.suffix {rest : List Char} (h : LineStart text rest) : rest <:+ text := by
  obtain ⟨before, c, rfl, -⟩ := h
  exact ⟨before ++ [c], by simp⟩

theorem LineHead.suffix {cs : List Char} (h : LineHead text cs) : cs <:+ text := by
  obtain ⟨rest, hrest, rfl⟩ := h
  exact (List.drop_suffix _ _).trans hrest.suffix

/-- **Behind the end of a line** another one starts -/
theorem leads_lineEnd : Leads (· <:+ text) lineEnd fun _ => LineStart text := by
  rintro ⟨rest, o⟩ a d ⟨before, rfl⟩ h
  unfold lineEnd at h
  split at h
  · obtain ⟨-, rfl⟩ := Prod.mk.inj (Option.some.inj h)
    exact ⟨before, '\n', by simp_all, rfl⟩
  · obtain ⟨-, rfl⟩ := Prod.mk.inj (Option.some.inj h)
    exact ⟨before ++ ['\r'], '\n', by simp_all, rfl⟩
  · obtain ⟨-, rfl⟩ := Prod.mk.inj (Option.some.inj h)
    exact ⟨before, '\r', by simp_all, rfl⟩
  · exact nomatch h

theorem yields_lineEnd : Yields text lineEnd fun _ => True :=
  fun c a d hc h => ⟨trivial, (leads_lineEnd c a d hc h).suffix⟩

/-- **The lines of a block** are read at heads of lines -/
theorem yields_block {α : Type} {p : Reader α} {P : α → Prop}
    (hp : Leads (LineHead text) p fun a r => P a ∧ r <:+ text) : Yields text (block p) fun as => ∀ a ∈ as, P a := by
  have hend : Leads (· <:+ text) (next lineEnd) fun _ => LineStart text :=
    Leads.next (fun r hr => (List.drop_suffix (skipLength r) r).trans hr) leads_lineEnd
  have hline : Leads (LineHead text) (optional p) fun o r => (∀ a ∈ o, P a) ∧ r <:+ text :=
    Leads.optional (fun c a d hc h => ⟨fun _ heq => Option.some.inj heq ▸ (hp c a d hc h).1, (hp c a d hc h).2⟩)
      fun _ hr => ⟨fun _ ha => (nomatch ha), hr.suffix⟩
  have hterminated : Leads (LineStart text) (next (terminated p)) fun o r => (∀ a ∈ o, P a) ∧ LineStart text r :=
    Leads.next (fun r hr => ⟨r, hr, rfl⟩) (hline.bind fun o => leads_and fun ho => hend.bind fun _ =>
      leads_pure fun _ hr => ⟨ho, hr⟩)
  refine Leads.bind (yields_word _) fun _ => leads_and fun _ => hend.bind fun _ => hterminated.many.bind fun os =>
    leads_and fun hos => ?_
  rintro c as d ⟨r, hr, hc⟩ h
  have hrest : Yields text (do next (word ['\x7d']); return os.filterMap id) fun as => ∀ a ∈ as, P a :=
    .bind (yields_word _).next fun _ _ => yields_pure fun a ha => by
      obtain ⟨o, ho, ha⟩ := List.mem_filterMap.1 ha
      exact hos o ho a ha
  exact hrest c as d (hc.trans hr.suffix) h

end

/-! ## lines of methods -/

/-- what is read as a word is one, and the text starts with it -/
theorem operand_found {c d : Cursor} {w : String} (h : (operand c).found = some (.word w, d)) :
    IsWord w ∧ c.rest.head? = w.toList.head? := by
  rcases orElse_found h with h | ⟨-, h⟩
  · have hliteral := rule_found h
    split at hliteral
    · split at hliteral
      · exact nomatch hliteral
      · exact nomatch hliteral
    · exact nomatch hliteral
  · have hword := rule_found h
    split at hword
    · exact nomatch hword
    · rename_i hpos
      obtain ⟨hw, -⟩ := Prod.mk.inj (Option.some.inj hword)
      obtain rfl := Operand.word.inj hw
      refine ⟨.ofTaken hpos, ?_⟩
      rw [String.toList_ofList, List.head?_take, if_neg hpos]

/-- behind the quote of a literal there are its inside, its other quote and the rest -/
theorem literalBody?_suffix {cs inner rest : List Char} (h : literalBody? cs = some (inner, rest)) : rest <:+ cs := by
  induction cs using literalBody?.induct generalizing inner with
  | case1 => exact nomatch h
  | case2 r =>
    obtain ⟨-, rfl⟩ := Prod.mk.inj (Option.some.inj h)
    exact List.suffix_cons _ _
  | case3 c r ih =>
    obtain ⟨⟨inner', rest'⟩, hmore, heq⟩ := Option.map_eq_some_iff.1 h
    obtain ⟨-, rfl⟩ := Prod.mk.inj heq
    exact (ih hmore).trans ((List.suffix_cons _ _).trans (List.suffix_cons _ _))
  | case4 => exact nomatch h
  | case5 c r hquote hescape hend ih =>
    rw [literalBody?] at h
    · obtain ⟨⟨inner', rest'⟩, hmore, heq⟩ := Option.map_eq_some_iff.1 h
      obtain ⟨-, rfl⟩ := Prod.mk.inj heq
      exact (ih hmore).trans (List.suffix_cons _ _)
    all_goals assumption

theorem yields_operand {text : List Char} : Yields text operand fun o => ∀ w, o = .word w → IsWord w := by
  intro c o d hc h
  refine ⟨fun w hw => (operand_found (hw ▸ h)).1, ?_⟩
  rcases orElse_found h with h | ⟨-, h⟩
  · have hliteral := rule_found h
    split at hliteral
    · rename_i r hrest
      split at hliteral
      · rename_i inner rest hbody
        obtain ⟨-, rfl⟩ := Prod.mk.inj (Option.some.inj hliteral)
        exact (literalBody?_suffix hbody).trans ((hrest ▸ List.suffix_cons _ _).trans hc)
      · exact nomatch hliteral
    · exact nomatch hliteral
  · have hword := rule_found h
    split at hword
    · exact nomatch hword
    · obtain ⟨-, rfl⟩ := Prod.mk.inj (Option.some.inj hword)
      exact (List.drop_suffix _ _).trans hc

theorem yields_operands {text : List Char} :
    Yields text (next (many operand)) fun os => ∀ w, .word w ∈ os → IsWord w := fun c os d hc h =>
  have ⟨hos, hd⟩ := yields_operand.next.many c os d hc h
  ⟨fun w hw => hos _ hw w rfl, hd⟩

/-- the first of several operands stands behind blanks and a comment -/
theorem operands_head {c d : Cursor} {os : List Operand} {w : String} (h : (next (many operand) c).found = some (os, d))
    (hw : os.head? = some (.word w)) : (c.rest.drop (skipLength c.rest)).head? = w.toList.head? := by
  rcases many_found (c := skipped c) h with ⟨rfl, -⟩ | ⟨a, e, bs, n, rfl, ha, -⟩
  · exact nomatch hw
  · obtain rfl := Option.some.inj hw
    exact (operand_found ha).2

/-- **A name with a colon behind it** defines a label -/
theorem labelLine_of_colon {cs rest : List Char} (hne : cs ≠ []) (hcs : ∀ c ∈ cs, isNameChar c = true)
    (hcolon : (rest.drop (skipLength rest)).head? = some ':') (o : Nat) : (labelLine ⟨cs ++ rest, o⟩).found ≠ none := by
  obtain ⟨more, hmore⟩ : ∃ more, rest.drop (skipLength rest) = ':' :: more := by
    cases hrest : rest.drop (skipLength rest) with
    | nil => exact absurd (hrest ▸ hcolon) (by simp)
    | cons a more => exact ⟨more, by rw [Option.some.inj (hrest ▸ hcolon : (a :: more).head? = some ':')]⟩
  have hstop : ∀ a, rest.head? = some a → isNameChar a = false := by
    intro a ha
    refine Bool.eq_false_iff.2 fun hname => ?_
    -- in front of the colon there are only blanks
    have hblanks := drop_skipLength_of_head hcolon (by decide)
    obtain ⟨as, rfl⟩ : ∃ as, rest = a :: as := by
      cases rest with
      | nil => exact nomatch ha
      | cons b as => exact ⟨as, by rw [Option.some.inj ha]⟩
    rw [hmore, List.dropWhile_cons_of_neg (by simp [isBlank_of_isNameChar hname])] at hblanks
    exact absurd ((List.cons.inj hblanks).1 ▸ hname) (by decide)
  have hword : Reads (next (word [':'])) rest more fun _ => True := .next (hmore ▸ reads_word [':'] more)
  have hlabel : Reads labelLine (cs ++ rest) more fun _ => True :=
    .rule (.bind (reads_offset _) fun _ _ => .bind (reads_token hne hcs hstop) fun _ _ => .bind hword fun _ _ =>
      (reads_pure _ _).mono fun _ _ => trivial)
  obtain ⟨_, _, hfound, -⟩ := hlabel o
  simp [hfound]

/-- all words of the line are words of the grammar -/
def Line.Worded (l : Line) : Prop := ∀ w, .word w ∈ l.operands → IsWord w

/-- the first operand of the line, if it is a word, does not start with a colon -/
def Line.Apart (l : Line) : Prop := ∀ w, l.operands.head? = some (.word w) → w.toList.head? ≠ some ':'

/-- the words of the line can be read, and a colon behind the opcode would have made it a label -/
def BodyLine.Read : BodyLine → Prop
  | .label _ _ => True
  | .directive l => l.Worded
  | .insn l => l.Worded ∧ l.Apart

section
variable {c d : Cursor} {line : Line}

/-- what is read as an instruction -/
theorem insnLine_found {x : BodyLine} (h : (insnLine c).found = some (x, d)) : ∃ line, x = .insn line ∧
    ∃ e, e.rest = c.rest.dropWhile isOpcodeChar ∧ c.rest.takeWhile isOpcodeChar ≠ [] ∧
      (next (many operand) e).found = some (line.operands, d) := by
  obtain ⟨o, e, ho, h⟩ := bind_found (rule_found h)
  obtain ⟨-, rfl⟩ := Prod.mk.inj (Option.some.inj ho)
  obtain ⟨op, e, hop, h⟩ := bind_found h
  obtain ⟨os, e', hos, h⟩ := bind_found h
  obtain ⟨rfl, rfl⟩ := Prod.mk.inj (Option.some.inj h)
  obtain ⟨-, hne, hdrop⟩ := token_found hop
  exact ⟨_, rfl, e, hdrop, hne, hos⟩

/-- what is read as a directive -/
theorem directiveLine_found {x : BodyLine} (h : (directiveLine c).found = some (x, d)) : ∃ line, x = .directive line ∧
    ∃ e cs, c.rest = '.' :: cs ∧ e.rest = (cs.drop (skipLength cs)).dropWhile isOpcodeChar ∧
      (next (many operand) e).found = some (line.operands, d) := by
  obtain ⟨o, e, ho, h⟩ := bind_found (rule_found h)
  obtain ⟨-, rfl⟩ := Prod.mk.inj (Option.some.inj ho)
  obtain ⟨_, e, hdot, h⟩ := bind_found h
  obtain ⟨op, e', hop, h⟩ := bind_found h
  obtain ⟨os, e'', hos, h⟩ := bind_found h
  obtain ⟨rfl, rfl⟩ := Prod.mk.inj (Option.some.inj h)
  obtain ⟨-, -, hdrop⟩ := token_found (c := skipped e) hop
  unfold word at hdot
  split at hdot
  · rename_i hprefix
    obtain ⟨cs, hcs⟩ := List.isPrefixOf_iff_prefix.1 hprefix
    obtain ⟨-, rfl⟩ := Prod.mk.inj (Option.some.inj hdot)
    refine ⟨_, rfl, e', cs, hcs.symm, ?_, hos⟩
    rw [hdrop, ← hcs]
    rfl
  · exact nomatch hdot

/-- **What is read as a line** has words that can be read -/
theorem bodyLine_read {x : BodyLine} (h : (bodyLine c).found = some (x, d)) : x.Read := by
  rcases orElse_found h with h | ⟨hlabel, h⟩
  · obtain ⟨_, _, -, h⟩ := bind_found (rule_found h)
    obtain ⟨_, _, -, h⟩ := bind_found h
    obtain ⟨_, _, -, h⟩ := bind_found h
    obtain ⟨rfl, -⟩ := Prod.mk.inj (Option.some.inj h)
    trivial
  rcases orElse_found h with h | ⟨-, h⟩
  · obtain ⟨line, rfl, e, cs, -, -, hos⟩ := directiveLine_found h
    exact (yields_operands e _ d List.suffix_rfl hos).1
  · obtain ⟨line, rfl, e, hdrop, hne, hos⟩ := insnLine_found h
    refine ⟨(yields_operands e _ d List.suffix_rfl hos).1, fun w hw hcolon => ?_⟩
    -- labels are tried first, and an opcode with a colon behind it is one
    have hchars : ∀ a ∈ c.rest.takeWhile isOpcodeChar, isNameChar a = true := fun a ha =>
      isNameChar_of_opcode (List.all_eq_true.1 List.all_takeWhile a ha)
    have hfound := labelLine_of_colon hne hchars ((operands_head hos hw).trans hcolon) c.offset
    rw [hdrop, List.takeWhile_append_dropWhile] at hfound
    exact hfound hlabel

/-- **A directive without a blank behind its dot** has no colon in front of its operands -/
theorem bodyLine_apart (hdot : ∀ cs, c.rest = '.' :: cs → ∃ a, cs.head? = some a ∧ isOpcodeChar a = true)
    (h : (bodyLine c).found = some (.directive line, d)) : line.Apart := by
  rcases orElse_found h with h | ⟨hlabel, h⟩
  · obtain ⟨_, _, -, h⟩ := bind_found (rule_found h)
    obtain ⟨_, _, -, h⟩ := bind_found h
    obtain ⟨_, _, -, h⟩ := bind_found h
    exact nomatch (Prod.mk.inj (Option.some.inj h)).1
  rcases orElse_found h with h | ⟨-, h⟩
  · obtain ⟨line', heq, e, cs, hc, hdrop, hos⟩ := directiveLine_found h
    obtain rfl := BodyLine.directive.inj heq
    intro w hw hcolon
    obtain ⟨a, ha, hchar⟩ := hdot cs hc
    obtain ⟨as, rfl⟩ : ∃ as, cs = a :: as := by
      cases cs with
      | nil => exact nomatch ha
      | cons b as => exact ⟨as, by rw [Option.some.inj ha]⟩
    rw [skipLength_plain (isPlain_of_opcode hchar), List.drop_zero] at hdrop
    -- dot and opcode together are a name, so a colon behind them would have made a label
    have hchars : ∀ b ∈ '.' :: (a :: as).takeWhile isOpcodeChar, isNameChar b = true :=
      List.forall_mem_cons.2 ⟨by decide, fun b hb => isNameChar_of_opcode (List.all_eq_true.1 List.all_takeWhile b hb)⟩
    have hfound := labelLine_of_colon (List.cons_ne_nil _ _) hchars ((operands_head hos hw).trans hcolon) c.offset
    rw [hdrop, List.cons_append, List.takeWhile_append_dropWhile, ← hc] at hfound
    exact hfound hlabel
  · obtain ⟨line', heq, -⟩ := insnLine_found h
    exact nomatch heq

end

/-- the line was read at the head of a line of the text -/
def BodyLine.StandsIn (text : List Char) (x : BodyLine) : Prop :=
  ∃ c d, LineHead text c.rest ∧ (bodyLine c).found = some (x, d)

theorem BodyLine.StandsIn.read {text : List Char} {x : BodyLine} (h : x.StandsIn text) : x.Read := by
  obtain ⟨c, d, -, hfound⟩ := h
  exact bodyLine_read hfound

/-- lines of methods, at heads of lines -/
theorem leads_bodyLine {text : List Char} :
    Leads (LineHead text) bodyLine fun x r => x.StandsIn text ∧ r <:+ text := by
  have hrest : Yields text bodyLine fun _ => True :=
    .orElse (.rule (.bind yields_offset fun _ _ => .bind (yields_token _) fun _ _ =>
      .bind (yields_word _).next fun _ _ => yields_pure trivial)) (.orElse
    (.rule (.bind yields_offset fun _ _ => .bind (yields_word _) fun _ _ => .bind (yields_token _).next fun _ _ =>
      .bind yields_operands fun _ _ => yields_pure trivial))
    (.rule (.bind yields_offset fun _ _ => .bind (yields_token _) fun _ _ => .bind yields_operands fun _ _ =>
      yields_pure trivial)))
  exact fun c x d hc h => ⟨⟨c, d, hc, h⟩, (hrest c x d hc.suffix h).2⟩

/-! ## names -/

section
variable {text : List Char}

theorem yields_next_name : Yields text (next name) IsName := by
  intro c n d hc h
  obtain ⟨rfl, hne, -⟩ := token_found (c := skipped c) h
  exact ⟨.ofTaken (skipLength_skipped c) hne, ((yields_token _).next c _ d hc h).2⟩

/-- the word in front of a name, or nothing -/
theorem yields_staticWord : Yields text staticWord fun _ => True :=
  .rule (.bind (yields_word _) fun _ _ => yields_notFollowedBy _)

/-- what was not read as the word `static` is not called so -/
theorem yields_declared {β : Type} {f : Option Unit → String → Reader β} {Q : β → Prop}
    (h : ∀ s n, IsName n → (s.isSome = false → n ≠ "static") → Yields text (f s n) Q) :
    Yields text (do let s ← next (optional staticWord); let n ← next name; f s n) Q := by
  intro c b d hc hfound
  obtain ⟨s, e, hs, hfound⟩ := bind_found hfound
  obtain ⟨n, e', hn, hfound⟩ := bind_found hfound
  have he := (yields_staticWord.optional.next c s e hc hs).2
  obtain ⟨hname, he'⟩ := yields_next_name e n e' he hn
  refine h s n hname ?_ e' b d he' hfound
  rintro hnone rfl
  rcases optional_found (c := skipped c) hs with ⟨a, rfl, -⟩ | ⟨rfl, rfl, hword⟩
  · exact nomatch hnone
  have hname : (name (skipped c)).found = some ("static", e') := skipped_skipped c ▸ hn
  obtain ⟨htaken, -, -⟩ := token_found hname
  have htext : (skipped c).rest = "static".toList ++ (skipped c).rest.dropWhile isNameChar := by
    rw [htaken, String.toList_ofList, List.takeWhile_append_dropWhile]
  have hstatic : Reads staticWord ((skipped c).rest) ((skipped c).rest.dropWhile isNameChar) fun _ => True := by
    rw [htext]
    refine .rule (.bind (reads_word _ _) fun _ _ o => ?_)
    have hstop := List.head?_dropWhile_not isNameChar (skipped c).rest
    rw [← htext]
    refine ⟨(), o, ?_, trivial⟩
    unfold notFollowedBy
    cases hrest : (skipped c).rest.dropWhile isNameChar with
    | nil => rfl
    | cons a more =>
      rw [hrest] at hstop
      have hstop : isNameChar a = false := by simpa using hstop
      simp only [hstop, Bool.false_eq_true, if_false]
  obtain ⟨_, _, hfound, -⟩ := hstatic (skipped c).offset
  exact nomatch hword.symm.trans hfound

/-! ## classes -/

/-- names of a member can be read, and its lines stand in the text -/
def Member.Read (text : List Char) : Member → Prop
  | .field f => IsDeclared f.isStatic f.name f.desc
  | .method d => IsDeclared d.isStatic d.name d.desc ∧ ∀ l ∈ d.body, l.StandsIn text

/-- names of a class can be read, and its lines stand in the text -/
structure ClassDecl.Read (text : List Char) (cd : ClassDecl) : Prop where
  name : IsName cd.name
  super : ∀ s ∈ cd.superName, IsName s
  interfaces : ∀ s ∈ cd.interfaces, IsName s
  members : ∀ m ∈ cd.members, m.Read text

theorem yields_member : Yields text member (Member.Read text) := by
  have hlocals : Yields text localsClause fun _ => True :=
    .rule (.bind yields_offset fun _ _ => .bind (yields_word _) fun _ _ => .bind (yields_token _).next fun _ _ =>
      yields_pure trivial)
  refine .orElse (.rule (.bind (yields_word _) fun _ _ => yields_declared fun s n hn hstatic =>
    .bind yields_next_name fun desc hdesc => yields_pure ?_)) ?_
  · exact ⟨hn, hdesc, hstatic⟩
  · refine .rule (.bind yields_offset fun _ _ => .bind (yields_word _) fun _ _ => yields_declared fun s n hn hstatic =>
      .bind yields_next_name fun desc hdesc => .bind hlocals.optional.next fun _ _ =>
      .bind (yields_block leads_bodyLine).next fun body hbody => yields_pure ?_)
    exact ⟨⟨hn, hdesc, hstatic⟩, hbody⟩

theorem yields_classDecl : Yields text classDecl (ClassDecl.Read text) := by
  have hsuper : Yields text extendsClause IsName := .rule (.bind (yields_word _) fun _ _ => yields_next_name)
  have hinterfaces : Yields text implementsClause fun ws => ∀ w ∈ ws, IsName w :=
    .rule (.bind (yields_word _) fun _ _ => yields_next_name.many1)
  have hmember : Leads (LineHead text) member fun m r => m.Read text ∧ r <:+ text :=
    fun c m d hc h => yields_member c m d hc.suffix h
  refine .rule (.bind yields_offset fun _ _ => .bind (yields_word _) fun _ _ => .bind yields_next_name fun n hn =>
    .bind hsuper.optional.next fun s hs => .bind hinterfaces.optional.next fun is his =>
    .bind (yields_block hmember).next fun ms hms => yields_pure ⟨hn, hs, fun w hw => ?_, hms⟩)
  cases is with
  | none => exact nomatch hw
  | some ws => exact his ws rfl w hw

end

/-- **What stands in a source** can be read -/
theorem Source.parse_read {text : String} {classes : List ClassDecl} (h : Source.parse text = .ok classes)
    {cd : ClassDecl} (hcd : cd ∈ classes) : cd.Read text.toList := by
  have hends : Yields text.toList (next (many lineEnd)) fun _ => True := fun c as d hc h =>
    ⟨trivial, (yields_lineEnd.next.many c as d hc h).2⟩
  have hclass : Yields text.toList classAndEnds (ClassDecl.Read text.toList) :=
    .bind yields_classDecl fun _ hread => .bind hends fun _ _ => yields_pure hread
  have hsource : Yields text.toList source fun cds => ∀ cd ∈ cds, cd.Read text.toList :=
    .rule (.bind hends fun _ _ => .bind hclass.next.many fun _ hcds => .bind yields_endOfText.rule.next fun _ _ =>
      yields_pure hcds)
  unfold Source.parse at h
  dsimp only at h
  split at h
  · rename_i classes' e hfound
    obtain rfl := Except.ok.inj h
    exact (hsource _ _ _ List.suffix_rfl hfound).1 cd hcd
  · exact nomatch h

/-- **The methods of a source** have descriptors -/
theorem Source.parse_desc {text : String} {classes : List ClassDecl} (h : Source.parse text = .ok classes)
    {cd : ClassDecl} (hcd : cd ∈ classes) {d : MethodDecl} (hd : .method d ∈ cd.members) : d.desc ≠ "" := by
  have hread := (Source.parse_read h hcd).members _ hd
  exact fun heq => hread.1.desc.ne (heq ▸ rfl)

end Resumable.Assembly
