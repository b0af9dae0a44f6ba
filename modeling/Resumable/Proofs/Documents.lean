import Mathlib.Data.List.Forall2
import Resumable.Json.Printer
import Resumable.Json.Reader
import Resumable.Proofs.Numerals

/-!
# Documents, written and read

A document whose containers do not lie too deep, whose numbers are numbers and in which nothing is skipped is read
back from its text, in either layout.  Its text is cut into the tokens of the document, whatever blanks stand between
them, and the automaton that reads them ends with the document.

* `Json.Fits` : documents that can be written;
* `Json.tokens` : the tokens of a document;
* `Json.Token.Scans`, `Json.Token.Spells` : texts and their tokens;
* `Json.Fits.spells_compact`, `Json.Fits.spells_prettyAt` : both layouts spell a document;
* `Json.Fits.run` : the automaton on the tokens of a document;
* `Json.read?_compact`, `Json.read?_pretty` : documents are read back.
-/

namespace Resumable

/-- a character pushed several times -/
theorem toList_pushn (c : Char) (n : Nat) : ("".pushn c n).toList = List.replicate n c := by
  rw [String.pushn_eq_repeat_push]
  induction n with
  | zero => rfl
  | succ n ih => rw [Nat.repeat, String.toList_push, ih, List.replicate_succ']

namespace Json

/-! ## documents and their tokens -/

/-- A document within `d` containers at most: its numbers are numbers, and nothing in it is skipped. -/
inductive Fits : Nat → Json → Prop
  | null {d : Nat} : Fits d .null
  | bool {d : Nat} (b : Bool) : Fits d (.bool b)
  | num {d : Nat} {t : String} (h : Token.isNumber t.toList) : Fits d (.num t)
  | str {d : Nat} (s : String) : Fits d (.str s)
  | arr {d : Nat} {xs : List Json} (h : ∀ x ∈ xs, Fits d x) : Fits (d + 1) (.arr xs)
  | obj {d : Nat} {ms : List (String × Json)} (h : ∀ m ∈ ms, Fits d m.2) : Fits (d + 1) (.obj ms)

mutual

/-- the tokens of a document -/
def tokens : Json → List Token
  | .null | .skipped => [.null]
  | .bool b => [.bool b]
  | .num t => [.num t]
  | .str s => [.str s]
  | .arr xs => .openArr :: [Token.comma].intercalate (elemTokens xs) ++ [.closeArr]
  | .obj ms => .openObj :: [Token.comma].intercalate (memberTokens ms) ++ [.closeObj]

/-- the tokens of each element -/
def elemTokens : List Json → List (List Token)
  | [] => []
  | x :: xs => tokens x :: elemTokens xs

/-- the tokens of each member -/
def memberTokens : List (String × Json) → List (List Token)
  | [] => []
  | (k, v) :: ms => (.str k :: .colon :: tokens v) :: memberTokens ms

end

theorem elemTokens_eq (xs : List Json) : elemTokens xs = xs.map tokens := by
  induction xs with
  | nil => rfl
  | cons x xs ih => rw [elemTokens, ih, List.map_cons]

theorem memberTokens_eq (ms : List (String × Json)) :
    memberTokens ms = ms.map fun m => .str m.1 :: .colon :: tokens m.2 := by
  induction ms with
  | nil => rfl
  | cons m ms ih => rw [memberTokens, ih, List.map_cons]

theorem compactElems_eq (xs : List Json) : compactElems xs = xs.map compact := by
  induction xs with
  | nil => rfl
  | cons x xs ih => rw [compactElems, ih, List.map_cons]

theorem compactMembers_eq (ms : List (String × Json)) :
    compactMembers ms = ms.map fun m => quote m.1 ++ ":" ++ compact m.2 := by
  induction ms with
  | nil => rfl
  | cons m ms ih => rw [compactMembers, ih, List.map_cons]

theorem prettyElems_eq (level : Nat) (xs : List Json) : prettyElems level xs = xs.map (prettyAt level) := by
  induction xs with
  | nil => rfl
  | cons x xs ih => rw [prettyElems, ih, List.map_cons]

theorem prettyMembers_eq (level : Nat) (ms : List (String × Json)) :
    prettyMembers level ms = ms.map fun m => quote m.1 ++ ": " ++ prettyAt level m.2 := by
  induction ms with
  | nil => rfl
  | cons m ms ih => rw [prettyMembers, ih, List.map_cons]

/-! ## cutting texts into tokens -/

namespace Token

/-- the text is cut into the tokens -/
def Scans (cs : List Char) (ts : List Token) : Prop := ∀ fuel, cs.length ≤ fuel → scanFrom fuel cs = some ts

/-- a number ends at the head of the text -/
def Stops (cs : List Char) : Prop := ∀ c ∈ cs.head?, isNumberChar c = false

/-- the text is cut into the tokens wherever it stands, if a number may end behind it -/
def Spells (cs : List Char) (ts : List Token) : Prop :=
  ∀ r rest, Stops r → Scans r rest → Scans (cs ++ r) (ts ++ rest)

section
variable {c : Char} {cs r r' w : List Char} {t : Token} {ts rest : List Token}

theorem scans_nil : Scans [] [] := by
  intro fuel _
  cases fuel <;> rfl

theorem Scans.scan? {s : String} (h : Scans s.toList ts) : scan? s = some ts := h _ (Nat.le_refl _)

theorem Scans.blank (hc : isBlank c) (h : Scans r ts) : Scans (c :: r) ts := by
  intro fuel hfuel
  cases fuel with
  | zero => exact absurd hfuel (by simp)
  | succ fuel =>
    rw [scanFrom, if_pos hc]
    exact h fuel (Nat.le_of_succ_le_succ hfuel)

theorem Scans.blanks (hw : ∀ c ∈ w, isBlank c) (h : Scans r ts) : Scans (w ++ r) ts := by
  induction w with
  | nil => exact h
  | cons c w ih => exact .blank (hw c List.mem_cons_self) (ih fun d hd => hw d (List.mem_cons_of_mem _ hd))

/-- one token at the head of the text -/
theorem Scans.token (hc : isBlank c = false) (hnext : next? c r = some (t, r')) (hlen : r'.length ≤ r.length)
    (h : Scans r' ts) : Scans (c :: r) (t :: ts) := by
  intro fuel hfuel
  cases fuel with
  | zero => exact absurd hfuel (by simp)
  | succ fuel =>
    have hrest := h fuel (Nat.le_trans hlen (Nat.le_of_succ_le_succ hfuel))
    rw [scanFrom, if_neg (by simp [hc]), hnext]
    simp only [hrest, Option.map_some]

/-! ### strings -/

theorem hexNumber?_hexChar : ∀ n < 0x20,
    Text.hexNumber? 0 ['0', '0', hexChar (n / 16), hexChar (n % 16)] = some n := by
  decide

/-- an escaped character is read as its code point -/
theorem units?_escapeChar (c : Char) (r : List Char) :
    units? (escapeChar c ++ r) = (units? r).map fun p => (c.toNat :: p.1, p.2) := by
  unfold escapeChar
  split
  case h_8 =>
    -- no character with an escape of one letter: a control is escaped by its number, all others stand for themselves
    split
    · rename_i hc
      simp [units?, hexNumber?_hexChar c.toNat hc]
    · rename_i hc
      show units? (c :: r) = _
      rw [units?, if_neg hc]
      all_goals simp_all
  all_goals simp [units?, escape?]

theorem units?_escaped (cs r : List Char) :
    units? (cs.flatMap escapeChar ++ '"' :: r) = some (cs.map Char.toNat, r) := by
  induction cs with
  | nil => simp [units?]
  | cons c cs ih => rw [List.flatMap_cons, List.append_assoc, units?_escapeChar, ih]; rfl

/-- a character is no half of another one -/
theorem not_isSurrogate (c : Char) : isHighSurrogate c.toNat = false ∧ isLowSurrogate c.toNat = false := by
  have hvalid : c.toNat < 0xD800 ∨ 0xDFFF < c.toNat ∧ c.toNat < 0x110000 := c.valid
  simp only [isHighSurrogate, isLowSurrogate, Bool.and_eq_false_iff, decide_eq_false_iff_not]
  omega

theorem characters?_toNat (cs : List Char) : characters? (cs.map Char.toNat) = some cs := by
  -- two numbers are looked at when they are halves of a character, which does not happen here
  induction cs with
  | nil => rfl
  | cons c cs ih =>
    obtain ⟨hhigh, hlow⟩ := not_isSurrogate c
    cases cs with
    | nil => simp [characters?, hhigh, hlow]
    | cons c' cs => simp_all [characters?]

theorem next?_quote (s : String) (r : List Char) :
    next? '"' (s.toList.flatMap escapeChar ++ '"' :: r) = some (.str s, r) := by
  show (units? _).map (fun p => (ofUnits p.1, p.2)) = _
  rw [units?_escaped, Option.map_some, ofUnits, characters?_toNat]
  simp

theorem Scans.quote {s : String} (h : Scans r ts) : Scans ((quote s).toList ++ r) (.str s :: ts) := by
  have hnext := next?_quote s r
  have htext : (Json.quote s).toList ++ r = '"' :: (s.toList.flatMap escapeChar ++ '"' :: r) := by simp [Json.quote]
  rw [htext]
  exact .token (by decide) hnext (by simp; omega) h

/-! ### words and numbers -/

theorem next?_number (hc : isNumberChar c) : next? c r =
    if isNumber ((c :: r).takeWhile isNumberChar) then
      some (.num (String.ofList ((c :: r).takeWhile isNumberChar)), (c :: r).dropWhile isNumberChar)
    else none := by
  unfold next?
  split
  case h_11 => rfl
  all_goals exact absurd hc (by decide)

theorem isBlank_of_isNumberChar (hc : isNumberChar c) : isBlank c = false := by
  rw [Bool.eq_false_iff]
  intro hblank
  simp only [isBlank, Bool.or_eq_true, beq_iff_eq] at hblank
  rcases hblank with ((rfl | rfl) | rfl) | rfl <;> exact absurd hc (by decide)

theorem Stops.takeWhile (h : Stops r) : r.takeWhile isNumberChar = [] := by
  cases r with
  | nil => rfl
  | cons c r => simp [h c rfl]

theorem Stops.dropWhile (h : Stops r) : r.dropWhile isNumberChar = r := by
  cases r with
  | nil => rfl
  | cons c r => simp [h c rfl]

theorem Scans.num {n : String} (hn : isNumber n.toList) (hr : Stops r) (h : Scans r ts) :
    Scans (n.toList ++ r) (.num n :: ts) := by
  have hchars : ∀ c ∈ n.toList, isNumberChar c := fun _ => isNumberChar_of_isNumber hn
  have htake : (n.toList ++ r).takeWhile isNumberChar = n.toList := by
    rw [List.takeWhile_append_of_pos hchars, hr.takeWhile, List.append_nil]
  have hdrop : (n.toList ++ r).dropWhile isNumberChar = r := by
    rw [List.dropWhile_append_of_pos hchars, hr.dropWhile]
  cases htext : n.toList with
  | nil => rw [htext] at hn; exact absurd hn (by decide)
  | cons c cs =>
    rw [htext] at hn hchars htake hdrop
    have hc := hchars c List.mem_cons_self
    have hnext : next? c (cs ++ r) = some (.num n, r) := by
      rw [next?_number hc]
      rw [List.cons_append] at htake hdrop
      rw [htake, hdrop, if_pos hn, ← htext, String.ofList_toList]
    exact .token (isBlank_of_isNumberChar hc) hnext (by simp) h

/-- a word at the head of the text -/
theorem Scans.word (hc : isBlank c = false) (hnext : next? c (w ++ r) = some (t, r)) (h : Scans r ts) :
    Scans (c :: w ++ r) (t :: ts) :=
  .token hc hnext (by simp) h

theorem Scans.null (h : Scans r ts) : Scans ("null".toList ++ r) (.null :: ts) :=
  .word (w := "ull".toList) (by decide) rfl h

theorem Scans.bool (b : Bool) (h : Scans r ts) : Scans ((compact (.bool b)).toList ++ r) (.bool b :: ts) := by
  cases b with
  | true => exact .word (w := "rue".toList) (by decide) rfl h
  | false => exact .word (w := "alse".toList) (by decide) rfl h

/-! ### containers -/

theorem stops_nil : Stops [] := by simp [Stops]

theorem stops_cons (h : isNumberChar c = false) : Stops (c :: r) := by simpa [Stops] using h

/-- texts one after another with commas and blanks between them -/
theorem spells_intercalate {parts : List (List Char)} {tss : List (List Token)} (hw : ∀ c ∈ w, isBlank c)
    (h : List.Forall₂ Spells parts tss) :
    Spells ((',' :: w).intercalate parts) ([comma].intercalate tss) := by
  induction h with
  | nil => exact fun r rest _ hr => hr
  | @cons cs ts parts tss hhead htail ih =>
    intro r rest hstop hr
    cases htail with
    | nil =>
      simp only [List.intercalate_singleton]
      exact hhead r rest hstop hr
    | @cons cs' ts' parts tss hhead' htail =>
      have hrest := ih r rest hstop hr
      have hcomma := Scans.token (c := ',') (t := .comma) (by decide) rfl (Nat.le_refl _) (hrest.blanks hw)
      rw [List.intercalate_cons_cons, List.intercalate_cons_cons]
      simpa using hhead _ _ (stops_cons (by decide)) hcomma

/-- a character that opens or closes a container, and its token -/
structure Bracket (c : Char) (t : Token) : Prop where
  solid : isBlank c = false
  stops : isNumberChar c = false
  next : ∀ r, next? c r = some (t, r)

theorem bracket_openArr : Bracket '[' .openArr := ⟨by decide, by decide, fun _ => rfl⟩
theorem bracket_closeArr : Bracket ']' .closeArr := ⟨by decide, by decide, fun _ => rfl⟩
theorem bracket_openObj : Bracket '\x7b' .openObj := ⟨by decide, by decide, fun _ => rfl⟩
theorem bracket_closeObj : Bracket '\x7d' .closeObj := ⟨by decide, by decide, fun _ => rfl⟩

theorem Bracket.scans (h : Bracket c t) (hr : Scans r ts) : Scans (c :: r) (t :: ts) :=
  .token h.solid (h.next r) (Nat.le_refl _) hr

theorem stops_blanks (hw : ∀ c ∈ w, isBlank c) (h : Stops r) : Stops (w ++ r) := by
  cases w with
  | nil => exact h
  | cons c w =>
    have hc := hw c List.mem_cons_self
    apply stops_cons
    rw [Bool.eq_false_iff]
    intro hnumber
    rw [isBlank_of_isNumberChar hnumber] at hc
    exact absurd hc (by simp)

/-- brackets around texts, with blanks behind the first one, behind commas and before the last one -/
theorem spells_container {o c : Char} {first last : Token} {v : List Char} {parts : List (List Char)}
    {tss : List (List Token)} (ho : Bracket o first) (hc : Bracket c last) (hw : ∀ c ∈ w, isBlank c)
    (hv : ∀ c ∈ v, isBlank c) (h : List.Forall₂ Spells parts tss) :
    Spells (o :: (w ++ (',' :: w).intercalate parts ++ v ++ [c])) (first :: ([comma].intercalate tss ++ [last])) := by
  intro r rest hstop hr
  have hlast : Scans (v ++ c :: r) (last :: rest) := .blanks hv (hc.scans hr)
  have hparts := spells_intercalate hw h _ _ (stops_blanks hv (stops_cons hc.stops)) hlast
  have hfirst := ho.scans (hparts.blanks hw)
  simpa using hfirst

/-- a key, a colon and a text -/
theorem Spells.member {v : String} (key colon : String) (hcolon : colon.toList = ':' :: w) (hw : ∀ c ∈ w, isBlank c)
    (h : Spells v.toList ts) : Spells (Json.quote key ++ colon ++ v).toList (.str key :: .colon :: ts) := by
  intro r rest hstop hr
  have hvalue := (h r rest hstop hr).blanks hw
  have hread := Scans.token (c := ':') (t := .colon) (by decide) rfl (Nat.le_refl _) hvalue
  rw [String.toList_append, String.toList_append, hcolon]
  simpa using hread.quote

end

end Token

/-! ## the two layouts -/

section
open Token
variable {d : Nat} {j : Json}

theorem forall₂_spells {α : Type} {as : List α} {text : α → String} {ts : α → List Token}
    (h : ∀ a ∈ as, Spells (text a).toList (ts a)) :
    List.Forall₂ Spells ((as.map text).map String.toList) (as.map ts) := by
  rw [List.map_map, List.forall₂_map_left_iff, List.forall₂_map_right_iff, List.forall₂_same]
  exact h

theorem Fits.spells_compact (h : j.Fits d) : Spells j.compact.toList j.tokens := by
  induction h with
  | null => exact fun r rest _ hr => hr.null
  | bool b => exact fun r rest _ hr => hr.bool b
  | num h => exact fun r rest hstop hr => hr.num h hstop
  | str s => exact fun r rest _ hr => hr.quote
  | @arr d xs h ih =>
    have hparts := forall₂_spells ih
    have htext := spells_container bracket_openArr bracket_closeArr (w := []) (v := []) (by simp) (by simp) hparts
    rw [compact, compactElems_eq, tokens, elemTokens_eq]
    simpa using htext
  | @obj d ms h ih =>
    have hparts := forall₂_spells fun m hm => (ih m hm).member m.1 ":" rfl (by simp)
    have htext := spells_container bracket_openObj bracket_closeObj (w := []) (v := []) (by simp) (by simp) hparts
    rw [compact, compactMembers_eq, tokens, memberTokens_eq]
    simpa using htext

theorem toList_indent (level : Nat) : (indent level).toList = List.replicate (2 * level) ' ' := by
  rw [indent, toList_pushn]

/-- brackets around parts, each on a line of its own -/
theorem spells_block {o c : Char} {first last : Token} {opening closing : String} {parts : List String}
    {tss : List (List Token)} (level : Nat) (ho : Bracket o first) (hc : Bracket c last)
    (hopening : opening.toList = [o]) (hclosing : closing.toList = [c])
    (h : List.Forall₂ Spells (parts.map String.toList) tss) :
    Spells (block opening closing level parts).toList (first :: ([comma].intercalate tss ++ [last])) := by
  have hblank : ∀ n, ∀ c ∈ '\n' :: (indent n).toList, isBlank c := by
    intro n c hc
    rw [toList_indent] at hc
    rcases List.mem_cons.1 hc with rfl | hc
    · decide
    · obtain ⟨-, rfl⟩ := List.mem_replicate.1 hc
      decide
  cases parts with
  | nil =>
    have htext := spells_container ho hc (w := []) (v := []) (by simp) (by simp) h
    simpa [block, hopening, hclosing] using htext
  | cons part parts =>
    have htext := spells_container ho hc (hblank (level + 1)) (hblank level) h
    simpa [block, hopening, hclosing] using htext

theorem Fits.spells_prettyAt (h : j.Fits d) : ∀ level, Spells (j.prettyAt level).toList j.tokens := by
  induction h with
  | null => exact fun _ => Fits.spells_compact (d := 0) .null
  | bool b => exact fun _ => Fits.spells_compact (d := 0) (.bool b)
  | num h => exact fun _ => Fits.spells_compact (d := 0) (.num h)
  | str s => exact fun _ => Fits.spells_compact (d := 0) (.str s)
  | @arr d xs h ih =>
    intro level
    have hparts := forall₂_spells fun x hx => ih x hx (level + 1)
    rw [prettyAt, prettyElems_eq, tokens, elemTokens_eq]
    exact spells_block level bracket_openArr bracket_closeArr rfl rfl hparts
  | @obj d ms h ih =>
    intro level
    have hblank : ∀ c ∈ [' '], isBlank c := by simp [isBlank]
    have hparts := forall₂_spells fun m hm => (ih m hm (level + 1)).member m.1 ": " rfl hblank
    rw [prettyAt, prettyMembers_eq, tokens, memberTokens_eq]
    exact spells_block level bracket_openObj bracket_closeObj rfl rfl hparts

end

/-! ## reading the tokens -/

section
variable {d : Nat} {j : Json} {stack : List Pending} {ts : List Token}

/-- the automaton reads the tokens of a document as the document, with so many containers open around it -/
def Runs (depth : Nat) (j : Json) : Prop := ∀ stack ts, stack.length + depth ≤ maxDepth →
  State.run ⟨stack, .value⟩ (j.tokens ++ ts) = State.run ⟨stack, .after j⟩ ts

/-- a container that is not too deep is kept when it ends -/
theorem State.close_eq (h : stack.length < maxDepth) (v : Json) : State.close stack v = ⟨stack, .after v⟩ := by
  rw [State.close, if_pos h]

/-- the first element of an array starts as every other one: no document starts with the end of an array -/
theorem run_elemOrEnd (stack : List Pending) (x : Json) (xs : List Json) (ts : List Token) :
    State.run ⟨stack, .elemOrEnd⟩ ([Token.comma].intercalate (elemTokens (x :: xs)) ++ ts) =
      State.run ⟨stack, .value⟩ ([Token.comma].intercalate (elemTokens (x :: xs)) ++ ts) := by
  cases x <;> cases xs <;> rfl

/-- the first member of an object starts as every other one -/
theorem run_keyOrEnd (stack : List Pending) (m : String × Json) (ms : List (String × Json)) (ts : List Token) :
    State.run ⟨stack, .keyOrEnd⟩ ([Token.comma].intercalate (memberTokens (m :: ms)) ++ ts) =
      State.run ⟨stack, .key []⟩ ([Token.comma].intercalate (memberTokens (m :: ms)) ++ ts) := by
  cases ms <;> rfl

/-- the rest of an array, from one of its elements on -/
theorem run_elems (es : List Json) {x : Json} {xs : List Json} (h : ∀ y ∈ x :: xs, Runs d y)
    (hdepth : stack.length + (d + 1) ≤ maxDepth) :
    State.run ⟨.arr es :: stack, .value⟩ ([Token.comma].intercalate (elemTokens (x :: xs)) ++ .closeArr :: ts) =
      State.run ⟨stack, .after (.arr (es.reverse ++ x :: xs))⟩ ts := by
  have hopen : (Pending.arr es :: stack).length + d ≤ maxDepth := by simp only [List.length_cons]; omega
  have hhead := h x List.mem_cons_self
  induction xs generalizing x es with
  | nil =>
    rw [elemTokens, elemTokens, List.intercalate_singleton, hhead _ _ hopen]
    show State.run (.close stack (.arr (x :: es).reverse)) ts = _
    rw [State.close_eq (by omega), List.reverse_cons]
  | cons y xs ih =>
    have hrest := ih (x :: es) (fun z hz => h z (List.mem_cons_of_mem _ hz)) (by simpa using hopen)
      (h y (by simp))
    rw [elemTokens, elemTokens, List.intercalate_cons_cons, List.append_assoc, List.append_assoc,
      hhead _ _ hopen]
    rw [List.reverse_cons, List.append_assoc] at hrest
    exact hrest

/-- the members of an object as they are kept while it is read -/
def pendingMembers (ms : List (String × Json)) : List (Key × Json) := ms.map fun m => (some m.1, m.2)

theorem ofMembers_pending (ms : List (String × Json)) : ofMembers (pendingMembers ms) = .obj ms := by
  have hkeys : (pendingMembers ms).mapM (fun m => m.1.map fun k => (k, m.2)) = some ms := by
    induction ms with
    | nil => rfl
    | cons m ms ih => simp_all [pendingMembers]
  rw [ofMembers, hkeys]

theorem pendingMembers_concat (m : String × Json) (acc : List (String × Json)) :
    ((some m.1, m.2) :: (pendingMembers acc)).reverse = pendingMembers (acc.reverse ++ [m]) := by
  simp [pendingMembers]

/-- the rest of an object, from one of its members on -/
theorem run_members (acc : List (String × Json)) {m : String × Json} {ms : List (String × Json)}
    (h : ∀ m' ∈ m :: ms, Runs d m'.2) (hdepth : stack.length + (d + 1) ≤ maxDepth) :
    State.run ⟨stack, .key (pendingMembers acc)⟩
        ([Token.comma].intercalate (memberTokens (m :: ms)) ++ .closeObj :: ts) =
      State.run ⟨stack, .after (.obj (acc.reverse ++ m :: ms))⟩ ts := by
  have hopen : ∀ ms' k, (Pending.obj ms' k :: stack).length + d ≤ maxDepth := by
    intro ms' k
    simp only [List.length_cons]
    omega
  have hhead := h m List.mem_cons_self
  induction ms generalizing m acc with
  | nil =>
    rw [memberTokens, memberTokens, List.intercalate_singleton]
    show State.run ⟨.obj (pendingMembers acc) (some m.1) :: stack, .value⟩ (m.2.tokens ++ .closeObj :: ts) = _
    rw [hhead _ _ (hopen _ _)]
    show State.run (.close stack (ofMembers ((some m.1, m.2) :: pendingMembers acc).reverse)) ts = _
    rw [State.close_eq (by omega), pendingMembers_concat, ofMembers_pending]
  | cons m' ms ih =>
    have hrest := ih (m :: acc) (fun x hx => h x (List.mem_cons_of_mem _ hx)) (h m' (by simp))
    rw [memberTokens, memberTokens, List.intercalate_cons_cons, List.append_assoc, List.append_assoc]
    show State.run ⟨.obj (pendingMembers acc) (some m.1) :: stack, .value⟩ (m.2.tokens ++ _) = _
    rw [hhead _ _ (hopen _ _)]
    rw [List.reverse_cons, List.append_assoc] at hrest
    exact hrest

/-- the automaton reads every document that fits: by the containers of the document, and with `run_elems` and
`run_members` along each of them -/
theorem Fits.runs (h : j.Fits d) : Runs d j := by
  induction h with
  | null => exact fun _ _ _ => rfl
  | bool b => exact fun _ _ _ => rfl
  | num h => exact fun _ _ _ => rfl
  | str s => exact fun _ _ _ => rfl
  | @arr d xs h ih =>
    intro stack ts hdepth
    cases xs with
    | nil =>
      show State.run (.close stack (.arr [])) ts = _
      rw [State.close_eq (by omega)]
    | cons x xs =>
      rw [tokens, List.cons_append, List.cons_append, List.append_assoc]
      show State.run ⟨.arr [] :: stack, .elemOrEnd⟩ (_ ++ .closeArr :: ts) = _
      rw [run_elemOrEnd]
      exact run_elems [] ih hdepth
  | @obj d ms h ih =>
    intro stack ts hdepth
    cases ms with
    | nil =>
      show State.run (.close stack (.obj [])) ts = _
      rw [State.close_eq (by omega)]
    | cons m ms =>
      rw [tokens, List.cons_append, List.cons_append, List.append_assoc]
      show State.run ⟨stack, .keyOrEnd⟩ (_ ++ .closeObj :: ts) = _
      rw [run_keyOrEnd]
      exact run_members [] ih hdepth

end

/-- the document of a text that is cut into its tokens -/
theorem Fits.read?_eq {j : Json} {text : String} (h : j.Fits maxDepth) (htext : Token.Spells text.toList j.tokens) :
    read? text = some j := by
  have hscan : Token.Scans text.toList j.tokens := by
    simpa using htext [] [] Token.stops_nil Token.scans_nil
  have hrun := h.runs [] [] (Nat.le_refl _)
  rw [List.append_nil] at hrun
  rw [read?, hscan.scan?]
  simp [hrun, State.run]

/-- a document is read back from its text without blanks -/
theorem read?_compact {j : Json} (h : j.Fits maxDepth) : read? j.compact = some j := h.read?_eq h.spells_compact

/-- a document is read back from its text over lines -/
theorem read?_pretty {j : Json} (h : j.Fits maxDepth) : read? j.pretty = some j := h.read?_eq (h.spells_prettyAt 0)

end Json
end Resumable
