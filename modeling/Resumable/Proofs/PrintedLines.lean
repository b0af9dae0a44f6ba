import Resumable.Proofs.Directives
import Resumable.Proofs.Documents
import Resumable.Proofs.Spellings

/-!
# Printed lines

The line of an instruction is its opcode with its operands, a blank before each of them.  It is read as just that, in
front of anything, as long as its names are words and the first of them does not start with a colon, which would make
the opcode the name of a label.

A method is printed as a head, lines and a brace.  The lines are the directives of its declarations, its exception
regions, its hints and its code, in this order; each of them is read as what it was printed from.

* `Insn.line`, `Insn.lineAt` : opcode and operands, and the line of a body that they make;
* `Insn.Named` : the names of an instruction are words;
* `Insn.reads_line` : the line of an instruction is read as this instruction;
* `isFirst_int`, `isFirst_single`, `Label.isFirst_text` : numbers and labels are words;
* `MethodLine`, `methodLines` : the lines of a method;
* `MethodLine.reads` : a line is read as what it was printed from;
* `toList_methodText` : the text of a method by its lines.
-/

namespace Resumable

open Assembly Reader

/-- a word that can stand behind an opcode -/
structure IsFirst (w : String) : Prop where
  word : IsWord w
  colon : w.toList.head? ≠ some ':'

/-! ## numbers and labels -/

section
variable {c : Char} {w : String}

theorem isOpcodeChar_of_isDigit (h : Decimal.isDigit c = true) : isOpcodeChar c = true := by
  have hdigit : (decide ('0' ≤ c) && decide (c ≤ '9')) = true := h
  unfold isOpcodeChar isAlphanumeric
  rw [hdigit, Bool.or_true, Bool.true_or]

theorem isPlain_of_isNumberChar (h : Json.Token.isNumberChar c = true) : isPlain c = true := by
  unfold Json.Token.isNumberChar at h
  simp only [Bool.or_eq_true, beq_iff_eq] at h
  rcases h with ((((h | rfl) | rfl) | rfl) | rfl) | rfl
  · exact isPlain_of_opcode (isOpcodeChar_of_isDigit h)
  all_goals decide

/-- a number as it is written can be an operand -/
theorem isFirst_of_isNumber (hne : w.toList ≠ []) (h : Json.Token.isNumber w.toList = true) : IsFirst w where
  word := .ofPlain hne
    (List.all_eq_true.2 fun _ hc => isPlain_of_isNumberChar (Json.Token.isNumberChar_of_isNumber h hc))
  colon hcolon :=
    have hnumber := Json.Token.isNumberChar_of_isNumber h (List.mem_of_mem_head? hcolon)
    absurd hnumber (by decide)

theorem isFirst_int (n : Int) : IsFirst (toString n) := by
  refine isFirst_of_isNumber ?_ (Json.Token.isNumber_integer n)
  rw [Decimal.toList_toString, Decimal.Layout.integer]
  split
  · simp
  · exact (Decimal.isDigits_digits _).ne_nil

theorem isFirst_nat (n : Nat) : IsFirst (toString n) := isFirst_int n

theorem isFirst_print (l : Decimal.Layout) (f : Decimal.BinaryFormat) (x : Decimal.Binary) :
    IsFirst (l.print f x) := by
  cases x with
  | nan => exact ⟨(by decide : IsWord "NaN"), (by decide : "NaN".toList.head? ≠ some ':')⟩
  | infinite neg =>
    cases neg with
    | false => exact ⟨(by decide : IsWord "inf"), (by decide : "inf".toList.head? ≠ some ':')⟩
    | true => exact ⟨(by decide : IsWord "-inf"), (by decide : "-inf".toList.head? ≠ some ':')⟩
  | finite neg m q =>
    have hnumber := Json.Token.isNumber_finite l f neg m q
    refine isFirst_of_isNumber (fun hnil => ?_) hnumber
    have hempty : Json.Token.isNumber [] = true := hnil ▸ hnumber
    exact absurd hempty (by decide)

end

namespace Label

theorem toList_text (l : Label) : l.text.toList = 'L' :: Decimal.Layout.digits l.number.toNat := by
  have hnumber : (toString l.number.toNat).toList = Decimal.Layout.digits l.number.toNat := Nat.toList_repr
  rw [text, String.toList_append, hnumber]
  rfl

/-- **Labels** are told apart by their texts -/
theorem text_inj {l l' : Label} (h : l.text = l'.text) : l = l' := by
  have hdigits := congrArg String.toList h
  rw [toList_text, toList_text] at hdigits
  have hvalue := congrArg (Decimal.digitsValue 0) (List.cons.inj hdigits).2
  rw [Decimal.digitsValue_digits, Decimal.digitsValue_digits] at hvalue
  obtain ⟨n⟩ := l
  obtain ⟨n'⟩ := l'
  exact congrArg mk (UInt32.toNat_inj.1 hvalue)

theorem opcode_text (l : Label) : l.text.toList.all isOpcodeChar = true := by
  rw [toList_text, List.all_cons]
  exact Bool.and_eq_true_iff.2 ⟨by decide,
    List.all_eq_true.2 fun c hc => isOpcodeChar_of_isDigit (Decimal.isDigit_of_mem_digits hc)⟩

theorem text_ne (l : Label) : l.text.toList ≠ [] := by
  rw [toList_text]
  exact List.cons_ne_nil _ _

theorem isFirst_text (l : Label) : IsFirst l.text where
  word := .ofPlain l.text_ne (List.all_eq_true.2 fun c hc => isPlain_of_opcode (List.all_eq_true.1 l.opcode_text c hc))
  colon := by
    rw [toList_text]
    simp

end Label

/-! ## opcodes -/

/-- a text that the grammar reads as an opcode -/
def IsOpcode (op : String) : Prop := op.toList ≠ [] ∧ op.toList.all isOpcodeChar = true

instance (op : String) : Decidable (IsOpcode op) := inferInstanceAs (Decidable (_ ∧ _))

theorem IsOpcode.append {a b : String} (ha : IsOpcode a) (hb : b.toList.all isOpcodeChar = true) :
    IsOpcode (a ++ b) := by
  unfold IsOpcode
  rw [String.toList_append, List.all_append, ha.2, hb]
  exact ⟨fun h => ha.1 (List.append_eq_nil_iff.1 h).1, rfl⟩

theorem isOpcode_typed (k : Kind) {rest : String} (h : rest.toList.all isOpcodeChar = true) :
    IsOpcode (Insn.typed k rest) :=
  .append (by cases k <;> decide) h

/-! ## instructions -/

/-- the parts of a member of a class can be told apart in a line -/
structure IsMember (owner name desc : String) : Prop where
  owner_ne : owner ≠ ""
  name_ne : name ≠ ""
  dot : '.' ∉ name.toList
  first : IsFirst (owner ++ "." ++ name)
  type : IsWord desc

namespace Insn

/-- opcode and operands as they are printed; a label has a line of its own kind -/
def line : Insn → String × List String
  | .label l => (l.text, [])
  | .nop => ("nop", [])
  | .nullConst => ("aconst_null", [])
  | .intConst v => ("iconst", [toString v.toInt])
  | .longConst v => ("lconst", [toString v.toInt])
  | .floatConst v => ("fconst", [Decimal.printSingle v])
  | .doubleConst v => ("dconst", [Decimal.printDouble v])
  | .stringConst s => ("ldc", [Text.Quoted.encode s])
  | .load k slot => (typed k "load", [toString slot.toNat])
  | .store k slot => (typed k "store", [toString slot.toNat])
  | .increment slot delta => ("iinc", [toString slot.toNat, toString delta.toInt])
  | .arith op k => (typed k op.name, [])
  | .neg k => (typed k "neg", [])
  | .convert s t => (typed s "2" ++ t.letter.toString, [])
  | .compare op => (op.name, [])
  | .branch c l => ("if" ++ c.name, [l.text])
  | .branchCompare c l => ("if_icmp" ++ c.name, [l.text])
  | .branchSame l => ("if_acmpeq", [l.text])
  | .branchDistinct l => ("if_acmpne", [l.text])
  | .branchNull l => ("ifnull", [l.text])
  | .branchNonNull l => ("ifnonnull", [l.text])
  | .jump l => ("goto", [l.text])
  | .jumpSubroutine l => ("jsr", [l.text])
  | .returnSubroutine slot => ("ret", [toString slot.toNat])
  | .tableSwitch low d ts => ("tableswitch", toString low.toInt :: d.text :: ts.map Label.text)
  | .lookupSwitch d cs => ("lookupswitch", d.text :: cs.map fun c => toString c.1.toInt ++ ":" ++ c.2.text)
  | .ret none => ("return", [])
  | .ret (some k) => (typed k "return", [])
  | .throw => ("athrow", [])
  | .getStatic f => ("getstatic", [f.owner ++ "." ++ f.name, f.desc])
  | .putStatic f => ("putstatic", [f.owner ++ "." ++ f.name, f.desc])
  | .getField f => ("getfield", [f.owner ++ "." ++ f.name, f.desc])
  | .putField f => ("putfield", [f.owner ++ "." ++ f.name, f.desc])
  | .invoke k m => (k.mnemonic, [m.owner ++ "." ++ m.name, m.desc])
  | .new t => ("new", [t])
  | .newArray t => ("newarray", [t])
  | .arrayLength => ("arraylength", [])
  | .arrayLoad k => (typed k "aload", [])
  | .arrayStore k => (typed k "astore", [])
  | .checkCast t => ("checkcast", [t])
  | .instanceOf t => ("instanceof", [t])
  | .pop => ("pop", [])
  | .pop2 => ("pop2", [])
  | .dup => ("dup", [])
  | .dupX1 => ("dup_x1", [])
  | .dup2 => ("dup2", [])
  | .swap => ("swap", [])

/-- the operands that are read from the line -/
def operands : Insn → List Operand
  | .stringConst s => [.literal (String.ofList (Text.Quoted.encodeChars s.toList))]
  | i => i.line.2.map .word

/-- the line of a body that stands at an offset -/
def lineAt (i : Insn) (o : Nat) : BodyLine :=
  match i with
  | .label l => .label o l.text
  | i => .insn ⟨o, i.line.1, i.operands⟩

/-- the names that the instruction mentions are words -/
def Named : Insn → Prop
  | .new t | .newArray t | .checkCast t | .instanceOf t => IsFirst t
  | .getStatic f | .putStatic f | .getField f | .putField f => IsMember f.owner f.name f.desc
  | .invoke _ m => IsMember m.owner m.name m.desc
  | _ => True

/-- words with a blank between them -/
theorem toList_intercalate_blank (w : String) (ws : List String) :
    (" ".intercalate (w :: ws)).toList = w.toList ++ spaced ws := by
  rw [String.toList_intercalate, List.map_cons]
  induction ws generalizing w with
  | nil => simp [spaced]
  | cons v ws ih =>
    rw [List.map_cons, List.intercalate_cons_cons, ih v]
    simp [spaced]

variable {i : Insn}

/-- **The text of an instruction** is its opcode and its operands -/
theorem toList_text (h : i.label? = none) : i.text.toList = i.line.1.toList ++ spaced i.line.2 := by
  cases i
  case label l => exact absurd h (by simp [label?])
  case tableSwitch low d ts => exact toList_intercalate_blank _ _
  case lookupSwitch d cs => exact toList_intercalate_blank _ _
  case ret k => cases k <;> simp [text, line, spaced]
  all_goals simp [text, line, spaced, typed, member]

/-- opcodes are tokens -/
theorem isOpcode_line (i : Insn) : IsOpcode i.line.1 := by
  cases i
  case label l => exact ⟨l.text_ne, l.opcode_text⟩
  case load k slot => exact isOpcode_typed k (by decide)
  case store k slot => exact isOpcode_typed k (by decide)
  case arith op k => exact isOpcode_typed k (by cases op <;> decide)
  case neg k => exact isOpcode_typed k (by decide)
  case convert s t => exact (isOpcode_typed s (by decide)).append (by cases t <;> decide)
  case compare op => cases op <;> decide
  case branch c l => exact .append (by decide) (by cases c <;> decide)
  case branchCompare c l => exact .append (by decide) (by cases c <;> decide)
  case ret k =>
    cases k with
    | none => decide
    | some k => exact isOpcode_typed k (by decide)
  case invoke k m => exact .append (by decide) (by cases k <;> decide)
  case arrayLoad k => exact isOpcode_typed k (by decide)
  case arrayStore k => exact isOpcode_typed k (by decide)
  all_goals exact ⟨by simp [line], by simp [line, isOpcodeChar, isAlphanumeric]⟩

/-- words, of which the first can stand behind an opcode -/
def Operands (ws : List String) : Prop :=
  (∀ w ∈ ws, IsWord w) ∧ ∀ w, ws.head? = some w → w.toList.head? ≠ some ':'

theorem operands_nil : Operands [] := ⟨by simp, by simp⟩

theorem operands_cons {w : String} {ws : List String} (h : IsFirst w) (hws : ∀ v ∈ ws, IsWord v) :
    Operands (w :: ws) :=
  ⟨List.forall_mem_cons.2 ⟨h.word, hws⟩, fun _ hv => Option.some.inj hv ▸ h.colon⟩

theorem operands_one {w : String} (h : IsFirst w) : Operands [w] := operands_cons h (by simp)

theorem operands_member {owner name desc : String} (h : IsMember owner name desc) :
    Operands [owner ++ "." ++ name, desc] :=
  operands_cons h.first (List.forall_mem_singleton.2 h.type)

/-- the case of a switch is a word -/
theorem isWord_case (c : Int32 × Label) : IsWord (toString c.1.toInt ++ ":" ++ c.2.text) := by
  have hkey : ((toString c.1.toInt ++ ":").toList.all isPlain) = true := by
    rw [String.toList_append, List.all_append, Bool.and_eq_true]
    exact ⟨List.all_eq_true.2 fun d hd => isPlain_of_isNumberChar
      (Json.Token.isNumberChar_of_isNumber (Json.Token.isNumber_integer _) hd), by decide⟩
  exact c.2.isFirst_text.word.keyed hkey

/-- the operands of a line without a literal are words, and no colon stands behind the opcode -/
theorem operands_line (hi : i.Named) (hs : ∀ s, i ≠ .stringConst s) : Operands i.line.2 := by
  cases i
  case stringConst s => exact absurd rfl (hs s)
  case floatConst v => exact operands_one (isFirst_print _ _ _)
  case doubleConst v => exact operands_one (isFirst_print _ _ _)
  case increment slot delta => exact operands_cons (isFirst_nat _) (List.forall_mem_singleton.2 (isFirst_int _).word)
  case tableSwitch low d ts =>
    exact operands_cons (isFirst_int _) (List.forall_mem_cons.2 ⟨d.isFirst_text.word, fun w hw => by
      obtain ⟨l, -, rfl⟩ := List.mem_map.1 hw
      exact l.isFirst_text.word⟩)
  case lookupSwitch d cs =>
    exact operands_cons d.isFirst_text fun w hw => by
      obtain ⟨c, -, rfl⟩ := List.mem_map.1 hw
      exact isWord_case c
  case intConst v | longConst v => exact operands_one (isFirst_int _)
  case load k slot | store k slot | returnSubroutine slot => exact operands_one (isFirst_nat _)
  case branch c l | branchCompare c l | branchSame l | branchDistinct l | branchNull l | branchNonNull l | jump l
      | jumpSubroutine l => exact operands_one l.isFirst_text
  case getStatic f | putStatic f | getField f | putField f | invoke k m => exact operands_member hi
  case new t | newArray t | checkCast t | instanceOf t => exact operands_one hi
  case ret k => cases k <;> exact operands_nil
  all_goals exact operands_nil

/-- **The line of an instruction** is read as this instruction, and that of a label as this label -/
theorem reads_line (hi : i.Named) (rest : List Char) :
    Reads bodyLine (i.text.toList ++ '\n' :: rest) ('\n' :: rest) fun l => ∃ o, l = i.lineAt o := by
  have hplain (h : i.label? = none) (hs : ∀ s, i ≠ .stringConst s) (hat : ∀ o, i.lineAt o = .insn ⟨o, i.line.1,
      i.line.2.map .word⟩) : Reads bodyLine (i.text.toList ++ '\n' :: rest) ('\n' :: rest)
        fun l => ∃ o, l = i.lineAt o := by
    obtain ⟨hwords, hcolon⟩ := operands_line hi hs
    obtain ⟨c, cs, hcs, hc⟩ := spaced_line i.line.2 rest
    rw [toList_text h, List.append_assoc, hcs]
    refine (reads_insn (isOpcode_line i).1 (isOpcode_line i).2 hc (hcs ▸ refuses_colon hwords hcolon rest)
      (hcs ▸ reads_operands hwords rest)).mono fun l hl => ?_
    obtain ⟨o, rfl⟩ := hl
    exact ⟨o, (hat o).symm⟩
  cases i
  case label l =>
    have htext : (label l).text.toList ++ '\n' :: rest =
        l.text.toList ++ (List.replicate 0 ' ' ++ ':' :: '\n' :: rest) := by
      simp [text]
    rw [htext]
    exact reads_label l.text_ne (List.all_eq_true.2 fun c hc =>
      isNameChar_of_opcode (List.all_eq_true.1 l.opcode_text c hc)) 0
  case stringConst s =>
    have hliteral : (Text.Quoted.encode s).toList = quoted (Text.Quoted.encodeChars s.toList) := String.toList_ofList
    have htext : (stringConst s).text.toList = "ldc ".toList ++ quoted (Text.Quoted.encodeChars s.toList) := by
      rw [← hliteral]
      exact String.toList_append
    rw [htext]
    exact reads_constant (Text.Quoted.spelled_encodeChars s.toList) rest
  all_goals exact hplain rfl (fun _ => by simp) fun _ => rfl

end Insn

/-! ## regions and hints -/

/-- the words of a region -/
def TryCatch.words (t : TryCatch) : List String :=
  [t.catchType.getD "any", "from", t.start.text, "to", t.stop.text, "using", t.handler.text]

/-- the type of the region is read as this type -/
def TryCatch.Named (t : TryCatch) : Prop := ∀ type, t.catchType = some type → IsFirst type ∧ type ≠ "any"

/-- the words of a hint -/
def LocalVar.words (v : LocalVar) : List String :=
  [toString v.slot.toNat, v.name, v.desc, "from", v.start.text, "to", v.stop.text]

/-- name and descriptor of the hint are words -/
structure LocalVar.Named (v : LocalVar) : Prop where
  name : IsWord v.name
  desc : IsWord v.desc

namespace Assembly

theorem toList_catchText (t : TryCatch) : (catchText t).toList = directiveText "catch" t.words := by
  simp [catchText, directiveText, spaced, TryCatch.words]

theorem toList_varText (v : LocalVar) : (varText v).toList = directiveText "var" v.words := by
  simp [varText, directiveText, spaced, LocalVar.words]

theorem isWord_catch {t : TryCatch} (h : ∀ type, t.catchType = some type → IsWord type) : ∀ w ∈ t.words, IsWord w := by
  have htype : IsWord (t.catchType.getD "any") := by
    cases htype : t.catchType with
    | none => exact (by decide : IsWord "any")
    | some type => exact h type htype
  simp only [TryCatch.words, List.forall_mem_cons]
  exact ⟨htype, by decide, t.start.isFirst_text.word, by decide, t.stop.isFirst_text.word, by decide,
    t.handler.isFirst_text.word, fun _ hw => nomatch hw⟩

theorem isWord_var {v : LocalVar} (h : v.Named) : ∀ w ∈ v.words, IsWord w := by
  simp only [LocalVar.words, List.forall_mem_cons]
  exact ⟨(isFirst_nat v.slot.toNat).word, h.name, h.desc, by decide, v.start.isFirst_text.word, by decide,
    v.stop.isFirst_text.word, fun _ hw => nomatch hw⟩

theorem isDirective_catch {t : TryCatch} (h : t.Named) : IsDirective "catch" t.words := by
  refine ⟨by decide, by decide, isWord_catch fun type htype => (h type htype).1.word, fun w hw => ?_⟩
  obtain rfl : t.catchType.getD "any" = w := Option.some.inj hw
  cases htype : t.catchType with
  | none => exact (by decide : "any".toList.head? ≠ some ':')
  | some type => exact (h type htype).1.colon

theorem isDirective_var {v : LocalVar} (h : v.Named) : IsDirective "var" v.words :=
  ⟨by decide, by decide, isWord_var h, fun _ hw => Option.some.inj hw ▸ (isFirst_nat v.slot.toNat).colon⟩

/-! ## lines -/

/-- a line of a printed method -/
inductive MethodLine where
  | declares (x : Directive)
  | region (t : TryCatch)
  | hint (v : LocalVar)
  | code (i : Insn)

namespace MethodLine

/-- the text of the line, without indentation -/
def text : MethodLine → String
  | declares x => x.text
  | region t => catchText t
  | hint v => varText v
  | code i => i.text

/-- labels stand further out -/
def indent : MethodLine → Nat
  | code i => if i.isLabel then 6 else 8
  | _ => 8

/-- the line that is read at an offset -/
def lineAt (o : Nat) : MethodLine → BodyLine
  | declares x => .directive ⟨o, x.opcode, x.words.map .word⟩
  | region t => .directive ⟨o, "catch", t.words.map .word⟩
  | hint v => .directive ⟨o, "var", v.words.map .word⟩
  | code i => i.lineAt o

/-- the names in the line are words that can be told apart -/
def Named : MethodLine → Prop
  | declares x => x.Listed
  | region t => t.Named
  | hint v => v.Named
  | code i => i.Named

/-- **A line of a method** is read as what it was printed from -/
theorem reads {x : MethodLine} (h : x.Named) (rest : List Char) :
    Reads bodyLine (x.text.toList ++ '\n' :: rest) ('\n' :: rest) fun l => ∃ o, l = x.lineAt o := by
  cases x with
  | declares x => exact Directive.Listed.reads h rest
  | region t => exact toList_catchText t ▸ (isDirective_catch h).reads rest
  | hint v => exact toList_varText v ▸ (isDirective_var h).reads rest
  | code i => exact i.reads_line h rest

/-- no line starts with a blank or with a comment -/
theorem exists_plain (x : MethodLine) : ∃ c cs, x.text.toList = c :: cs ∧ isPlain c = true := by
  cases x with
  | declares x => exact ⟨'.', _, String.toList_ofList, by decide⟩
  | region t => exact ⟨'.', _, toList_catchText t, by decide⟩
  | hint v => exact ⟨'.', _, toList_varText v, by decide⟩
  | code i =>
    have hplain {op : String} (hop : IsOpcode op) (more : List Char) :
        ∃ c cs, op.toList ++ more = c :: cs ∧ isPlain c = true := by
      obtain ⟨c, cs, hcs⟩ := List.exists_cons_of_ne_nil hop.1
      exact ⟨c, cs ++ more, by rw [hcs]; rfl,
        isPlain_of_opcode (List.all_eq_true.1 hop.2 c (hcs ▸ List.mem_cons_self))⟩
    have hline := hplain i.isOpcode_line
    cases hi : i.label? with
    | none => exact i.toList_text hi ▸ hline _
    | some l =>
      cases i <;> cases hi
      exact String.toList_append (s := l.text) ▸ hline _

theorem skipLength_text (x : MethodLine) (rest : List Char) : skipLength (x.text.toList ++ rest) = 0 := by
  obtain ⟨c, cs, hcs, hc⟩ := x.exists_plain
  rw [hcs]
  exact skipLength_plain hc (cs ++ rest)

end MethodLine

/-- the lines of a method -/
def methodLines (t : RestoreTable) (owner : String) (m : Method) : List MethodLine :=
  ((declarationsFor t (m.id owner)).flatMap directivesOf).map .declares ++ m.tryCatches.map .region ++
    m.localVars.map .hint ++ m.code.map .code

theorem forall_mem_methodLines {t : RestoreTable} {owner : String} {m : Method} {P : MethodLine → Prop}
    (hentry : ∀ starts, P (.declares (.entry starts)))
    (hpoints : ∀ d ∈ declarationsFor t (m.id owner), ∀ r ∈ d.restorePoints, P (.declares (.await r)))
    (hregions : ∀ t ∈ m.tryCatches, P (.region t)) (hhints : ∀ v ∈ m.localVars, P (.hint v))
    (hcode : ∀ i ∈ m.code, P (.code i)) : ∀ x ∈ methodLines t owner m, P x := by
  simp only [methodLines, List.forall_mem_append, List.forall_mem_map]
  refine ⟨⟨⟨fun x hx => ?_, hregions⟩, hhints⟩, hcode⟩
  obtain ⟨d, hd, hx⟩ := List.mem_flatMap.1 hx
  rcases List.mem_append.1 hx with hx | hx
  · obtain ⟨starts, -, rfl⟩ := List.mem_map.1 hx
    exact hentry starts
  · obtain ⟨r, hr, rfl⟩ := List.mem_map.1 hx
    exact hpoints d hd r hr

/-! ## texts -/

theorem toList_lineText (n : Nat) (s : String) : (lineText n s).toList = indented n s.toList := by
  rw [lineText, String.toList_append, String.toList_append, toList_pushn, List.append_assoc]
  rfl

theorem toList_join_lines {α : Type} (as : List α) (indent : α → Nat) (text : α → String) :
    (String.join (as.map fun a => lineText (indent a) (text a))).toList =
      as.flatMap fun a => indented (indent a) (text a).toList := by
  rw [String.toList_join, List.flatMap_map]
  exact List.flatMap_congr fun a _ => toList_lineText _ _

/-- the head of a method, without indentation -/
def methodHead (m : Method) : String :=
  "method" ++ wordIf m.isStatic " static" ++ " " ++ m.name ++ " " ++ m.desc ++ " locals " ++
    toString m.maxLocals.toNat ++ " \x7b"

/-- the lines of a method as they are printed -/
def bodyText (xs : List MethodLine) : List Char := xs.flatMap fun x => indented x.indent x.text.toList

/-- **The text of a method** is its head, its lines and a brace -/
theorem toList_methodText (t : RestoreTable) (owner : String) (m : Method) : (methodText t owner m).toList =
    indented 4 (methodHead m).toList ++ bodyText (methodLines t owner m) ++ indented 4 ['\x7d'] := by
  have htext : methodText t owner m = lineText 4 (methodHead m) ++
      String.join (((declarationsFor t (m.id owner)).flatMap declarationLines).map (lineText 8)) ++
      String.join (m.tryCatches.map fun t => lineText 8 (catchText t)) ++
      String.join (m.localVars.map fun v => lineText 8 (varText v)) ++
      String.join (m.code.map insnLineText) ++ lineText 4 "\x7d" := rfl
  have hdeclared : (declarationsFor t (m.id owner)).flatMap declarationLines =
      ((declarationsFor t (m.id owner)).flatMap directivesOf).map Directive.text := by
    rw [List.map_flatMap]
    exact List.flatMap_congr fun d _ => declarationLines_eq d
  have hlines {α : Type} (as : List α) (make : α → MethodLine) : bodyText (as.map make) =
      (String.join (as.map fun a => lineText (make a).indent (make a).text)).toList := by
    rw [bodyText, List.flatMap_map, toList_join_lines]
  have hbody : bodyText (methodLines t owner m) =
      bodyText (((declarationsFor t (m.id owner)).flatMap directivesOf).map .declares) ++
        bodyText (m.tryCatches.map .region) ++ bodyText (m.localVars.map .hint) ++ bodyText (m.code.map .code) := by
    simp only [bodyText, methodLines, List.flatMap_append]
  rw [hbody, hlines, hlines, hlines, hlines, htext, hdeclared, List.map_map]
  simp only [String.toList_append, toList_lineText, List.append_assoc]
  rfl

end Assembly
end Resumable
