import Resumable.Proofs.PrintedLines

/-!
# Printed classes

The text of a class is its head and a block with its fields and its methods, and the text of a method is its head and a
block with its lines.  Each of them is read as what it was printed from, but for offsets; so is the text of a program.

* `IsName` : texts that are read as names;
* `RestatesMethod`, `RestatesClass` : trees of a text that say what a method and a class say;
* `reads_method`, `reads_class` : methods and classes are read as they were printed;
* `parse_listing` : so is a whole program.
-/

namespace Resumable.Assembly

open Reader

/-! ## names -/

/-- a text that the grammar reads as one name -/
structure IsName (w : String) : Prop where
  ne : w.toList ≠ []
  chars : w.toList.all isNameChar = true
  comment : ¬ ['/', '/'] <+: w.toList

instance (w : String) : Decidable (IsName w) :=
  decidable_of_iff (w.toList ≠ [] ∧ w.toList.all isNameChar = true ∧ ¬ ['/', '/'] <+: w.toList)
    ⟨fun h => ⟨h.1, h.2.1, h.2.2⟩, fun h => ⟨h.ne, h.chars, h.comment⟩⟩

section
variable {w : String} {c : Char} {cs rest : List Char} {ws : List String}

theorem skipLength_cons (hblank : isBlank c = false) (hcomment : commentLength (c :: cs) = 0) :
    skipLength (c :: cs) = 0 := by
  have hblanks : (c :: cs).takeWhile isBlank = [] := List.takeWhile_cons_of_neg (by simp [hblank])
  unfold skipLength
  simp only [hblanks, List.length_nil, List.drop_zero, hcomment]

theorem isBlank_of_isNameChar (h : isNameChar c = true) : isBlank c = false := by
  refine Bool.eq_false_iff.2 fun hblank => ?_
  rcases (EndsWord.cases (.inl hblank)) with rfl | rfl | rfl | rfl <;> exact absurd h (by decide)

/-- nothing is skipped in front of a name -/
theorem IsName.solid (h : IsName w) (hc : c ≠ '/') (rest : List Char) : skipLength (w.toList ++ c :: rest) = 0 := by
  have hchars := List.all_eq_true.1 h.chars
  have hcomment := h.comment
  obtain ⟨d, ds, hd⟩ := List.exists_cons_of_ne_nil h.ne
  rw [hd] at hchars hcomment
  have hname := hchars d List.mem_cons_self
  rw [hd, List.cons_append]
  refine skipLength_cons (isBlank_of_isNameChar hname) ?_
  unfold commentLength
  split
  · rename_i heq
    exact absurd ((List.cons.inj heq).1 ▸ hname) (by decide)
  · rename_i heq
    obtain ⟨rfl, htail⟩ := List.cons.inj heq
    cases ds with
    | nil => exact absurd (List.cons.inj htail).1 hc
    | cons e ds =>
      obtain ⟨rfl, -⟩ := List.cons.inj htail
      exact absurd ⟨ds, rfl⟩ hcomment
  · rfl

/-- **A name** is read up to a character that does not belong to it -/
theorem IsName.reads (h : IsName w) (hc : isNameChar c = false) (rest : List Char) :
    Reads name (w.toList ++ c :: rest) (c :: rest) (· = w) :=
  have hstop : ∀ d, (c :: rest).head? = some d → isNameChar d = false := fun _ hd => Option.some.inj hd ▸ hc
  (reads_token h.ne (List.all_eq_true.1 h.chars) hstop).mono fun _ ha => by rw [ha, String.ofList_toList]

/-- a name behind blanks, and in front of one -/
theorem IsName.reads_next (h : IsName w) (k : Nat) (rest : List Char) :
    Reads (next name) (List.replicate k ' ' ++ (w.toList ++ ' ' :: rest)) (' ' :: rest) (· = w) :=
  .next_blanks (h.solid (by decide) rest) (h.reads (by decide) rest)

/-- names with a blank in front of each of them, and of a brace -/
theorem sequence_names (h : ∀ w ∈ ws, IsName w) (rest : List Char) :
    Sequence name (spaced ws ++ ' ' :: '\x7b' :: rest) (' ' :: '\x7b' :: rest) (ws.map fun w a => a = w) := by
  induction ws with
  | nil => exact Sequence.last (k := 1) rfl (.rule (.bind fun _ => rfl))
  | cons w ws ih =>
    have hw : IsName w := h w List.mem_cons_self
    obtain ⟨cs, hcs⟩ : ∃ cs, spaced ws ++ ' ' :: '\x7b' :: rest = ' ' :: cs := by
      cases ws with
      | nil => exact ⟨_, rfl⟩
      | cons v ws => exact ⟨_, rfl⟩
    have htext : spaced (w :: ws) ++ ' ' :: '\x7b' :: rest = List.replicate 1 ' ' ++ (w.toList ++ ' ' :: cs) := by
      rw [← hcs]
      simp [spaced]
    have hmore := ih fun v hv => h v (List.mem_cons_of_mem _ hv)
    rw [hcs] at hmore
    rw [htext]
    have hpos := List.length_pos_iff.2 hw.ne
    exact Sequence.part (hw.solid (by decide) cs) (hw.reads (by decide) cs) (by simp; omega) hmore

end

/-! ## fields and methods -/

/-- the line of a field, without indentation -/
def fieldHead (f : Field) : String := "field" ++ wordIf f.isStatic " static" ++ " " ++ f.name ++ " " ++ f.desc

section
variable {n d : String} {rest : List Char}

/-- the word `static` or none, in front of a name -/
theorem reads_static (isStatic : Bool) (hn : IsName n) (hstatic : isStatic = false → n ≠ "static") (rest : List Char) :
    ∃ k, Reads (next (optional staticWord))
      ((wordIf isStatic " static").toList ++ ' ' :: (n.toList ++ ' ' :: rest))
      (List.replicate k ' ' ++ (n.toList ++ ' ' :: rest)) fun o => o.isSome = isStatic := by
  cases isStatic with
  | true =>
    have hword : Reads staticWord ("static".toList ++ ' ' :: (n.toList ++ ' ' :: rest))
        (' ' :: (n.toList ++ ' ' :: rest)) fun _ => True :=
      .rule (.bind (reads_word _ _) fun _ _ o => ⟨(), o, rfl, trivial⟩)
    exact ⟨1, Reads.next_blanks (k := 1) rfl (hword.optional.mono fun _ ⟨_, ho, _⟩ => ho ▸ rfl)⟩
  | false =>
    have hword : Refuses staticWord (n.toList ++ ' ' :: rest) := by
      cases hprefix : "static".toList.isPrefixOf (n.toList ++ ' ' :: rest) with
      | false => exact .rule (.bind (refuses_word hprefix))
      | true =>
        obtain ⟨more, hmore⟩ := List.isPrefixOf_iff_prefix.1 hprefix
        -- up to the blank there are name characters, so the name goes on behind the word
        have hname : "static".toList ++ more.takeWhile isNameChar = n.toList := by
          have htake := congrArg (List.takeWhile isNameChar) hmore
          have hchars : "static".toList.all isNameChar = true := by decide
          rwa [List.takeWhile_append_of_pos (List.all_eq_true.1 hchars),
            List.takeWhile_append_of_pos (List.all_eq_true.1 hn.chars),
            List.takeWhile_cons_of_neg (by decide), List.append_nil] at htake
        have hlonger : more.takeWhile isNameChar ≠ [] := fun hnil =>
          hstatic rfl (String.toList_inj.1 (by rw [← hname, hnil, List.append_nil]))
        rw [← hmore]
        refine .rule (Reads.refuses (reads_word _ more) fun _ _ o => ?_)
        unfold notFollowedBy
        cases more with
        | nil => exact absurd rfl hlonger
        | cons c more =>
          have hc : isNameChar c = true := by
            by_contra hc
            exact hlonger (List.takeWhile_cons_of_neg hc)
          simp only [hc, if_true]
    exact ⟨0, Reads.next_blanks (k := 1) (hn.solid (by decide) rest) (hword.optional.mono fun _ ho => ho ▸ rfl)⟩

/-- name and descriptor of a field or a method can be told apart in its line -/
structure IsDeclared (isStatic : Bool) (n d : String) : Prop where
  name : IsName n
  desc : IsName d
  static : isStatic = false → n ≠ "static"

/-- **A field** is read as it was printed -/
theorem reads_field {f : Field} (hf : IsDeclared f.isStatic f.name f.desc) (rest : List Char) :
    Reads member ((fieldHead f).toList ++ '\n' :: rest) ('\n' :: rest) (· = .field ⟨f.isStatic, f.name, f.desc⟩) := by
  have htext : (fieldHead f).toList ++ '\n' :: rest = "field".toList ++ ((wordIf f.isStatic " static").toList ++
      ' ' :: (f.name.toList ++ ' ' :: (f.desc.toList ++ '\n' :: rest))) := by
    simp [fieldHead]
  obtain ⟨k, hword⟩ := reads_static f.isStatic hf.name hf.static (f.desc.toList ++ '\n' :: rest)
  have hdesc : Reads (next name) (' ' :: (f.desc.toList ++ '\n' :: rest)) ('\n' :: rest) (· = f.desc) :=
    .next_blanks (k := 1) (hf.desc.solid (by decide) rest) (hf.desc.reads (by decide) rest)
  rw [htext]
  refine .orElse (.rule (.bind (reads_word _ _) fun _ _ => .bind hword fun _ hs =>
    .bind (hf.name.reads_next k _) fun _ hn => .bind hdesc fun _ hd => ?_))
  rw [hs, hn, hd]
  exact reads_pure _ _

/-- **The number of locals** is read as it was printed -/
theorem reads_locals (count : Nat) (rest : List Char) :
    Reads localsClause ("locals".toList ++ ' ' :: ((toString count).toList ++ ' ' :: rest)) (' ' :: rest)
      fun c => ∃ o, c = ⟨o, toString count⟩ := by
  have hdigits : (toString count).toList = Decimal.Layout.digits count := Nat.toList_repr
  have hall : ∀ c ∈ (toString count).toList, isPlain c = true := fun c hc =>
    isPlain_of_opcode (isOpcodeChar_of_isDigit (Decimal.isDigit_of_mem_digits (hdigits ▸ hc)))
  have hne : (toString count).toList ≠ [] := hdigits ▸ (Decimal.isDigits_digits count).ne_nil
  have hsolid : skipLength ((toString count).toList ++ ' ' :: rest) = 0 := by
    obtain ⟨c, cs, hcs⟩ := List.exists_cons_of_ne_nil hne
    rw [hcs]
    exact skipLength_plain (hall c (hcs ▸ List.mem_cons_self)) _
  have hnumber : Reads number ((toString count).toList ++ ' ' :: rest) (' ' :: rest) (· = toString count) :=
    (reads_token hne (fun c hc => Decimal.isDigit_of_mem_digits (hdigits ▸ hc))
      fun c hc => Option.some.inj hc ▸ by decide).mono fun _ ha => by rw [ha, String.ofList_toList]
  refine .rule (.bind (reads_offset _) fun o _ => .bind (reads_word _ _) fun _ _ =>
    .bind (.next_blanks (k := 1) hsolid hnumber) fun _ ha => ?_)
  rw [ha]
  exact (reads_pure _ _).mono fun _ hc => ⟨o, hc⟩

/-- the tree of a method that says what the method says -/
def RestatesMethod (t : RestoreTable) (owner : String) (m : Method) (x : Member) : Prop :=
  ∃ o o' body, x = .method ⟨o, m.isStatic, m.name, m.desc, some ⟨o', toString m.maxLocals.toNat⟩, body⟩ ∧
    List.Forall₂ (fun (y : MethodLine) l => ∃ o, l = y.lineAt o) (methodLines t owner m) body

/-- the text of a method without the blanks in front of it and the end of its last line -/
def methodBlock (t : RestoreTable) (owner : String) (m : Method) : List Char :=
  (methodHead m).toList ++ '\n' :: (bodyText (methodLines t owner m) ++ (List.replicate 4 ' ' ++ ['\x7d']))

/-- **A method** is read as it was printed -/
theorem reads_method {t : RestoreTable} {owner : String} {m : Method} (hm : IsDeclared m.isStatic m.name m.desc)
    (hlines : ∀ x ∈ methodLines t owner m, x.Named) (rest : List Char) :
    Reads member (methodBlock t owner m ++ rest) rest (RestatesMethod t owner m) := by
  generalize hxs : methodLines t owner m = xs at hlines
  have htext : methodBlock t owner m ++ rest = "method".toList ++ ((wordIf m.isStatic " static").toList ++
      ' ' :: (m.name.toList ++ ' ' :: (m.desc.toList ++ ' ' :: ("locals".toList ++ ' ' ::
      ((toString m.maxLocals.toNat).toList ++ ' ' :: '\x7b' :: '\n' :: ((xs.map some).flatMap
      (lineOf MethodLine.indent fun x => x.text.toList) ++ (List.replicate 4 ' ' ++ '\x7d' :: rest))))))) := by
    rw [List.flatMap_map, methodBlock, hxs]
    simp [methodHead, bodyText, lineOf]
  generalize hbody : (xs.map some).flatMap (lineOf MethodLine.indent fun x => x.text.toList) ++
    (List.replicate 4 ' ' ++ '\x7d' :: rest) = text at htext
  have hblock : Reads (block bodyLine) ('\x7b' :: '\n' :: text) rest
      (List.Forall₂ (fun (y : MethodLine) l => ∃ o, l = y.lineAt o) xs) := by
    have hread : Reads (block bodyLine) ('\x7b' :: '\n' :: ((xs.map some).flatMap
        (lineOf MethodLine.indent fun x => x.text.toList) ++ (List.replicate 4 ' ' ++ '\x7d' :: rest))) rest
        (List.Forall₂ (fun (y : MethodLine) l => ∃ o, l = y.lineAt o) ((xs.map some).filterMap id)) :=
      reads_printedBlock 4 (fun x _ => x.skipLength_text _)
        (fun x hx rest => MethodLine.reads (hlines x (by simpa using hx)) rest)
        (fun _ => refuses_bodyLine (by decide)) (refuses_bodyLine (by decide))
    rwa [hbody, List.filterMap_map, Function.id_comp, List.filterMap_some] at hread
  obtain ⟨k, hword⟩ := reads_static m.isStatic hm.name hm.static (m.desc.toList ++ ' ' :: ("locals".toList ++ ' ' ::
      ((toString m.maxLocals.toNat).toList ++ ' ' :: '\x7b' :: '\n' :: text)))
  have hlocals := (reads_locals m.maxLocals.toNat ('\x7b' :: '\n' :: text)).optional
  have hfield : Refuses fieldDecl ("method".toList ++ ((wordIf m.isStatic " static").toList ++
      ' ' :: (m.name.toList ++ ' ' :: (m.desc.toList ++ ' ' :: ("locals".toList ++ ' ' ::
      ((toString m.maxLocals.toNat).toList ++ ' ' :: '\x7b' :: '\n' :: text)))))) :=
    .rule (.bind (refuses_word rfl))
  rw [htext]
  refine hfield.orElse (.rule (.bind (reads_offset _) fun o _ => .bind (reads_word _ _) fun _ _ =>
    .bind hword fun _ hs => .bind (hm.name.reads_next k _) fun _ hn => .bind (hm.desc.reads_next 1 _) fun _ hd =>
    .bind (.next_blanks (k := 1) rfl hlocals) fun _ hl =>
    .bind (.next_blanks (k := 1) rfl hblock) fun body hbody => ?_))
  obtain ⟨_, rfl, o', rfl⟩ := hl
  rw [hs, hn, hd]
  exact (reads_pure _ _).mono fun _ hx => ⟨o, o', body, hx, hxs ▸ hbody⟩

end

/-! ## heads of classes -/

section
variable {ws : List String} {rest : List Char}

/-- the superclass that the head of a class names -/
def shownSuper? (c : ClassDef) : Option String := c.superName.filter (· != objectType)

/-- the text from the interfaces in the head of a class on -/
def interfacesText (ws : List String) (rest : List Char) : List Char :=
  if ws = [] then '\x7b' :: rest else "implements".toList ++ (spaced ws ++ ' ' :: '\x7b' :: rest)

theorem interfacesText_solid (ws : List String) (rest : List Char) : skipLength (interfacesText ws rest) = 0 := by
  unfold interfacesText
  split <;> rfl

theorem reads_interfaces (h : ∀ w ∈ ws, IsName w) (k : Nat) (rest : List Char) :
    ∃ j, Reads (next (optional implementsClause)) (List.replicate k ' ' ++ interfacesText ws rest)
      (List.replicate j ' ' ++ '\x7b' :: rest) fun o => o.getD [] = ws := by
  cases ws with
  | nil =>
    have hnone : Refuses implementsClause ('\x7b' :: rest) := .rule (.bind (refuses_word rfl))
    exact ⟨0, .next_blanks rfl (hnone.optional.mono fun _ ho => ho ▸ rfl)⟩
  | cons w ws =>
    have hnames := (sequence_names h rest).many1
    have hclause : Reads implementsClause ("implements".toList ++ (spaced (w :: ws) ++ ' ' :: '\x7b' :: rest))
        (' ' :: '\x7b' :: rest) (· = w :: ws) := by
      refine .rule (.bind (reads_word _ _) fun _ _ => hnames.mono fun as has => ?_)
      rw [← List.map_cons (f := fun (w a : String) => a = w), List.forall₂_map_left_iff] at has
      exact (List.forall₂_eq_eq_eq ▸ has.flip)
    exact ⟨1, .next_blanks rfl (hclause.optional.mono fun _ ⟨_, ho, has⟩ => by rw [ho, has]; rfl)⟩

/-- the superclass, if there is one, and what follows it -/
def superText (s : Option String) (tail : List Char) : List Char :=
  match s with
  | none => ' ' :: tail
  | some w => ' ' :: ("extends".toList ++ ' ' :: (w.toList ++ ' ' :: tail))

theorem reads_super {s : Option String} (hs : ∀ w ∈ s, IsName w) {tail : List Char} (hsolid : skipLength tail = 0)
    (htail : "extends".toList.isPrefixOf tail = false) :
    ∃ k, Reads (next (optional extendsClause)) (superText s tail) (List.replicate k ' ' ++ tail) (· = s) := by
  cases s with
  | none =>
    have hnone : Refuses extendsClause tail := .rule (.bind (refuses_word htail))
    exact ⟨0, Reads.next_blanks (k := 1) hsolid hnone.optional⟩
  | some w =>
    have hclause : Reads extendsClause ("extends".toList ++ ' ' :: (w.toList ++ ' ' :: tail)) (' ' :: tail) (· = w) :=
      .rule (.bind (reads_word _ _) fun _ _ => (hs w rfl).reads_next 1 tail)
    exact ⟨1, Reads.next_blanks (k := 1) rfl (hclause.optional.mono fun _ ⟨_, ho, ha⟩ => by rw [ho, ha])⟩

theorem toList_classHead (c : ClassDef) (rest : List Char) : (classHead c).toList ++ rest =
    "class".toList ++ ' ' :: (c.name.toList ++ superText (shownSuper? c) (interfacesText c.interfaces rest)) := by
  have hinterfaces :
      (wordIf (!c.interfaces.isEmpty) (" implements " ++ " ".intercalate c.interfaces) ++ " \x7b").toList ++
      rest = ' ' :: interfacesText c.interfaces rest := by
    unfold interfacesText
    cases c.interfaces with
    | nil => rfl
    | cons w ws =>
      have hnames := Insn.toList_intercalate_blank w ws
      simp [wordIf, spaced, hnames]
  unfold classHead shownSuper? superText
  cases c.superName with
  | none => simp [← hinterfaces]
  | some s =>
    cases hs : s != objectType with
    | false => simp [wordIf, Option.filter, hs, ← hinterfaces]
    | true => simp [wordIf, Option.filter, hs, ← hinterfaces]

end

/-! ## classes -/

/-- a field or a method of a tree that says what a field or a method says -/
def RestatesMember (t : RestoreTable) (owner : String) : Field ⊕ Method → Member → Prop
  | .inl f, x => x = .field ⟨f.isStatic, f.name, f.desc⟩
  | .inr m, x => RestatesMethod t owner m x

/-- the text of a field or a method, without the blanks in front of it -/
def memberText (t : RestoreTable) (owner : String) : Field ⊕ Method → List Char
  | .inl f => (fieldHead f).toList
  | .inr m => methodBlock t owner m

/-- the lines of a class, those of its fields and of whole methods, and empty ones -/
def classLines (c : ClassDef) : List (Option (Field ⊕ Method)) :=
  c.fields.map (fun f => some (.inl f)) ++ (if c.fields.isEmpty || c.methods.isEmpty then [] else [none]) ++
    (c.methods.map fun m => some (.inr m)).intersperse none

/-- the tree of a class that says what the class says -/
structure RestatesClass (t : RestoreTable) (c : ClassDef) (cd : ClassDecl) : Prop where
  name : cd.name = c.name
  super : cd.superName = shownSuper? c
  interfaces : cd.interfaces = c.interfaces
  members : List.Forall₂ (RestatesMember t c.name) (c.fields.map .inl ++ c.methods.map .inr) cd.members

/-- all names in the text of a class can be read -/
structure ClassNamed (t : RestoreTable) (c : ClassDef) : Prop where
  name : IsName c.name
  super : ∀ s ∈ c.superName, IsName s
  interfaces : ∀ s ∈ c.interfaces, IsName s
  fields : ∀ f ∈ c.fields, IsDeclared f.isStatic f.name f.desc
  methods : ∀ m ∈ c.methods, IsDeclared m.isStatic m.name m.desc
  lines : ∀ m ∈ c.methods, ∀ x ∈ methodLines t c.name m, x.Named

section
variable {t : RestoreTable} {c : ClassDef} {rest : List Char}

theorem toList_fieldText (f : Field) : (fieldText f).toList = indented 4 (fieldHead f).toList := toList_lineText _ _

theorem toList_methodText_eq (t : RestoreTable) (owner : String) (m : Method) :
    (methodText t owner m).toList = indented 4 (methodBlock t owner m) := by
  rw [toList_methodText]
  simp [indented, methodBlock]

theorem map_intersperse {α β : Type} (f : α → β) (sep : α) (as : List α) :
    (as.intersperse sep).map f = (as.map f).intersperse (f sep) := by
  induction as with
  | nil => rfl
  | cons a as ih =>
    cases as with
    | nil => rfl
    | cons b as =>
      rw [List.intersperse_cons_cons, List.map_cons, List.map_cons, ih]
      rfl

/-- **The text of a class** is its head and its lines between braces -/
theorem toList_classText (t : RestoreTable) (c : ClassDef) : (classText t c).toList = (classHead c).toList ++
    '\n' :: ((classLines c).flatMap (lineOf (fun _ => 4) (memberText t c.name)) ++ ['\x7d', '\n']) := by
  have hfields : (String.join (c.fields.map fieldText)).toList =
      (c.fields.map fun f => some (.inl f)).flatMap (lineOf (fun _ => 4) (memberText t c.name)) := by
    rw [String.toList_join, List.flatMap_map, List.flatMap_map]
    exact List.flatMap_congr fun f _ => toList_fieldText f
  have hmethods : ("\n".intercalate (c.methods.map (methodText t c.name))).toList =
      ((c.methods.map fun m => some (.inr m)).intersperse none).flatMap (lineOf (fun _ => 4) (memberText t c.name)) := by
    rw [String.toList_intercalate, List.map_map, List.intercalate, List.flatMap_def, map_intersperse, List.map_map]
    exact congrArg (fun ls => (List.intersperse ['\n'] ls).flatten)
      (List.map_congr_left fun m _ => toList_methodText_eq t c.name m)
  have hgap : (wordIf (!c.fields.isEmpty && !c.methods.isEmpty) "\n").toList =
      (if c.fields.isEmpty || c.methods.isEmpty then [] else [none]).flatMap
        (lineOf (fun _ => 4) (memberText t c.name)) := by
    cases c.fields.isEmpty <;> cases c.methods.isEmpty <;> rfl
  have htext : classText t c = lineText 0 (classHead c) ++ String.join (c.fields.map fieldText) ++
      wordIf (!c.fields.isEmpty && !c.methods.isEmpty) "\n" ++
      "\n".intercalate (c.methods.map (methodText t c.name)) ++ lineText 0 "\x7d" := rfl
  rw [htext, classLines]
  simp only [String.toList_append, List.flatMap_append, hfields, hgap, hmethods, toList_lineText]
  simp [indented]

theorem classLines_members (c : ClassDef) :
    (classLines c).filterMap id = c.fields.map .inl ++ c.methods.map .inr := by
  have hgap : (if c.fields.isEmpty || c.methods.isEmpty then [] else [none]).filterMap id =
      ([] : List (Field ⊕ Method)) := by
    split <;> rfl
  have hmethods (ms : List Method) : ((ms.map fun m => some (.inr m)).intersperse none).filterMap id =
      ms.map (Sum.inr (α := Field)) := by
    induction ms with
    | nil => rfl
    | cons m ms ih =>
      cases ms with
      | nil => rfl
      | cons m' ms =>
        rw [List.map_cons, List.map_cons, List.intersperse_cons_cons, List.map_cons]
        exact congrArg _ ih
  have hfields : (c.fields.map fun f => some (.inl f)).filterMap id = c.fields.map (Sum.inl (β := Method)) := by
    rw [List.filterMap_map]
    exact congrFun List.filterMap_eq_map' _
  rw [classLines, List.filterMap_append, List.filterMap_append, hgap, hfields, hmethods, List.append_nil]

theorem memberText_solid (owner : String) (x : Field ⊕ Method) (rest : List Char) :
    skipLength (memberText t owner x ++ rest) = 0 := by
  have hhead : ∃ d cs, memberText t owner x = d :: cs ∧ isPlain d = true := by
    cases x with
    | inl f =>
      exact ⟨'f', _, by simp only [memberText, fieldHead, String.toList_append, List.append_assoc]; rfl, by decide⟩
    | inr m =>
      exact ⟨'m', _, by simp only [memberText, methodBlock, methodHead, String.toList_append, List.append_assoc]; rfl,
        by decide⟩
  obtain ⟨d, cs, hcs, hd⟩ := hhead
  rw [hcs]
  exact skipLength_plain hd (cs ++ rest)

theorem refuses_member {d : Char} (hf : d ≠ 'f') (hm : d ≠ 'm') (rest : List Char) : Refuses member (d :: rest) := by
  have hfield : "field".toList.isPrefixOf (d :: rest) = false := by
    simp [List.isPrefixOf, Ne.symm hf]
  have hmethod : "method".toList.isPrefixOf (d :: rest) = false := by
    simp [List.isPrefixOf, Ne.symm hm]
  exact .orElse_refuses (.rule (.bind (refuses_word hfield)))
    (.rule (Reads.refuses (reads_offset _) fun _ _ => .bind (refuses_word hmethod)))

/-- **A class** is read as it was printed -/
theorem reads_class (h : ClassNamed t c) (rest : List Char) :
    Reads classDecl ((classHead c).toList ++ '\n' ::
      ((classLines c).flatMap (lineOf (fun _ => 4) (memberText t c.name)) ++ '\x7d' :: rest)) rest
      (RestatesClass t c) := by
  have hmember (x : Field ⊕ Method) (hx : some x ∈ classLines c) (more : List Char) :
      Reads member (memberText t c.name x ++ '\n' :: more) ('\n' :: more) (RestatesMember t c.name x) := by
    have hmem : x ∈ c.fields.map .inl ++ c.methods.map .inr :=
      classLines_members c ▸ List.mem_filterMap.2 ⟨some x, hx, rfl⟩
    rcases List.mem_append.1 hmem with hmem | hmem
    · obtain ⟨f, hf, rfl⟩ := List.mem_map.1 hmem
      exact reads_field (h.fields f hf) more
    · obtain ⟨m, hm, rfl⟩ := List.mem_map.1 hmem
      exact reads_method (h.methods m hm) (h.lines m hm) ('\n' :: more)
  have hblock : Reads (block member) ('\x7b' :: '\n' :: ((classLines c).flatMap
      (lineOf (fun _ => 4) (memberText t c.name)) ++ (List.replicate 0 ' ' ++ '\x7d' :: rest))) rest
      (List.Forall₂ (RestatesMember t c.name) ((classLines c).filterMap id)) :=
    reads_printedBlock 0 (fun x more => memberText_solid (t := t) c.name x ('\n' :: more)) hmember
      (fun more => refuses_member (by decide) (by decide) more) (refuses_member (by decide) (by decide) rest)
  rw [classLines_members] at hblock
  generalize hbody : (classLines c).flatMap (lineOf (fun _ => 4) (memberText t c.name)) ++
    '\x7d' :: rest = body
  have hbody' : (classLines c).flatMap (lineOf (fun _ => 4) (memberText t c.name)) ++
    (List.replicate 0 ' ' ++ '\x7d' :: rest) = body := hbody
  rw [hbody'] at hblock
  have htail : "extends".toList.isPrefixOf (interfacesText c.interfaces ('\n' :: body)) = false := by
    unfold interfacesText
    split <;> rfl
  obtain ⟨k, hsuper⟩ := reads_super (s := shownSuper? c) (fun w hw => h.super w (Option.filter_eq_some_iff.1 hw).1)
    (interfacesText_solid c.interfaces ('\n' :: body)) htail
  obtain ⟨j, hinterfaces⟩ := reads_interfaces h.interfaces k ('\n' :: body)
  obtain ⟨tail, htext⟩ :
      ∃ tail, superText (shownSuper? c) (interfacesText c.interfaces ('\n' :: body)) = ' ' :: tail := by
    unfold superText
    split <;> exact ⟨_, rfl⟩
  have hname := h.name.reads_next 1 tail
  rw [← htext] at hname
  rw [toList_classHead]
  refine .rule (.bind (reads_offset _) fun o _ => .bind (reads_word _ _) fun _ _ => .bind hname fun _ hn =>
    .bind hsuper fun _ hs => .bind hinterfaces fun _ hi => .bind (.next_blanks rfl hblock) fun _ hms => ?_)
  exact (reads_pure _ _).mono fun _ hcd => hcd ▸ ⟨hn, hs, hi, hms⟩

/-! ## programs -/

/-- ends of lines, as many as there are -/
theorem reads_lineEnds (k : Nat) (hend : Refuses lineEnd (rest.drop (skipLength rest))) :
    Reads (next (many lineEnd)) (List.replicate (k + 1) '\n' ++ rest) rest fun _ => True := by
  have hends : ∀ k, Sequence lineEnd (List.replicate k '\n' ++ rest) rest (List.replicate k fun _ => True) := by
    intro k
    induction k with
    | zero => exact .nil hend
    | succ k ih =>
      exact .part (k := 0) rfl (fun o => ⟨(), o + 1, rfl, trivial⟩) (Nat.lt_succ_self _) ih
  exact (hends (k + 1)).many_cons.mono fun _ _ => trivial

/-- a class with the ends of lines behind it -/
theorem reads_classText (h : ClassNamed t c) (k : Nat) (rest : List Char)
    (hend : Refuses lineEnd (rest.drop (skipLength rest))) :
    Reads classAndEnds ((classText t c).toList ++ (List.replicate k '\n' ++ rest)) rest (RestatesClass t c) := by
  have htext : (classText t c).toList ++ (List.replicate k '\n' ++ rest) = (classHead c).toList ++ '\n' ::
      ((classLines c).flatMap (lineOf (fun _ => 4) (memberText t c.name)) ++
        '\x7d' :: (List.replicate (k + 1) '\n' ++ rest)) := by
    rw [toList_classText, List.replicate_succ]
    simp
  rw [htext]
  exact .bind (reads_class h _) fun _ hc => .bind (reads_lineEnds k hend) fun _ _ =>
    (reads_pure _ rest).mono fun _ heq => heq ▸ hc

theorem exists_classText (t : RestoreTable) (c : ClassDef) : ∃ cs, (classText t c).toList = 'c' :: cs := by
  rw [toList_classText, classHead]
  simp only [String.toList_append, List.append_assoc]
  exact ⟨_, rfl⟩

/-- the texts of classes with empty lines between them -/
theorem sequence_classes {cs : List ClassDef} (h : ∀ c ∈ cs, ClassNamed t c) :
    Sequence classAndEnds (['\n'].intercalate (cs.map fun c => (classText t c).toList)) []
      (cs.map (RestatesClass t)) := by
  induction cs with
  | nil => exact .nil (.bind (.rule (Reads.refuses (reads_offset _) fun _ _ => .bind fun _ => rfl)))
  | cons c cs ih =>
    have hc := h c List.mem_cons_self
    have hmore := ih fun c' hc' => h c' (List.mem_cons_of_mem _ hc')
    obtain ⟨text, htext⟩ := exists_classText t c
    have hsolid (more : List Char) : skipLength ((classText t c).toList ++ more) = 0 := by
      rw [htext]
      exact skipLength_plain (by decide) _
    cases cs with
    | nil =>
      have hread := reads_classText hc 0 [] fun _ => rfl
      rw [List.replicate_zero, List.nil_append] at hread
      have hpart := Sequence.part (k := 0) (hsolid []) hread (by simp [htext]) hmore
      rw [List.append_nil] at hpart
      simpa using hpart
    | cons c' cs =>
      rw [List.map_cons, List.map_cons, List.intercalate_cons_cons]
      generalize hrest : ['\n'].intercalate ((classText t c').toList :: cs.map fun c => (classText t c).toList) = rest
      obtain ⟨text', htext'⟩ := exists_classText t c'
      obtain ⟨more, rfl⟩ : ∃ more, rest = 'c' :: more := by
        rw [← hrest]
        cases cs <;> simp [htext']
      have hread := reads_classText hc 1 ('c' :: more) fun _ => rfl
      rw [List.map_cons, hrest] at hmore
      have hpart := Sequence.part (k := 0) (hsolid _) hread (by simp [htext]; omega) hmore
      simpa using hpart

/-- **The text of a program** is read as it was printed -/
theorem parse_listing {p : Program} (h : ∀ e ∈ p.classes, ClassNamed t e.2) :
    ∃ cds, Source.parse (listing p t) = .ok cds ∧
      List.Forall₂ (fun (e : String × ClassDef) cd => RestatesClass t e.2 cd) p.classes cds := by
  have htext : (listing p t).toList =
      ['\n'].intercalate ((p.classes.map Prod.snd).map fun c => (classText t c).toList) := by
    rw [listing, String.toList_intercalate, List.map_map, List.map_map]
    rfl
  have hnamed : ∀ c ∈ p.classes.map Prod.snd, ClassNamed t c := List.forall_mem_map.2 h
  have hclasses := sequence_classes hnamed
  rw [← htext] at hclasses
  have hfirst : (listing p t).toList = [] ∨ ∃ cs, (listing p t).toList = 'c' :: cs := by
    rw [htext]
    cases p.classes with
    | nil => exact .inl rfl
    | cons e es =>
      obtain ⟨cs, hcs⟩ := exists_classText t e.2
      cases es <;> simp [hcs]
  have hends : Reads (next (many lineEnd)) (listing p t).toList (listing p t).toList fun _ => True := by
    rcases hfirst with hfirst | ⟨cs, hfirst⟩
    · rw [hfirst]
      exact .next ((reads_many_nil fun _ => rfl).mono fun _ _ => trivial)
    · rw [hfirst]
      exact .next ((reads_many_nil fun _ => rfl).mono fun _ _ => trivial)
  obtain ⟨j, hmany⟩ := Sequence.many (k := 0) hclasses rfl
  have hend : Reads (rule endOfText) [] [] fun _ => True := .rule fun o => ⟨(), o, rfl, trivial⟩
  have hsource : Reads source (listing p t).toList [] (List.Forall₂ (fun P a => P a) ((p.classes.map Prod.snd).map
      (RestatesClass t))) :=
    .rule (.bind hends fun _ _ => .bind hmany fun _ hcds => .bind (.next_blanks rfl hend) fun _ _ =>
      (reads_pure _ []).mono fun _ heq => heq ▸ hcds)
  obtain ⟨cds, o, hfound, hcds⟩ := hsource 0
  refine ⟨cds, ?_, ?_⟩
  · unfold Source.parse
    simp only [hfound]
  · rwa [List.map_map, List.forall₂_map_left_iff] at hcds

end
end Resumable.Assembly
