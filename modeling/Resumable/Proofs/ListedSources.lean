import Resumable.Proofs.ParsedPrograms

/-!
# Sources, printed and built again

In a listing no directive has a blank behind its dot, so what is built from a listing has no restore point and no type
of a region that starts with a colon: there the directive would be read as a label.  A source may have them.  These are
the only ones that a listing loses: every other source is built again from its listing, and then nothing changes any
more.

* `TidyLine`, `Tidy` : texts whose directives have no blank behind their dots;
* `tidy_listing` : listings are such texts;
* `colonFree_of_tidy` : what is built from such a text has no colons where a listing would lose them;
* `Relisted`, `relisted_iff` : a source is built again from its listing exactly if it has none of these colons.
-/

namespace Resumable

open Assembly Reader

/-! ## texts of one line -/

/-- no line ends within the text -/
def OneLine (cs : List Char) : Prop := ∀ c ∈ cs, isLineEnd c = false

instance (cs : List Char) : Decidable (OneLine cs) := List.decidableBAll (fun c => isLineEnd c = false) cs

section
variable {cs ds : List Char} {w : String} {ws : List String}

theorem OneLine.append (h : OneLine cs) (h' : OneLine ds) : OneLine (cs ++ ds) := List.forall_mem_append.2 ⟨h, h'⟩

theorem OneLine.cons {c : Char} (hc : isLineEnd c = false) (h : OneLine cs) : OneLine (c :: cs) :=
  List.forall_mem_cons.2 ⟨hc, h⟩

theorem oneLine_nil : OneLine [] := fun _ hc => (List.not_mem_nil hc).elim

theorem oneLine_replicate (k : Nat) : OneLine (List.replicate k ' ') := fun c hc => by
  rw [List.eq_of_mem_replicate hc]
  decide

theorem oneLine_of_name (h : cs.all isNameChar = true) : OneLine cs := by
  intro c hc
  refine Bool.eq_false_iff.2 fun hend => ?_
  have hname := EndsWord.not_name (.inr hend)
  simp [List.all_eq_true.1 h c hc] at hname

theorem oneLine_of_opcode (h : cs.all isOpcodeChar = true) : OneLine cs :=
  oneLine_of_name (List.all_eq_true.2 fun c hc => isNameChar_of_opcode (List.all_eq_true.1 h c hc))

theorem Assembly.IsName.oneLine (h : IsName w) : OneLine w.toList := oneLine_of_name h.chars

theorem Assembly.IsWord.oneLine (h : IsWord w) : OneLine w.toList := by
  have hwhole := h.whole
  generalize w.toList = cs at hwhole
  -- a word that is read as a whole has no character that would end it
  induction cs with
  | nil => exact oneLine_nil
  | cons c cs ih =>
    obtain ⟨hends, -, -, -, hlen⟩ := wordLength_cons (by rw [hwhole]; exact Nat.succ_ne_zero _)
    exact .cons (by simpa using fun hend => hends (.inr hend)) (ih (Nat.succ.inj (hlen.symm.trans hwhole)))

theorem oneLine_spaced (h : ∀ w ∈ ws, OneLine w.toList) : OneLine (spaced ws) := by
  intro c hc
  obtain ⟨w, hw, hc⟩ := List.mem_flatMap.1 hc
  rcases List.mem_cons.1 hc with rfl | hc
  · decide
  · exact h w hw c hc

/-- a literal is written without line ends -/
theorem oneLine_encodeChars (cs : List Char) : OneLine (Text.Quoted.encodeChars cs) := by
  have hchar (c : Char) : OneLine (Text.Quoted.encodeChar c) := by
    unfold Text.Quoted.encodeChar
    split
    -- characters without an escape of their own; ends of lines have one
    case h_7 hfeed hreturn _ _ =>
      split
      · have hdigits : OneLine (Text.Quoted.hexDigits c) := by
          intro d hd
          refine Bool.eq_false_iff.2 fun hend => ?_
          obtain rfl | rfl : d = '\n' ∨ d = '\r' := by simpa [isLineEnd] using hend
          · exact Text.not_mem_hexDigits c (by decide) hd
          · exact Text.not_mem_hexDigits c (by decide) hd
        exact .cons (by decide) (.cons (by decide) (.cons (by decide) (hdigits.append (by decide))))
      · exact .cons (by simpa [isLineEnd] using ⟨hfeed, hreturn⟩) oneLine_nil
    all_goals exact .cons (by decide) (.cons (by decide) oneLine_nil)
  intro d hd
  obtain ⟨c, -, hd⟩ := List.mem_flatMap.1 hd
  exact hchar c d hd

end

/-! ## tidy texts -/

/-- a line that, if it starts with a dot behind blanks and a comment, goes on with an opcode -/
structure TidyLine (line : List Char) : Prop where
  one : OneLine line
  dot : ∀ more cs, (line ++ '\n' :: more).drop (skipLength (line ++ '\n' :: more)) = '.' :: cs →
    ∃ c, cs.head? = some c ∧ isOpcodeChar c = true

/-- a text of such lines -/
def Tidy (text : List Char) : Prop :=
  ∃ lines : List (List Char), (∀ l ∈ lines, TidyLine l) ∧ text = lines.flatMap fun l => l ++ ['\n']

section
variable {text : List Char} {k : Nat} {c : Char} {cs : List Char}

theorem tidyLine_nil : TidyLine [] := ⟨fun _ hc => (nomatch hc), fun _ _ h => nomatch (List.cons.inj h).1⟩

/-- a line by its first character behind blanks -/
theorem tidyLine_indented (k : Nat) (hc : isPlain c = true) (hcs : OneLine cs)
    (hdot : c = '.' → ∃ d, cs.head? = some d ∧ isOpcodeChar d = true) : TidyLine (List.replicate k ' ' ++ c :: cs) where
  one := (oneLine_replicate k).append (.cons (by simp_all [isPlain]) hcs)
  dot more ds h := by
    have htext : List.replicate k ' ' ++ c :: cs ++ '\n' :: more =
        List.replicate k ' ' ++ c :: (cs ++ '\n' :: more) := by
      simp
    rw [htext, drop_blanks (skipLength_plain hc _)] at h
    obtain ⟨rfl, rfl⟩ := List.cons.inj h
    obtain ⟨d, hd, hop⟩ := hdot rfl
    exact ⟨d, by rw [List.head?_append, hd]; rfl, hop⟩

theorem tidy_nil : Tidy [] := ⟨[], fun _ hl => (nomatch hl), rfl⟩

theorem Tidy.append {text' : List Char} (h : Tidy text) (h' : Tidy text') : Tidy (text ++ text') := by
  obtain ⟨ls, hls, rfl⟩ := h
  obtain ⟨ls', hls', rfl⟩ := h'
  exact ⟨ls ++ ls', List.forall_mem_append.2 ⟨hls, hls'⟩, List.flatMap_append.symm⟩

theorem tidy_flatMap {α : Type} {as : List α} {f : α → List Char} (h : ∀ a ∈ as, Tidy (f a)) : Tidy (as.flatMap f) := by
  induction as with
  | nil => exact tidy_nil
  | cons a as ih =>
    obtain ⟨ha, has⟩ := List.forall_mem_cons.1 h
    exact ha.append (ih has)

theorem tidy_indented {n : Nat} (h : TidyLine (List.replicate n ' ' ++ cs)) : Tidy (indented n cs) :=
  ⟨[List.replicate n ' ' ++ cs], List.forall_mem_singleton.2 h, by simp [indented]⟩

theorem tidy_emptyLine : Tidy ['\n'] := ⟨[[]], List.forall_mem_singleton.2 tidyLine_nil, rfl⟩

theorem tidy_intercalate {texts : List (List Char)} (h : ∀ text ∈ texts, Tidy text) :
    Tidy (['\n'].intercalate texts) := by
  induction texts with
  | nil => exact tidy_nil
  | cons text texts ih =>
    obtain ⟨htext, htexts⟩ := List.forall_mem_cons.1 h
    cases texts with
    | nil => simpa using htext
    | cons text' texts =>
      rw [List.intercalate_cons_cons]
      exact (htext.append tidy_emptyLine).append (ih htexts)

/-- what starts at a line is made of the lines from there on -/
theorem exists_lines {lines : List (List Char)} (h : ∀ l ∈ lines, OneLine l) {rest : List Char}
    (hrest : LineStart (lines.flatMap fun l => l ++ ['\n']) rest) :
    ∃ more, more <:+ lines ∧ rest = more.flatMap fun l => l ++ ['\n'] := by
  obtain ⟨before, c, heq, hc⟩ := hrest
  -- the end in front of the rest is not within the first line: it is the end of this line, or of a later one
  induction lines generalizing before with
  | nil => exact absurd heq (by simp)
  | cons l lines ih =>
    obtain ⟨hl, hlines⟩ := List.forall_mem_cons.1 h
    rw [List.flatMap_cons, List.append_assoc, List.singleton_append] at heq
    rcases List.append_eq_append_iff.1 heq with ⟨as, rfl, htail⟩ | ⟨bs, rfl, hhead⟩
    · cases as with
      | nil =>
        obtain ⟨-, rfl⟩ := List.cons.inj htail
        exact ⟨lines, List.suffix_cons _ lines, rfl⟩
      | cons a as =>
        obtain ⟨-, htail⟩ := List.cons.inj htail
        obtain ⟨more, hmore, hrest⟩ := ih hlines as htail
        exact ⟨more, hmore.trans (List.suffix_cons l lines), hrest⟩
    · cases bs with
      | nil =>
        obtain ⟨-, rfl⟩ := List.cons.inj hhead
        exact ⟨lines, List.suffix_cons _ lines, rfl⟩
      | cons b bs =>
        obtain ⟨rfl, -⟩ := List.cons.inj hhead
        rw [hl c (List.mem_append_right _ List.mem_cons_self)] at hc
        exact nomatch hc

/-- **In a tidy text** an opcode stands right behind every dot at the head of a line -/
theorem Tidy.opcode (h : Tidy text) (hcs : LineHead text ('.' :: cs)) :
    ∃ c, cs.head? = some c ∧ isOpcodeChar c = true := by
  obtain ⟨lines, hlines, rfl⟩ := h
  obtain ⟨rest, hrest, hdrop⟩ := hcs
  obtain ⟨more, hmore, rfl⟩ := exists_lines (fun l hl => (hlines l hl).one) hrest
  cases more with
  | nil => exact nomatch hdrop
  | cons l more =>
    rw [List.flatMap_cons, List.append_assoc, List.singleton_append] at hdrop
    exact (hlines l (hmore.subset List.mem_cons_self)).dot _ cs hdrop.symm

end

/-! ## listings -/

/-- the words of the line can be read, but for a colon in front of them -/
def Assembly.MethodLine.Worded : MethodLine → Prop
  | declares (.entry _) => True
  | declares (.await r) => r.Worded
  | region t => ∀ type, t.catchType = some type → IsWord type
  | hint v => v.Named
  | code i => i.Named

section
variable {k : Nat} {t : RestoreTable} {c : ClassDef} {m : Method}

/-- a directive has its opcode right behind its dot -/
theorem tidyLine_directive (k : Nat) {op : String} {ws : List String} (hop : IsOpcode op) (hws : ∀ w ∈ ws, IsWord w) :
    TidyLine (List.replicate k ' ' ++ directiveText op ws) := by
  obtain ⟨d, ds, hd⟩ := List.exists_cons_of_ne_nil hop.1
  refine tidyLine_indented k (by decide)
    ((oneLine_of_opcode hop.2).append (oneLine_spaced fun w hw => (hws w hw).oneLine)) fun _ => ⟨d, ?_, ?_⟩
  · rw [hd]
    rfl
  · exact List.all_eq_true.1 hop.2 d (hd ▸ List.mem_cons_self)

/-- a line that starts with an opcode or a name -/
theorem tidyLine_opcode (k : Nat) {op : String} (hop : IsOpcode op) {cs : List Char} (hcs : OneLine cs) :
    TidyLine (List.replicate k ' ' ++ (op.toList ++ cs)) := by
  have hone := oneLine_of_opcode hop.2
  have hall := List.all_eq_true.1 hop.2
  obtain ⟨d, ds, hd⟩ := List.exists_cons_of_ne_nil hop.1
  rw [hd] at hone hall ⊢
  have hchar := hall d List.mem_cons_self
  refine tidyLine_indented k (isPlain_of_opcode hchar) (.append (List.forall_mem_cons.1 hone).2 hcs) fun hdot => ?_
  exact absurd (hdot ▸ hchar) (by decide)

theorem tidyLine_code (k : Nat) {i : Insn} (hi : i.Named) : TidyLine (List.replicate k ' ' ++ i.text.toList) := by
  -- labels and texts are not an opcode with words behind it
  have hplain (hlabel : i.label? = none) (hs : ∀ s, i ≠ .stringConst s) :
      TidyLine (List.replicate k ' ' ++ i.text.toList) := by
    rw [Insn.toList_text hlabel]
    exact tidyLine_opcode k i.isOpcode_line (oneLine_spaced fun w hw => ((Insn.operands_line hi hs).1 w hw).oneLine)
  cases i
  case label l =>
    have htext : (Insn.label l).text.toList = l.text.toList ++ [':'] := String.toList_append
    exact htext ▸ tidyLine_opcode k ⟨l.text_ne, l.opcode_text⟩ (by decide)
  case stringConst s =>
    have htext : (Insn.stringConst s).text.toList =
        "ldc".toList ++ (' ' :: '"' :: (Text.Quoted.encodeChars s.toList ++ ['"'])) := by
      simp [Insn.text, Text.Quoted.encode]
    exact htext ▸ tidyLine_opcode k (by decide)
      (.cons (by decide) (.cons (by decide) ((oneLine_encodeChars _).append (by decide))))
  all_goals exact hplain rfl fun _ => by simp

/-- **A line of a printed method** is tidy -/
theorem Assembly.MethodLine.Worded.tidy {x : MethodLine} (h : x.Worded) (k : Nat) :
    TidyLine (List.replicate k ' ' ++ x.text.toList) := by
  cases x with
  | declares x =>
    have htext : (MethodLine.declares x).text.toList = directiveText x.opcode x.words := String.toList_ofList
    rw [htext]
    cases x with
    | entry starts => exact tidyLine_directive k (by decide : IsOpcode "entry") (by cases starts <;> decide)
    | await r => exact tidyLine_directive k (by decide : IsOpcode "await") (isWord_await h.name h.owner h.desc)
  | region t => exact toList_catchText t ▸ tidyLine_directive k (by decide) (isWord_catch h)
  | hint v => exact toList_varText v ▸ tidyLine_directive k (by decide) (isWord_var h)
  | code i => exact tidyLine_code k h

/-- names and words in the text of a method can be read, but for colons in front of words -/
structure Assembly.MethodWorded (t : RestoreTable) (owner : String) (m : Method) : Prop where
  declared : IsDeclared m.isStatic m.name m.desc
  lines : ∀ x ∈ methodLines t owner m, x.Worded

theorem tidy_method {owner : String} (h : MethodWorded t owner m) : Tidy (methodText t owner m).toList := by
  rw [toList_methodText]
  refine (Tidy.append ?_ (tidy_flatMap fun x hx => tidy_indented ((h.lines x hx).tidy x.indent))).append
    (tidy_indented (tidyLine_indented 4 (by decide) (by decide) fun heq => absurd heq (by decide)))
  have htext : (methodHead m).toList = "method".toList ++ ((wordIf m.isStatic " static").toList ++
      ' ' :: (m.name.toList ++ ' ' :: (m.desc.toList ++
      (" locals ".toList ++ ((toString m.maxLocals.toNat).toList ++ [' ', '\x7b']))))) := by
    simp [methodHead]
  rw [htext]
  exact tidy_indented (tidyLine_opcode 4 (by decide) ((by cases m.isStatic <;> decide : OneLine _).append
    (.cons (by decide) (h.declared.name.oneLine.append (.cons (by decide) (h.declared.desc.oneLine.append
    (.append (by decide) ((isFirst_nat _).word.oneLine.append (by decide)))))))))

theorem tidy_field {f : Field} (h : IsDeclared f.isStatic f.name f.desc) : Tidy (fieldText f).toList := by
  have htext : (fieldHead f).toList = "field".toList ++ ((wordIf f.isStatic " static").toList ++
      ' ' :: (f.name.toList ++ ' ' :: f.desc.toList)) := by
    simp [fieldHead]
  rw [toList_fieldText, htext]
  exact tidy_indented (tidyLine_opcode 4 (by decide) ((by cases f.isStatic <;> decide : OneLine _).append
    (.cons (by decide) (h.name.oneLine.append (.cons (by decide) h.desc.oneLine)))))

/-- names and words in the text of a class can be read, but for colons in front of words -/
structure Assembly.ClassWorded (t : RestoreTable) (c : ClassDef) : Prop where
  name : IsName c.name
  super : ∀ s ∈ c.superName, IsName s
  interfaces : ∀ s ∈ c.interfaces, IsName s
  fields : ∀ f ∈ c.fields, IsDeclared f.isStatic f.name f.desc
  methods : ∀ m ∈ c.methods, MethodWorded t c.name m

theorem tidy_class (h : ClassWorded t c) : Tidy (classText t c).toList := by
  have hinterfaces : OneLine (interfacesText c.interfaces []) := by
    unfold interfacesText
    split
    · decide
    · exact .append (by decide) ((oneLine_spaced fun w hw => (h.interfaces w hw).oneLine).append (by decide))
  have hsuper : OneLine (superText (shownSuper? c) (interfacesText c.interfaces [])) := by
    unfold superText
    split
    · exact .cons (by decide) hinterfaces
    · rename_i w hw
      have hname : IsName w := h.super w (Option.filter_eq_some_iff.1 hw).1
      exact .cons (by decide)
        (.append (by decide) (.cons (by decide) (hname.oneLine.append (.cons (by decide) hinterfaces))))
  have hhead : TidyLine (List.replicate 0 ' ' ++ (classHead c).toList) := by
    rw [← List.append_nil (classHead c).toList, toList_classHead]
    exact tidyLine_opcode 0 (by decide) (.cons (by decide) (h.name.oneLine.append hsuper))
  have hgap : Tidy (wordIf (!c.fields.isEmpty && !c.methods.isEmpty) "\n").toList := by
    cases !c.fields.isEmpty && !c.methods.isEmpty with
    | false => exact tidy_nil
    | true => exact tidy_emptyLine
  have hfields : Tidy (String.join (c.fields.map fieldText)).toList := by
    rw [String.toList_join, List.flatMap_map]
    exact tidy_flatMap fun f hf => tidy_field (h.fields f hf)
  have hmethods : Tidy ("\n".intercalate (c.methods.map (methodText t c.name))).toList := by
    rw [String.toList_intercalate, List.map_map]
    exact tidy_intercalate (List.forall_mem_map.2 fun m hm => tidy_method (h.methods m hm))
  have hend : Tidy (lineText 0 "\x7d").toList := toList_lineText 0 _ ▸
    tidy_indented (tidyLine_indented 0 (by decide) (by decide) fun heq => absurd heq (by decide))
  unfold classText
  simp only [String.toList_append]
  have htidy : Tidy (lineText 0 (classHead c)).toList := toList_lineText 0 (classHead c) ▸ tidy_indented hhead
  exact (((htidy.append hfields).append hgap).append hmethods).append hend

/-- **A listing** is tidy -/
theorem tidy_listing {p : Program} (h : ∀ e ∈ p.classes, ClassWorded t e.2) : Tidy (listing p t).toList := by
  rw [listing, String.toList_intercalate, List.map_map]
  exact tidy_intercalate (List.forall_mem_map.2 fun e he => tidy_class (h e he))

end

/-! ## what is built from tidy texts -/

namespace Assembly

section
variable {text : List Char} {a : Assembled} {cds : List ClassDecl}

/-- **In a tidy text** the first word of a directive does not start with a colon -/
theorem apart_of_tidy (h : Tidy text) {l : Line} (hl : (BodyLine.directive l).StandsIn text) : l.Apart := by
  obtain ⟨c, d, hhead, hfound⟩ := hl
  exact bodyLine_apart (fun cs hc => h.opcode (hc ▸ hhead)) hfound

theorem colonFree_of_tidy (h : Tidy text) (hread : ∀ cd ∈ cds, cd.Read text) (hwell : WellAssembled cds a)
    (hfrom : ProgramFrom text a) : ColonFree a where
  points d hd r hr := by
    obtain ⟨l, hl, hawaits⟩ := awaits_of_mem hread hwell hd hr
    exact apart_of_tidy h hl _ hawaits.head
  regions e he m hm t ht type htype := by
    obtain ⟨-, l, hl, hhead⟩ := ((hfrom.classes e he).methods m hm).parts.regions t ht type htype
    exact apart_of_tidy h hl type hhead

/-- what is built from a source has names and words that can be read -/
theorem ProgramFrom.worded (h : ProgramFrom text a) (hread : ∀ cd ∈ cds, cd.Read text) (hwell : WellAssembled cds a) :
    ∀ e ∈ a.program.classes, ClassWorded a.table e.2 := by
  intro e he
  have hc := h.classes e he
  refine ⟨hc.name, hc.super, hc.interfaces, hc.fields, fun m hm => ⟨(hc.methods m hm).declared, ?_⟩⟩
  have hparts := (hc.methods m hm).parts
  exact forall_mem_methodLines (fun _ => trivial)
    (fun d hd r hr => worded_of_mem hread hwell (List.mem_of_mem_filter hd) hr)
    (fun t ht type htype => hparts.typed ht htype) hparts.hints fun i hi => (hparts.code i hi).1

end

/-! ## the table of a source -/

section
variable {text : List Char} {a b : Assembled} {cds : List ClassDecl}

/-- the table of a source has one declaration for a method at most -/
theorem WellAssembled.declarationsFor_eq (h : WellAssembled cds a) (hread : ∀ cd ∈ cds, cd.Read text) (id : MethodId) :
    declarationsFor a.table id = (redeclared a.table id).toList := by
  have hfilter : declarationsFor a.table id = a.table.declarations.filter fun d => d.id = id :=
    List.filter_congr fun d hd => by
      rw [Bool.eq_iff_iff, appliesTo_iff (speaks_of_mem hread h hd).2, decide_eq_true_iff, eq_comm]
  have hmem {d : Declaration} (hd : d ∈ a.table.declarations.filter fun d => d.id = id) : d.id = id ∧ d.Speaks :=
    ⟨by simpa using List.of_mem_filter hd, (speaks_of_mem hread h (List.mem_of_mem_filter hd)).1⟩
  obtain ⟨o, ho, hall⟩ : ∃ o : Option Declaration, declarationsFor a.table id = o.toList ∧
      ∀ d ∈ o, d.id = id ∧ d.Speaks := by
    have hids := h.ids.sublist ((List.filter_sublist (p := fun d : Declaration => d.id = id)).map Declaration.id)
    rw [hfilter]
    generalize a.table.declarations.filter (fun d => d.id = id) = ds at hmem hids
    -- two declarations for the method would have one id
    match ds with
    | [] => exact ⟨none, rfl, fun _ hd => nomatch hd⟩
    | [d] => exact ⟨some d, rfl, fun _ heq => Option.some.inj heq ▸ hmem List.mem_cons_self⟩
    | d :: e :: ds =>
      have hsame : e.id = d.id :=
        (hmem (List.mem_cons_of_mem _ List.mem_cons_self)).1.trans (hmem List.mem_cons_self).1.symm
      exact absurd (hsame ▸ List.mem_cons_self) (List.nodup_cons.1 hids).1
  rw [redeclared_eq ho hall, ho]

theorem mem_methodIds {p : Program} (hp : p.Ordered) {id : MethodId} {m : Method} (h : p.method? id = some m) :
    id ∈ methodIds p := by
  obtain ⟨c, hc, hm⟩ := Option.bind_eq_some_iff.1 h
  obtain ⟨e, he, rfl⟩ := Option.map_eq_some_iff.1 hc
  have hmem := List.mem_of_find?_eq_some he
  have howner : e.1 = id.owner := by simpa using List.find?_some he
  have hkey : m.name = id.name ∧ m.desc = id.desc := by simpa using List.find?_some hm
  refine List.mem_flatMap.2 ⟨e, hmem, List.mem_map.2 ⟨m, List.mem_of_find?_eq_some hm, ?_⟩⟩
  rw [Method.id, ← hp.keys e hmem, howner, hkey.1, hkey.2]

/-- **The table of a listing of a source** declares what the source declares -/
theorem ProgramFrom.relistedTable (h : ProgramFrom text a) (hread : ∀ cd ∈ cds, cd.Read text)
    (hwell : WellAssembled cds a) (id : MethodId) : declarationsFor (relistedTable a.program a.table) id = declarationsFor a.table id := by
  have hdistinct : MethodsDistinct a.program := methodsDistinct h.ordered hwell.distinct fun e he m hm heq =>
    ((h.classes e he).methods m hm).declared.desc.ne (by rw [heq]; rfl)
  rw [declarationsFor_relistedTable hdistinct, ← hwell.declarationsFor_eq hread]
  split
  · rfl
  · rename_i hid
    refine (List.filter_eq_nil_iff.2 fun d hd happlies => hid ?_).symm
    obtain ⟨-, -, -, m, -, -, -, hm⟩ := hwell.declared d hd
    rw [(appliesTo_iff (speaks_of_mem hread hwell hd).2 id).1 happlies]
    exact mem_methodIds h.ordered hm

/-! ## colons -/

/-- the restore points of a table are those that it declares for methods -/
theorem mem_restorePoints {t : RestoreTable} {r : RestorePoint} :
    (∃ d ∈ t.declarations, r ∈ d.restorePoints) ↔ ∃ id, r ∈ (t.restorePoints? id).getD [] := by
  simp only [restorePoints_eq, List.mem_flatMap, declarationsFor, List.mem_filter]
  constructor
  · rintro ⟨d, hd, hr⟩
    exact ⟨d.id, d, ⟨hd, by simp [Declaration.appliesTo, Declaration.id]⟩, hr⟩
  · rintro ⟨id, d, ⟨hd, -⟩, hr⟩
    exact ⟨d, hd, hr⟩

/-- colons do not depend on labels, nor on how a table declares its restore points -/
theorem ColonFree.of_same (h : ColonFree b) (hp : a.program.SameButLabels b.program)
    (ht : ∀ id, b.table.restorePoints? id = a.table.restorePoints? id) : ColonFree a where
  points d hd r hr := by
    obtain ⟨id, hr⟩ := mem_restorePoints.1 ⟨d, hd, hr⟩
    obtain ⟨d', hd', hr⟩ := mem_restorePoints.2 ⟨id, (ht id).symm ▸ hr⟩
    exact h.points d' hd' r hr
  regions e he m hm t ht type htype := by
    obtain ⟨e', he', -, hc⟩ := exists_of_forall₂ hp.flip he
    obtain ⟨m', hm', f, -, rfl⟩ := exists_of_forall₂ hc.methods.flip hm
    exact h.regions e' he' _ hm' (t.relabel f) (List.mem_map_of_mem ht) type htype

end

/-! ## sources again -/

/-- The listing of what was built is accepted.  It gives the program up to the labels of methods, a table with the same
answers, and a listing that does not change any more. -/
structure Relisted (a b : Assembled) : Prop where
  built : assemble (listing a.program a.table) = .ok b
  program : a.program.SameButLabels b.program
  answers : ∀ id, b.table.restorePoints? id = a.table.restorePoints? id ∧ b.table.isEntry id = a.table.isEntry id
  again : assemble (listing b.program b.table) = .ok b

section
variable {text : String} {a b : Assembled}

/-- what is built from the listing of a source has no colon that a listing would lose -/
theorem colonFree_listing (h : assemble text = .ok a) (hb : assemble (listing a.program a.table) = .ok b) :
    ColonFree b := by
  obtain ⟨cds, hread, hwell, hfrom⟩ := assemble_from h
  obtain ⟨cds', hread', hwell', hfrom'⟩ := assemble_from hb
  exact colonFree_of_tidy (tidy_listing (hfrom.worded hread hwell)) hread' hwell' hfrom'

/-- **A source without such colons** is built again from its listing -/
theorem relisted_of_colonFree (h : assemble text = .ok a) (hprints : Printable a.program) (hcolon : ColonFree a)
    (hlabels : LabelsDiffer a.program) : ∃ b, Relisted a b := by
  obtain ⟨cds, hread, hwell, hfrom⟩ := assemble_from h
  have hlegible := hfrom.legible hread hwell hprints hcolon hlabels
  have htable := hfrom.relistedTable hread hwell
  exact ⟨_, assemble_listing hlegible, a.program.sameButLabels_renumbered,
    fun id => answers_congr (htable id) hfrom.entryNames.symm, assemble_relisted hlegible fun id _ => htable id⟩

/-- **Sources, printed and built again**: a source is built again from its listing, up to the labels of methods, with
the same answers of its table and a listing that does not change any more, exactly if no restore point and no type of a
region starts with a colon, and there are not more labels in a method than numbers. -/
theorem relisted_iff (h : assemble text = .ok a) (hprints : Printable a.program) :
    (∃ b, Relisted a b) ↔ ColonFree a ∧ LabelsDiffer a.program := by
  refine ⟨fun ⟨b, hb⟩ => ?_, fun ⟨hcolon, hlabels⟩ => relisted_of_colonFree h hprints hcolon hlabels⟩
  -- the listing has no such colons, so what is built from it has none, and has all those of the source
  have hcolon := (colonFree_listing h hb.built).of_same hb.program fun id => (hb.answers id).1
  obtain ⟨cds, hread, hwell, hfrom⟩ := assemble_from h
  exact ⟨hcolon, nodup_of_assemble (hfrom.named hread hwell hcolon) hb.built⟩

end

namespace Measured

/-- a loop whose directives are not in the order of a listing -/
def source : String :=
  "class A \x7b\nmethod f ()D \x7b\ngoto b\na:\npop\nb:\n.await g desc=()D\ndconst 1.5\ndreturn\n" ++
    "c:\n.catch E from b to c using a\n\x7d\n\x7d\n"

end Measured

/-- the listing is built again, with other labels -/
theorem relisted_iff_measured : ∃ a b, assemble Measured.source = .ok a ∧ Printable a.program ∧ ColonFree a ∧
    LabelsDiffer a.program ∧ Relisted a b ∧ listing b.program b.table ≠ listing a.program a.table := by
  have hruns : (match assemble Measured.source with
      | .error _ => false
      | .ok a => decide (Printable a.program) && decide (ColonFree a) && decide (LabelsDiffer a.program) &&
        match assemble (listing a.program a.table) with
        | .error _ => false
        | .ok b => decide (listing b.program b.table ≠ listing a.program a.table)) = true := by
    decide +kernel
  generalize ha : assemble Measured.source = r at hruns
  cases r with
  | error e => exact absurd hruns Bool.false_ne_true
  | ok a =>
    simp only [Bool.and_eq_true, decide_eq_true_eq] at hruns
    obtain ⟨⟨⟨hprints, hcolon⟩, hlabels⟩, hruns⟩ := hruns
    obtain ⟨b, hb⟩ := (relisted_iff ha hprints).2 ⟨hcolon, hlabels⟩
    rw [hb.built] at hruns
    exact ⟨a, b, rfl, hprints, hcolon, hlabels, hb, of_decide_eq_true hruns⟩

namespace Spaced

/-- a directive with a blank behind its dot -/
def source : String := "class demo/A \x7b\n  method static run ()V \x7b\n    . await :x\n    return\n  \x7d\n\x7d\n"

end Spaced

/-- the listing has no blank behind the dot, so the directive is read as a label, and what follows is refused -/
theorem not_relisted_spaced :
    ∃ a, assemble Spaced.source = .ok a ∧ Printable a.program ∧ ¬∃ b, Relisted a b := by
  have hruns : (match assemble Spaced.source with
      | .error _ => false
      | .ok a => decide (Printable a.program) &&
        match assemble (listing a.program a.table) with
        | .error _ => true
        | .ok _ => false) = true := by
    decide +kernel
  split at hruns
  · exact absurd hruns (by simp)
  · rename_i a ha
    simp only [Bool.and_eq_true, decide_eq_true_eq] at hruns
    refine ⟨a, ha, hruns.1, fun ⟨b, hb⟩ => ?_⟩
    rw [hb.built] at hruns
    exact Bool.false_ne_true hruns.2

end Assembly
end Resumable
