import Resumable.Proofs.LabelNames
import Resumable.Proofs.PrintedLines

/-!
# Printed lines, built again

The lines of a printed method give the parts that they were printed from, with the labels numbered in the order in
which the lines mention them.  A body that has so far been built from some of the lines is determined by them: this is
kept by each further line.

* `Insn.Legible` : instructions whose text says everything;
* `Body.insn_line` : the instruction of a printed line;
* `bodyOf`, `bodyOf_addLine`, `bodyOf_addLines` : the body of lines, one line more, and several.
-/

namespace Resumable

/-! ## numbers -/

namespace Decimal

theorem readInt32?_toString (n : Int32) : readInt32? (toString n.toInt) = some n := by
  have hge := n.le_toInt
  have hlt := n.toInt_lt
  rw [readInt32?, readInt?_toString (by omega) (by omega), Option.map_some, Int32.ofInt_toInt]

theorem readInt64?_toString (n : Int64) : readInt64? (toString n.toInt) = some n := by
  have hge := n.le_toInt
  have hlt := n.toInt_lt
  rw [readInt64?, readInt?_toString (by omega) (by omega), Option.map_some, Int64.ofInt_toInt]

theorem readUInt16?_toString (n : UInt16) : readUInt16? (toString n.toNat) = some n := by
  have hlt := n.toNat_lt
  have htext : (toString n.toNat).toList = Layout.digits n.toNat := Nat.toList_repr
  have hread : readNat? 65535 (toString n.toNat) = some n.toNat := by
    unfold readNat?
    rw [htext]
    dsimp only
    split
    · rename_i r h
      exact absurd (isDigit_of_mem_digits (h ▸ List.mem_cons_self)) (by decide)
    · rw [digitRun?_digits]
      exact if_pos (by omega)
  rw [readUInt16?, hread, Option.map_some, UInt16.ofNat_toNat]

end Decimal

open Assembly

/-! ## instructions that can be read back -/

/-- the constant is the number that is read from its text -/
def Insn.PrintsBack : Insn → Prop
  | .floatConst v => Decimal.readSingle? (Decimal.printSingle v) = some v
  | .doubleConst v => Decimal.readDouble? (Decimal.printDouble v) = some v
  | _ => True

instance (i : Insn) : Decidable i.PrintsBack := by
  cases i
  case floatConst v => exact inferInstanceAs (Decidable (_ = some v))
  case doubleConst v => exact inferInstanceAs (Decidable (_ = some v))
  all_goals exact instDecidableTrue

/-- the text of the instruction says everything -/
structure Insn.Legible (i : Insn) : Prop where
  named : i.Named
  numeric : i.Numeric
  printsBack : i.PrintsBack

namespace Assembly

theorem splitLastDot?_none {cs : List Char} (h : '.' ∉ cs) : splitLastDot? cs = none := by
  induction cs with
  | nil => rfl
  | cons c cs ih =>
    obtain ⟨hc, hcs⟩ := List.ne_and_not_mem_of_not_mem_cons h
    rw [splitLastDot?, ih hcs]
    exact if_neg (Ne.symm hc)

theorem splitLastDot?_append {cs : List Char} (h : '.' ∉ cs) (before : List Char) :
    splitLastDot? (before ++ '.' :: cs) = some (before, cs) := by
  induction before with
  | nil =>
    rw [List.nil_append, splitLastDot?, splitLastDot?_none h]
    rfl
  | cons c before ih => rw [List.cons_append, splitLastDot?, ih]

namespace Line

variable {l : Line} {k : Nat} {w : String}

theorem number_eq {α : Type} {read : String → Option α} {v : α} (hw : l.word k = .ok w) (hv : read w = some v) :
    l.number read k = .ok v := by
  unfold number
  rw [Effect.bind_of_ok hw, hv]

/-- the member of a class that an operand names -/
theorem member_eq {owner name desc : String} (h : IsMember owner name desc)
    (hw : l.word k = .ok (owner ++ "." ++ name)) : l.member k = .ok (owner, name) := by
  have hsplit : splitLastDot? (owner ++ "." ++ name).toList = some (owner.toList, name.toList) := by
    have htext : (owner ++ "." ++ name).toList = owner.toList ++ '.' :: name.toList := by simp
    rw [htext, splitLastDot?_append h.dot]
  have hempty : (owner.toList.isEmpty || name.toList.isEmpty) = false := by
    simp [h.owner_ne, h.name_ne]
  unfold member
  rw [Effect.bind_of_ok hw, hsplit]
  simp [hempty]

end Line

namespace Body

variable {b : Body} {ls ts fs : List Label} {l : Line} {t : Label} {k : Nat}

/-! ## labels -/

/-- the body whose names are those of labels -/
def naming (b : Body) (ls : List Label) : Body := { b with names := ls.map Label.text }

/-- **The text of a label** stands for its place among the labels mentioned -/
theorem label_naming (h : addLabels ls [t] <+: fs) :
    (b.naming ls).label t.text = (t.renumber fs, b.naming (addLabels ls [t])) := by
  have hinj (us : List Label) : Set.InjOn Label.text {l | l ∈ us} := fun _ _ _ _ heq => Label.text_inj heq
  have hmem : t ∈ addLabels ls [t] := mem_addLabels.2 (.inr (List.mem_singleton_self t))
  have hbody : ((b.naming ls).label t.text).2 = b.naming (addLabels ls [t]) := by
    have hknown : t.text ∈ ls.map Label.text ↔ t ∈ ls := by
      refine ⟨fun h => ?_, List.mem_map_of_mem⟩
      obtain ⟨l, hl, heq⟩ := List.mem_map.1 h
      rwa [← Label.text_inj heq]
    unfold label
    split
    · rename_i n hn
      have hold : t ∈ ls := hknown.1 (List.idxOf_lt_length_iff.1 ((idxOf_of_idxOf? hn).2 ▸ (idxOf_of_idxOf? hn).1))
      rw [addLabels_one, if_pos hold]
    · rename_i hnone
      have hnew : t ∉ ls := fun ht => List.idxOf?_eq_none_iff.1 hnone (hknown.2 ht)
      rw [addLabels_one, if_neg hnew]
      unfold naming
      rw [List.map_append, List.map_singleton]
  have hnumber : ((b.naming ls).label t.text).1 = t.renumber fs := by
    rw [(label_eq _ _).2, hbody, Label.renumber_of_prefix hmem h]
    exact congrArg Label.nth (idxOf_map_of_injOn (hinj _) hmem)
  exact Prod.ext hnumber hbody

theorem labelOperand_naming (hw : l.word k = .ok t.text) (h : addLabels ls [t] <+: fs) :
    (b.naming ls).labelOperand l k = .ok (t.renumber fs, b.naming (addLabels ls [t])) := by
  rw [← label_naming (b := b) h]
  show (l.word k >>= _) = _
  rw [hw]
  rfl

theorem labelOperands_naming {before : List String} (hl : l.operands = (before ++ ts.map Label.text).map .word)
    (h : addLabels ls ts <+: fs) : (b.naming ls).labelOperands l (operandsFrom l before.length) =
      .ok (ts.map (Label.renumber fs), b.naming (addLabels ls ts)) := by
  induction ts generalizing ls before with
  | nil =>
    rw [operandsFrom_of_le (by simp [hl])]
    rfl
  | cons t ts ih =>
    obtain ⟨hfrom, hword, hmore⟩ := operandsFrom_words hl
    rw [hfrom]
    show ((b.naming ls).labelOperand l _ >>= _) = _
    rw [labelOperand_naming hword ((prefix_addLabels _ ts).trans h)]
    show ((b.naming (addLabels ls [t])).labelOperands l _ >>= _) = _
    rw [ih hmore (show addLabels (addLabels ls [t]) ts <+: fs from h)]
    rfl

/-- the text of a case of a switch -/
def caseText (c : Int32 × Label) : String := toString c.1.toInt ++ ":" ++ c.2.text

theorem switchCases_naming {cs : List (Int32 × Label)} {before : List String}
    (hl : l.operands = (before ++ cs.map caseText).map .word) (h : addLabels ls (cs.map Prod.snd) <+: fs) :
    (b.naming ls).switchCases l (operandsFrom l before.length) =
      .ok (cs.map fun c => (c.1, c.2.renumber fs), b.naming (addLabels ls (cs.map Prod.snd))) := by
  induction cs generalizing ls before with
  | nil =>
    rw [operandsFrom_of_le (by simp [hl])]
    rfl
  | cons c cs ih =>
    obtain ⟨hfrom, hword, hmore⟩ := operandsFrom_words hl
    have hkey : ':' ∉ (toString c.1.toInt).toList := fun hmem =>
      absurd (Json.Token.isNumberChar_of_isNumber (Json.Token.isNumber_integer _) hmem) (by decide)
    have hsplit : splitFirst? ':' (caseText c) = some (toString c.1.toInt, c.2.text) :=
      splitFirst_keyed _ _ rfl hkey
    rw [hfrom, switchCases, Effect.bind_of_ok hword, hsplit]
    dsimp only
    rw [Decimal.readInt32?_toString]
    show (((b.naming ls).label c.2.text).2.switchCases l _ >>= fun r =>
      Except.ok ((c.1, ((b.naming ls).label c.2.text).1) :: r.1, r.2)) = _
    rw [label_naming ((prefix_addLabels _ _).trans h)]
    show ((b.naming (addLabels ls [c.2])).switchCases l _ >>= _) = _
    rw [ih hmore (show addLabels (addLabels ls [c.2]) (cs.map Prod.snd) <+: fs from h)]
    rfl

/-! ## the instruction of a line -/

section
variable {i : Insn} {o : Nat} {ops : List Operand}

/-- what the line of the instruction gives -/
def Regives (b : Body) (ls fs : List Label) (i : Insn) : Prop :=
  ∀ o, (b.naming ls).insn ⟨o, i.line.1, i.operands⟩ =
    .ok (i.relabel (Label.renumber fs), b.naming (addLabels ls i.targets))

/-- a mnemonic with the letter of a kind that no table has -/
theorem insn_typed (k : Kind) {rest : String}
    (hfamily : b.insn ⟨o, Insn.typed k rest, ops⟩ = b.familyInsn ⟨o, Insn.typed k rest, ops⟩)
    (hcompare : condAfter? "if_icmp" (Insn.typed k rest) = none) (hbranch : condAfter? "if" (Insn.typed k rest) = none)
    {i : Insn} (hi : typedInsn ⟨o, Insn.typed k rest, ops⟩ k rest.toList = .ok i) :
    b.insn ⟨o, Insn.typed k rest, ops⟩ = .ok (i, b) := by
  have hletter : (Insn.typed k rest).toList = k.letter :: rest.toList := by simp [Insn.typed]
  rw [hfamily]
  unfold familyInsn
  simp only [hcompare, hbranch, hletter, Kind.ofLetter?_letter, hi]
  rfl

theorem regives_load (k : Kind) (slot : UInt16) : b.Regives ls fs (.load k slot) := fun o =>
  insn_typed k (by cases k <;> rfl) (by cases k <;> decide) (by cases k <;> decide) <| by
    show (Line.number _ Decimal.readUInt16? 0 >>= _) = _
    rw [Line.number_eq rfl (Decimal.readUInt16?_toString slot)]
    rfl

theorem regives_store (k : Kind) (slot : UInt16) : b.Regives ls fs (.store k slot) := fun o =>
  insn_typed k (by cases k <;> rfl) (by cases k <;> decide) (by cases k <;> decide) <| by
    show (Line.number _ Decimal.readUInt16? 0 >>= _) = _
    rw [Line.number_eq rfl (Decimal.readUInt16?_toString slot)]
    rfl

theorem regives_arith (op : ArithOp) {k : Kind} (hk : k.isNumeric = true) : b.Regives ls fs (.arith op k) := fun o =>
  insn_typed k (by cases op <;> cases k <;> rfl) (by cases op <;> cases k <;> decide)
    (by cases op <;> cases k <;> decide) (by cases op <;> cases k <;> first | rfl | cases hk)

theorem regives_neg {k : Kind} (hk : k.isNumeric = true) : b.Regives ls fs (.neg k) := fun o =>
  insn_typed k (by cases k <;> rfl) (by cases k <;> decide) (by cases k <;> decide)
    (by cases k <;> first | rfl | cases hk)

theorem regives_convert {s t : Kind} (h : (Insn.convert s t).Numeric) : b.Regives ls fs (.convert s t) := fun o => by
  have htyped : (Insn.convert s t).line.1 = Insn.typed s ("2" ++ t.letter.toString) := String.append_assoc
  show (b.naming ls).insn ⟨o, (Insn.convert s t).line.1, _⟩ = _
  rw [htyped]
  obtain ⟨hs, ht, hne⟩ := h
  exact insn_typed s (by cases s <;> cases t <;> rfl) (by cases s <;> cases t <;> decide)
    (by cases s <;> cases t <;> decide) (by
      cases s <;> cases t <;> first
        | rfl
        | exact absurd hs (by decide)
        | exact absurd ht (by decide)
        | exact absurd rfl hne)

theorem regives_ret (k : Option Kind) : b.Regives ls fs (.ret k) := fun o => by
  cases k with
  | none => rfl
  | some k =>
    exact insn_typed k (by cases k <;> rfl) (by cases k <;> decide) (by cases k <;> decide) (by cases k <;> rfl)

theorem regives_arrayLoad (k : Kind) : b.Regives ls fs (.arrayLoad k) := fun o =>
  insn_typed k (by cases k <;> rfl) (by cases k <;> decide) (by cases k <;> decide) (by cases k <;> rfl)

theorem regives_arrayStore (k : Kind) : b.Regives ls fs (.arrayStore k) := fun o =>
  insn_typed k (by cases k <;> rfl) (by cases k <;> decide) (by cases k <;> decide) (by cases k <;> rfl)

theorem regives_compare (op : CompareOp) : b.Regives ls fs (.compare op) := fun o => by cases op <;> rfl

/-- a jump on a condition -/
theorem regives_branch (c : Cond) (h : addLabels ls [t] <+: fs) : b.Regives ls fs (.branch c t) := fun o => by
  have hfamily (l : Line) (hl : l.opcode = "if" ++ c.name) : (b.naming ls).insn l = (b.naming ls).familyInsn l := by
    obtain ⟨o, op, ops⟩ := l
    obtain rfl : op = _ := hl
    cases c <;> rfl
  have hcompare : condAfter? "if_icmp" ("if" ++ c.name) = none := by cases c <;> decide
  have hbranch : condAfter? "if" ("if" ++ c.name) = some c := by cases c <;> decide
  show (b.naming ls).insn ⟨o, "if" ++ c.name, [.word t.text]⟩ = _
  rw [hfamily _ rfl]
  unfold familyInsn
  simp only [hcompare, hbranch]
  rw [labelOperand_naming rfl h]
  rfl

theorem regives_branchCompare (c : Cond) (h : addLabels ls [t] <+: fs) :
    b.Regives ls fs (.branchCompare c t) := fun o => by
  have hfamily (l : Line) (hl : l.opcode = "if_icmp" ++ c.name) :
      (b.naming ls).insn l = (b.naming ls).familyInsn l := by
    obtain ⟨o, op, ops⟩ := l
    obtain rfl : op = _ := hl
    cases c <;> rfl
  have hcompare : condAfter? "if_icmp" ("if_icmp" ++ c.name) = some c := by cases c <;> decide
  show (b.naming ls).insn ⟨o, "if_icmp" ++ c.name, [.word t.text]⟩ = _
  rw [hfamily _ rfl]
  unfold familyInsn
  simp only [hcompare]
  rw [labelOperand_naming rfl h]
  rfl

/-- a mnemonic that takes one label -/
theorem insn_jump {op : String} {make : Label → Insn}
    (hinsn : ∀ b : Body, b.insn ⟨o, op, [.word t.text]⟩ =
      (b.labelOperand ⟨o, op, [.word t.text]⟩ 0 >>= fun p => Except.ok (make p.1, p.2)))
    (h : addLabels ls [t] <+: fs) : (b.naming ls).insn ⟨o, op, [.word t.text]⟩ =
      .ok (make (t.renumber fs), b.naming (addLabels ls [t])) := by
  rw [hinsn, labelOperand_naming rfl h]
  rfl

/-- a mnemonic that takes one number -/
theorem insn_number {α : Type} {op w : String} {v : α} (read : String → Option α) (make : α → Insn)
    (hinsn : b.insn ⟨o, op, [.word w]⟩ =
      (Line.number ⟨o, op, [.word w]⟩ read 0 >>= fun v => Except.ok (make v, b))) (hv : read w = some v) :
    b.insn ⟨o, op, [.word w]⟩ = .ok (make v, b) := by
  rw [hinsn, Line.number_eq rfl hv]
  rfl

/-- a mnemonic that takes a member and a descriptor -/
theorem insn_member {op owner name desc : String} {l : Line} (make : String → String → String → Insn)
    (hl : l = ⟨o, op, [.word (owner ++ "." ++ name), .word desc]⟩)
    (hinsn : b.insn l = (l.arity 2 >>= fun _ => l.member 0 >>= fun p => l.word 1 >>= fun d =>
      Except.ok (make p.1 p.2 d, b))) (h : IsMember owner name desc) : b.insn l = .ok (make owner name desc, b) := by
  subst hl
  rw [hinsn, Line.member_eq h rfl]
  rfl

theorem regives_increment (slot : UInt16) (delta : Int32) : b.Regives ls fs (.increment slot delta) := fun o => by
  show (Line.number _ Decimal.readUInt16? 0 >>= fun slot => Line.number _ Decimal.readInt32? 1 >>= fun delta =>
    Except.ok (Insn.increment slot delta, b.naming ls)) = _
  rw [Line.number_eq rfl (Decimal.readUInt16?_toString slot)]
  show (Line.number _ Decimal.readInt32? 1 >>= _) = _
  rw [Line.number_eq rfl (Decimal.readInt32?_toString delta)]
  rfl

/-- labels in the order of the line: the default first, then the targets -/
theorem regives_tableSwitch (low : Int32) (d : Label) (h : addLabels ls (d :: ts) <+: fs) :
    b.Regives ls fs (.tableSwitch low d ts) := fun o => by
  generalize hl : (⟨o, "tableswitch", (Insn.tableSwitch low d ts).operands⟩ : Line) = l
  have hoperands : l.operands = ([toString low.toInt, d.text] ++ ts.map Label.text).map .word := by rw [← hl]; rfl
  have hlow : l.number Decimal.readInt32? 0 = .ok low :=
    Line.number_eq (by rw [← hl]; rfl) (Decimal.readInt32?_toString low)
  have hd : (b.naming ls).labelOperand l 1 = .ok (d.renumber fs, b.naming (addLabels ls [d])) :=
    labelOperand_naming (by rw [← hl]; rfl) ((prefix_addLabels _ ts).trans h)
  have hts := labelOperands_naming (b := b) hoperands (show addLabels (addLabels ls [d]) ts <+: fs from h)
  have hinsn : (b.naming ls).insn l = (l.number Decimal.readInt32? 0 >>= fun low =>
      (b.naming ls).labelOperand l 1 >>= fun p => p.2.labelOperands l (operandsFrom l 2) >>= fun q =>
      Except.ok (.tableSwitch low p.1 q.1, q.2)) := by rw [← hl]; rfl
  show (b.naming ls).insn ⟨o, "tableswitch", _⟩ = _
  rw [hl, hinsn, hlow]
  show ((b.naming ls).labelOperand l 1 >>= _) = _
  rw [hd]
  show ((b.naming (addLabels ls [d])).labelOperands l (operandsFrom l 2) >>= _) = _
  rw [show operandsFrom l 2 = operandsFrom l [toString low.toInt, d.text].length from rfl, hts]
  rfl

theorem regives_lookupSwitch (d : Label) {cs : List (Int32 × Label)}
    (h : addLabels ls (d :: cs.map Prod.snd) <+: fs) : b.Regives ls fs (.lookupSwitch d cs) := fun o => by
  generalize hl : (⟨o, "lookupswitch", (Insn.lookupSwitch d cs).operands⟩ : Line) = l
  have hoperands : l.operands = ([d.text] ++ cs.map caseText).map .word := by rw [← hl]; rfl
  have hd : (b.naming ls).labelOperand l 0 = .ok (d.renumber fs, b.naming (addLabels ls [d])) :=
    labelOperand_naming (by rw [← hl]; rfl) ((prefix_addLabels _ _).trans h)
  have hcs := switchCases_naming (b := b) hoperands
    (show addLabels (addLabels ls [d]) (cs.map Prod.snd) <+: fs from h)
  have hinsn : (b.naming ls).insn l = ((b.naming ls).labelOperand l 0 >>= fun p =>
      p.2.switchCases l (operandsFrom l 1) >>= fun q => Except.ok (.lookupSwitch p.1 q.1, q.2)) := by rw [← hl]; rfl
  show (b.naming ls).insn ⟨o, "lookupswitch", _⟩ = _
  rw [hl, hinsn, hd]
  show ((b.naming (addLabels ls [d])).switchCases l (operandsFrom l 1) >>= _) = _
  rw [show operandsFrom l 1 = operandsFrom l [d.text].length from rfl, hcs]
  rfl

/-- **The line of an instruction** gives this instruction, its labels numbered by their places -/
theorem insn_line (hi : i.Legible) (hlabel : i.label? = none) (h : addLabels ls i.targets <+: fs) :
    b.Regives ls fs i := by
  obtain ⟨hnamed, hnumeric, hprints⟩ := hi
  cases i
  case label l => exact absurd hlabel (by simp [Insn.label?])
  case intConst v => exact fun o => insn_number Decimal.readInt32? .intConst rfl (Decimal.readInt32?_toString v)
  case longConst v => exact fun o => insn_number Decimal.readInt64? .longConst rfl (Decimal.readInt64?_toString v)
  case floatConst v => exact fun o => insn_number Decimal.readSingle? .floatConst rfl hprints
  case doubleConst v => exact fun o => insn_number Decimal.readDouble? .doubleConst rfl hprints
  case returnSubroutine slot => 
    exact fun o => insn_number Decimal.readUInt16? .returnSubroutine rfl (Decimal.readUInt16?_toString slot)
  case stringConst s =>
    have hdecode : Text.Quoted.decode (String.ofList (Text.Quoted.encodeChars s.toList)) = s :=
      (Text.Quoted.spelled_encodeChars s.toList).decode
    exact fun o => congrArg (fun s => Except.ok (Insn.stringConst s, b.naming ls)) hdecode
  case load k slot => exact regives_load k slot
  case store k slot => exact regives_store k slot
  case increment slot delta => exact regives_increment slot delta
  case arith op k => exact regives_arith op hnumeric
  case neg k => exact regives_neg hnumeric
  case convert s t => exact regives_convert hnumeric
  case compare op => exact regives_compare op
  case branch c t => exact regives_branch c h
  case branchCompare c t => exact regives_branchCompare c h
  case branchSame t | branchDistinct t | branchNull t | branchNonNull t | jump t | jumpSubroutine t =>
    exact fun o => insn_jump (fun _ => rfl) h
  case tableSwitch low d ts => exact regives_tableSwitch low d h
  case lookupSwitch d cs => exact regives_lookupSwitch d h
  case ret k => exact regives_ret k
  case getStatic f => exact fun o => insn_member (fun o n d => .getStatic ⟨o, n, d⟩) rfl rfl hnamed
  case putStatic f => exact fun o => insn_member (fun o n d => .putStatic ⟨o, n, d⟩) rfl rfl hnamed
  case getField f => exact fun o => insn_member (fun o n d => .getField ⟨o, n, d⟩) rfl rfl hnamed
  case putField f => exact fun o => insn_member (fun o n d => .putField ⟨o, n, d⟩) rfl rfl hnamed
  case invoke k m =>
    exact fun o => insn_member (fun o n d => .invoke k ⟨o, n, d⟩) rfl (by cases k <;> rfl) hnamed
  case arrayLoad k => exact regives_arrayLoad k
  case arrayStore k => exact regives_arrayStore k
  all_goals exact fun o => rfl

end
/-! ## lines -/

section
variable {id : MethodId} {o : Nat}

/-- **A label** is defined where no other one of its name is -/
theorem define_line (hnew : t.text ∉ b.defined) (h : addLabels ls [t] <+: fs) :
    (b.naming ls).addLine (.label o t.text) = .ok { b.naming (addLabels ls [t]) with
      defined := b.defined ++ [t.text]
      code := b.code ++ [.label (t.renumber fs)] } := by
  show (b.naming ls).define o t.text = _
  unfold define
  rw [label_naming h]
  exact if_neg hnew

theorem addInsn_line {i : Insn} (hi : i.Legible) (hlabel : i.label? = none) (h : addLabels ls i.targets <+: fs) :
    (b.naming ls).addLine (.insn ⟨o, i.line.1, i.operands⟩) = .ok { b.naming (addLabels ls i.targets) with
      code := b.code ++ [i.relabel (Label.renumber fs)] } := by
  show ((b.naming ls).insn _ >>= _) = _
  rw [insn_line hi hlabel h o]
  rfl

theorem addCatch_line {r : TryCatch} (hr : r.Named) (h : addLabels ls r.labels <+: fs) :
    (b.naming ls).addLine (.directive ⟨o, "catch", r.words.map .word⟩) = .ok { b.naming (addLabels ls r.labels) with
      tryCatches := b.tryCatches ++ [r.relabel (Label.renumber fs)] } := by
  generalize hl : (⟨o, "catch", r.words.map .word⟩ : Line) = l
  have hcatch : (b.naming ls).addLine (.directive l) = (b.naming ls).addCatch l := by rw [← hl]; rfl
  have htype : (if r.catchType.getD "any" = "any" then none else some (r.catchType.getD "any")) = r.catchType := by
    cases htype : r.catchType with
    | none => rfl
    | some type => exact if_neg (hr type htype).2
  have hstart : (b.naming ls).labelOperand l 2 = .ok (r.start.renumber fs, b.naming (addLabels ls [r.start])) :=
    labelOperand_naming (by rw [← hl]; rfl) ((prefix_addLabels _ [r.stop, r.handler]).trans h)
  have hstop : (b.naming (addLabels ls [r.start])).labelOperand l 4 =
      .ok (r.stop.renumber fs, b.naming (addLabels ls [r.start, r.stop])) :=
    labelOperand_naming (by rw [← hl]; rfl) ((prefix_addLabels _ [r.handler]).trans h)
  have hhandler : (b.naming (addLabels ls [r.start, r.stop])).labelOperand l 6 =
      .ok (r.handler.renumber fs, b.naming (addLabels ls r.labels)) :=
    labelOperand_naming (by rw [← hl]; rfl) h
  have hlabels : (b.naming ls).addCatch l = ((b.naming ls).labelOperand l 2 >>= fun start =>
      start.2.labelOperand l 4 >>= fun stop => stop.2.labelOperand l 6 >>= fun handler =>
      Except.ok { handler.2 with tryCatches := handler.2.tryCatches ++ [⟨start.1, stop.1, handler.1,
        if r.catchType.getD "any" = "any" then none else some (r.catchType.getD "any")⟩] }) := by rw [← hl]; rfl
  rw [hcatch, hlabels, hstart]
  show ((b.naming (addLabels ls [r.start])).labelOperand l 4 >>= _) = _
  rw [hstop]
  show ((b.naming (addLabels ls [r.start, r.stop])).labelOperand l 6 >>= _) = _
  rw [hhandler, htype]
  rfl

theorem addVar_line {v : LocalVar} (h : addLabels ls v.labels <+: fs) :
    (b.naming ls).addLine (.directive ⟨o, "var", v.words.map .word⟩) = .ok { b.naming (addLabels ls v.labels) with
      localVars := b.localVars ++ [v.relabel (Label.renumber fs)] } := by
  generalize hl : (⟨o, "var", v.words.map .word⟩ : Line) = l
  have hvar : (b.naming ls).addLine (.directive l) = (b.naming ls).addVar l := by rw [← hl]; rfl
  have hslot : l.number Decimal.readUInt16? 0 = .ok v.slot :=
    Line.number_eq (by rw [← hl]; rfl) (Decimal.readUInt16?_toString v.slot)
  have hstart : (b.naming ls).labelOperand l 4 = .ok (v.start.renumber fs, b.naming (addLabels ls [v.start])) :=
    labelOperand_naming (by rw [← hl]; rfl) ((prefix_addLabels _ [v.stop]).trans h)
  have hstop : (b.naming (addLabels ls [v.start])).labelOperand l 6 =
      .ok (v.stop.renumber fs, b.naming (addLabels ls v.labels)) :=
    labelOperand_naming (by rw [← hl]; rfl) h
  have hlabels : (b.naming ls).addVar l = (l.number Decimal.readUInt16? 0 >>= fun slot =>
      (b.naming ls).labelOperand l 4 >>= fun start => start.2.labelOperand l 6 >>= fun stop =>
      Except.ok { stop.2 with localVars := stop.2.localVars ++ [⟨slot, v.name, v.desc, start.1, stop.1⟩] }) := by
    rw [← hl]; rfl
  rw [hvar, hlabels, hslot]
  show ((b.naming ls).labelOperand l 4 >>= _) = _
  rw [hstart]
  show ((b.naming (addLabels ls [v.start])).labelOperand l 6 >>= _) = _
  rw [hstop]
  rfl

end
end Body

/-! ## bodies -/

namespace MethodLine

/-- the labels that the line mentions, in order -/
def labels : MethodLine → List Label
  | declares _ => []
  | region t => t.labels
  | hint v => v.labels
  | code i => i.labels

/-- the text of the line says everything -/
def Legible : MethodLine → Prop
  | declares x => x.Listed
  | region t => t.Named
  | hint v => v.Named
  | code i => i.Legible

theorem Legible.named {x : MethodLine} (h : x.Legible) : x.Named := by
  cases x with
  | code i => exact Insn.Legible.named h
  | declares x => exact h
  | region t => exact h
  | hint v => exact h

@[simp] def directive? : MethodLine → Option Directive
  | declares x => some x
  | _ => none

@[simp] def region? : MethodLine → Option TryCatch
  | region t => some t
  | _ => none

@[simp] def hint? : MethodLine → Option LocalVar
  | hint v => some v
  | _ => none

@[simp] def insn? : MethodLine → Option Insn
  | code i => some i
  | _ => none

end MethodLine

/-- the declaration that directives for a method make, if there are any -/
def declarationOf (id : MethodId) (xs : List Directive) : Option Declaration :=
  xs.foldl (fun d x => some (x.add (d.getD ⟨id.owner, id.name, id.desc, none, []⟩))) none

theorem declarationOf_concat (id : MethodId) (xs : List Directive) (x : Directive) : declarationOf id (xs ++ [x]) =
    some (x.add ((declarationOf id xs).getD ⟨id.owner, id.name, id.desc, none, []⟩)) := List.foldl_concat ..

/-- the body that lines make, with labels numbered by their places in a list -/
def bodyOf (id : MethodId) (fs : List Label) (xs : List MethodLine) : Body where
  method := id
  names := (addLabels [] (xs.flatMap MethodLine.labels)).map Label.text
  defined := (labelsIn (xs.filterMap MethodLine.insn?)).map Label.text
  code := (xs.filterMap MethodLine.insn?).map (Insn.relabel (Label.renumber fs))
  tryCatches := (xs.filterMap MethodLine.region?).map (TryCatch.relabel (Label.renumber fs))
  localVars := (xs.filterMap MethodLine.hint?).map (LocalVar.relabel (Label.renumber fs))
  declaration := declarationOf id (xs.filterMap MethodLine.directive?)

section
variable {id : MethodId} {fs : List Label} {xs ys : List MethodLine} {x : MethodLine} {lines : List BodyLine}

theorem filterMap_concat {α β : Type} (f : α → Option β) (as : List α) (a : α) :
    (as ++ [a]).filterMap f = as.filterMap f ++ (f a).toList := by
  rw [List.filterMap_append, List.filterMap_cons]
  cases f a <;> rfl

/-- **One line more**, whose labels have their places already, and none of them stands in a line before -/
theorem bodyOf_addLine (hx : x.Legible) (hfs : addLabels [] ((xs ++ [x]).flatMap MethodLine.labels) <+: fs)
    (hnew : (labelsIn ((xs ++ [x]).filterMap MethodLine.insn?)).Nodup) (o : Nat) :
    (bodyOf id fs xs).addLine (x.lineAt o) = .ok (bodyOf id fs (xs ++ [x])) := by
  have hflat : (xs ++ [x]).flatMap MethodLine.labels = xs.flatMap MethodLine.labels ++ x.labels := by simp
  have hnaming : (bodyOf id fs xs).naming (addLabels [] (xs.flatMap MethodLine.labels)) = bodyOf id fs xs := rfl
  rw [hflat, addLabels_append] at hfs
  rw [filterMap_concat, labelsIn_append] at hnew
  unfold bodyOf at hnaming ⊢
  simp only [hflat, addLabels_append, filterMap_concat, labelsIn_append, List.map_append]
  rw [← hnaming]
  -- each kind of line adds to one part of the body, and its labels to the names
  cases x with
  | declares x =>
    rw [MethodLine.lineAt, Body.addLine_words]
    simp [Body.naming, Body.declared, declarationOf_concat, MethodLine.labels, addLabels_nil, labelsIn_nil]
  | region t =>
    rw [MethodLine.lineAt, Body.addCatch_line hx hfs]
    simp [Body.naming, MethodLine.labels, labelsIn_nil]
  | hint v =>
    rw [MethodLine.lineAt, Body.addVar_line hfs]
    simp [Body.naming, MethodLine.labels, labelsIn_nil]
  | code i =>
    have hdefined : labelsIn (MethodLine.insn? (.code i)).toList = i.label?.toList :=
      (labelsIn_cons i []).trans (List.append_nil _)
    rw [hdefined] at hnew ⊢
    cases hlabel : i.label? with
    | none =>
      have hline : (MethodLine.code i).lineAt o = .insn ⟨o, i.line.1, i.operands⟩ := by
        cases i <;> first | rfl | cases hlabel
      have htargets : (MethodLine.code i).labels = i.targets := by
        rw [MethodLine.labels, Insn.labels, hlabel]
        rfl
      rw [htargets] at hfs ⊢
      rw [hline, Body.addInsn_line hx hlabel hfs]
      simp [Body.naming]
    | some l =>
      obtain rfl : i = .label l := by cases i <;> cases hlabel; rfl
      -- a label that stands among the lines before would stand there twice
      have hfresh : l.text ∉ (labelsIn (xs.filterMap MethodLine.insn?)).map Label.text := by
        intro hmem
        obtain ⟨l', hl', heq⟩ := List.mem_map.1 hmem
        rw [Label.text_inj heq] at hl'
        exact (List.nodup_append.1 hnew).2.2 l hl' l (List.mem_singleton_self l) rfl
      have hline : (MethodLine.code (.label l)).lineAt o = .label o l.text := rfl
      rw [hline, Body.define_line hfresh hfs]
      simp [Body.naming, MethodLine.labels, Insn.labels, Insn.label?, Insn.targets, Insn.relabel]

/-- **Lines** one after another -/
theorem bodyOf_addLines (hys : ∀ y ∈ ys, y.Legible)
    (hfs : addLabels [] ((xs ++ ys).flatMap MethodLine.labels) <+: fs)
    (hnew : (labelsIn ((xs ++ ys).filterMap MethodLine.insn?)).Nodup)
    (hlines : List.Forall₂ (fun (y : MethodLine) l => ∃ o, l = y.lineAt o) ys lines) :
    (bodyOf id fs xs).addLines lines = .ok (bodyOf id fs (xs ++ ys)) := by
  induction hlines generalizing xs with
  | nil =>
    rw [List.append_nil]
    rfl
  | @cons y l ys lines hl hlines ih =>
    obtain ⟨o, rfl⟩ := hl
    -- the first line goes to those that are in the body
    rw [List.append_cons] at hfs hnew ⊢
    have hone : (bodyOf id fs xs).addLine (y.lineAt o) = .ok (bodyOf id fs (xs ++ [y])) := by
      refine bodyOf_addLine (hys y List.mem_cons_self) ?_ ?_ o
      · rw [List.flatMap_append, addLabels_append] at hfs
        exact (prefix_addLabels _ _).trans hfs
      · rw [List.filterMap_append, labelsIn_append] at hnew
        exact (List.nodup_append.1 hnew).1
    show ((bodyOf id fs xs).addLine (y.lineAt o) >>= _) = _
    rw [hone]
    exact ih (fun z hz => hys z (List.mem_cons_of_mem _ hz)) hfs hnew

end

/-! ## methods -/

section
variable (t : RestoreTable) (owner : String) (m : Method)

theorem filterMap_methodLines {β : Type} (f : MethodLine → Option β) :
    (methodLines t owner m).filterMap f =
      ((declarationsFor t (m.id owner)).flatMap directivesOf).filterMap (fun x => f (.declares x)) ++
        m.tryCatches.filterMap (fun r => f (.region r)) ++ m.localVars.filterMap (fun v => f (.hint v)) ++
        m.code.filterMap (fun i => f (.code i)) := by
  simp only [methodLines, List.filterMap_append, List.filterMap_map]
  rfl

theorem insns_methodLines : (methodLines t owner m).filterMap MethodLine.insn? = m.code := by
  rw [filterMap_methodLines]
  simp

theorem regions_methodLines : (methodLines t owner m).filterMap MethodLine.region? = m.tryCatches := by
  rw [filterMap_methodLines]
  simp

theorem hints_methodLines : (methodLines t owner m).filterMap MethodLine.hint? = m.localVars := by
  rw [filterMap_methodLines]
  simp

theorem directives_methodLines : (methodLines t owner m).filterMap MethodLine.directive? =
    (declarationsFor t (m.id owner)).flatMap directivesOf := by
  rw [filterMap_methodLines]
  simp

theorem labels_methodLines : (methodLines t owner m).flatMap MethodLine.labels = m.mentioned := by
  simp [methodLines, Method.mentioned, List.flatMap_append, List.flatMap_map, MethodLine.labels]

end

section
variable {t : RestoreTable} {owner : String} {m : Method}

/-- what the directives of a table for a method declare -/
def redeclared (t : RestoreTable) (id : MethodId) : Option Declaration :=
  declarationOf id ((declarationsFor t id).flatMap directivesOf)

/-- the text of the body of a method says everything -/
structure BodyLegible (t : RestoreTable) (owner : String) (m : Method) : Prop where
  points : ∀ d ∈ declarationsFor t (m.id owner), ∀ r ∈ d.restorePoints, IsListed r
  regions : ∀ r ∈ m.tryCatches, r.Named
  hints : ∀ v ∈ m.localVars, v.Named
  code : ∀ i ∈ m.code, i.Legible
  defined : ∀ l ∈ m.labels, l ∈ labelsIn m.code
  once : (labelsIn m.code).Nodup

theorem BodyLegible.forall_lines (h : BodyLegible t owner m) : ∀ x ∈ methodLines t owner m, x.Legible :=
  forall_mem_methodLines (fun _ => trivial) h.points h.regions h.hints h.code

/-- **The lines of a printed method** give the method with its labels numbered, and its declarations in one -/
theorem BodyLegible.ofLines (h : BodyLegible t owner m) {lines : List BodyLine} (o : Nat)
    (hlines : List.Forall₂ (fun (x : MethodLine) l => ∃ o, l = x.lineAt o) (methodLines t owner m) lines) :
    ∃ b, Body.ofLines (m.id owner) o lines = .ok b ∧ b.code = m.renumbered.code ∧
      b.tryCatches = m.renumbered.tryCatches ∧ b.localVars = m.renumbered.localVars ∧
      b.declaration = redeclared t (m.id owner) := by
  have hlegible := h.forall_lines
  have hinsns := insns_methodLines t owner m
  have hregions := regions_methodLines t owner m
  have hhints := hints_methodLines t owner m
  have hdirectives := directives_methodLines t owner m
  have hlabels := labels_methodLines t owner m
  generalize methodLines t owner m = xs at hlines hlegible hinsns hregions hhints hdirectives hlabels
  have hadd : (bodyOf (m.id owner) m.order []).addLines lines = .ok (bodyOf (m.id owner) m.order ([] ++ xs)) :=
    bodyOf_addLines hlegible (hlabels ▸ List.prefix_rfl) (hinsns.symm ▸ h.once) hlines
  have hundefined : (bodyOf (m.id owner) m.order xs).undefined? = none := by
    have hall : (bodyOf (m.id owner) m.order xs).names.filter
        (fun n => !((bodyOf (m.id owner) m.order xs).defined.contains n)) = [] := by
      refine List.filter_eq_nil_iff.2 fun n hn => ?_
      obtain ⟨l, hl, rfl⟩ := List.mem_map.1 hn
      rw [hlabels] at hl
      have hdefined := h.defined l (Method.mem_order.1 hl)
      rw [← hinsns] at hdefined
      have hmem : l.text ∈ (bodyOf (m.id owner) m.order xs).defined := List.mem_map_of_mem hdefined
      simpa using hmem
    unfold Body.undefined?
    rw [hall]
  refine ⟨bodyOf (m.id owner) m.order xs, ?_, ?_, ?_, ?_, ?_⟩
  · unfold Body.ofLines
    rw [Effect.bind_of_ok (show (Body.empty (m.id owner)).addLines lines = _ from hadd), List.nil_append, hundefined]
  · exact congrArg (List.map _) hinsns
  · exact congrArg (List.map _) hregions
  · exact congrArg (List.map _) hhints
  · exact congrArg (declarationOf _) hdirectives

end
end Assembly
end Resumable
