import Resumable.Proofs.Relisting
import Resumable.Proofs.WellAssembled

/-!
# Programs of sources

The words of lines that were read stand in the code, the exception table, the hints and the restore points that are
built from them, and the names of classes, fields and methods are those of the source.  So the text of a program that
was built from a source says everything, as soon as no colon stands at the head of a restore point or of the type of a
region, and its constants are printed as they are read.

* `Body.insn_named`, `Awaits.worded` : instructions and restore points have words that can be read;
* `Body.From`, `Body.addLine_from` : what lines give to a body;
* `ClassFrom`, `ProgramFrom`, `assemble_from` : what is built from a source;
* `ColonFree`, `Printable`, `ProgramFrom.legible` : what is left to ask of it, and that its text then says everything.
-/

namespace Resumable

open Assembly

/-- the type of the region is not the word for all types, and stands first in a directive of the text -/
def TryCatch.TypedIn (text : List Char) (t : TryCatch) : Prop := ∀ type, t.catchType = some type →
  type ≠ "any" ∧ ∃ l, (BodyLine.directive l).StandsIn text ∧ l.operands.head? = some (.word type)

/-- name, owner and descriptor of the restore point are words, where they are given -/
structure RestorePoint.Worded (r : RestorePoint) : Prop where
  name : IsWord r.name
  owner : r.owner.isEmpty = false → IsWord r.owner
  desc : r.desc.isEmpty = false → IsWord r.desc

/-- the parts of a method have words that stand in the text -/
structure Worded (text : List Char) (code : List Insn) (regions : List TryCatch) (hints : List LocalVar) : Prop where
  code : ∀ i ∈ code, i.Named ∧ i.Numeric
  regions : ∀ t ∈ regions, t.TypedIn text
  hints : ∀ v ∈ hints, v.Named

theorem Worded.typed {text : List Char} {code : List Insn} {regions : List TryCatch} {hints : List LocalVar}
    (h : Worded text code regions hints) {t : TryCatch} (ht : t ∈ regions) {type : String}
    (htype : t.catchType = some type) : IsWord type := by
  obtain ⟨-, l, hl, hhead⟩ := h.regions t ht type htype
  exact hl.read type (List.mem_of_mem_head? hhead)

/-- the type of a region is told apart, if no colon is its first character -/
theorem Worded.named {text : List Char} {code : List Insn} {regions : List TryCatch} {hints : List LocalVar}
    (h : Worded text code regions hints) {t : TryCatch} (ht : t ∈ regions)
    (hcolon : ∀ type, t.catchType = some type → type.toList.head? ≠ some ':') : t.Named := fun type htype =>
  ⟨⟨h.typed ht htype, hcolon type htype⟩, (h.regions t ht type htype).1⟩

/-- a restore point of words can be listed, if no colon is the first character -/
theorem RestorePoint.Worded.listed {r : RestorePoint} (h : r.Worded) (hcolon : r.name.toList.head? ≠ some ':') :
    IsListed r where
  name := h.name
  colon := hcolon
  owner := h.owner
  desc := h.desc

namespace Assembly

/-! ## restore points -/

/-- **The restore point of a directive** is made of its words -/
theorem Awaits.worded {ws : List Operand} {r : RestorePoint} (h : Awaits ws r) (hws : ∀ w, .word w ∈ ws → IsWord w) :
    r.Worded := by
  induction h with
  | name n => exact ⟨hws n List.mem_cons_self, fun hne => (nomatch hne), fun hne => nomatch hne⟩
  | owner _ v ih =>
    have hr := ih fun w hw => hws w (List.mem_append_left _ hw)
    have hv := hws _ (List.mem_append_right _ List.mem_cons_self)
    exact { hr with owner := fun hne => hv.ofAppend fun heq => by simp [heq] at hne }
  | desc _ v ih =>
    have hr := ih fun w hw => hws w (List.mem_append_left _ hw)
    have hv := hws _ (List.mem_append_right _ List.mem_cons_self)
    exact { hr with desc := fun hne => hv.ofAppend fun heq => by simp [heq] at hne }
  | unpatchable _ ih =>
    have hr := ih fun w hw => hws w (List.mem_append_left _ hw)
    exact { hr with }

/-- the name of a restore point is the first word of its directive -/
theorem Awaits.head {ws : List Operand} {r : RestorePoint} (h : Awaits ws r) : ws.head? = some (.word r.name) := by
  induction h with
  | name n => rfl
  | owner _ _ ih | desc _ _ ih | unpatchable _ ih =>
    rw [List.head?_append, ih]
    rfl

/-- a restore point of a declaration stands in a directive -/
theorem DeclaresBody.exists_awaits {x : Declaration} {id : MethodId} {lines : List BodyLine}
    (h : DeclaresBody x id lines) {r : RestorePoint} (hr : r ∈ x.restorePoints) :
    ∃ l, .directive l ∈ lines ∧ Awaits l.operands r := by
  obtain ⟨l, hl, hawaits⟩ := exists_of_forall₂ h.points hr
  obtain ⟨line, hline, hawait⟩ := List.mem_filterMap.1 hl
  cases line with
  | label o name => exact nomatch hawait
  | insn l' => exact nomatch hawait
  | directive l' =>
    unfold BodyLine.await? at hawait
    dsimp only at hawait
    split at hawait
    · exact ⟨l, Option.some.inj hawait ▸ hline, hawaits⟩
    · exact nomatch hawait

/-! ## operands -/

/-- the two parts around the last dot -/
theorem eq_of_splitLastDot? {cs owner name : List Char} (h : splitLastDot? cs = some (owner, name)) :
    cs = owner ++ '.' :: name ∧ '.' ∉ name := by
  have hnone : ∀ {cs}, splitLastDot? cs = none → '.' ∉ cs := by
    intro cs h
    induction cs with
    | nil => simp
    | cons c cs ih =>
      unfold splitLastDot? at h
      split at h
      · exact nomatch h
      · rename_i hrest
        split at h
        · exact nomatch h
        · rename_i hc
          exact List.not_mem_cons_of_ne_of_not_mem (Ne.symm hc) (ih hrest)
  induction cs generalizing owner with
  | nil => exact nomatch h
  | cons c cs ih =>
    unfold splitLastDot? at h
    split at h
    · rename_i owner' name' hrest
      obtain ⟨rfl, rfl⟩ := Prod.mk.inj (Option.some.inj h)
      obtain ⟨heq, hdot⟩ := ih hrest
      exact ⟨congrArg (List.cons c) heq, hdot⟩
    · rename_i hrest
      split at h
      · rename_i hc
        obtain ⟨rfl, rfl⟩ := Prod.mk.inj (Option.some.inj h)
        exact ⟨by rw [hc]; rfl, hnone hrest⟩
      · exact nomatch h

namespace Line

variable {l : Line} {k : Nat} {w owner name : String}

theorem Worded.word (hl : l.Worded) (h : l.word k = .ok w) : IsWord w :=
  hl w (List.mem_of_getElem? (Body.getElem?_of_word h))

/-- the first operand can stand behind an opcode -/
theorem isFirst_of_read (hl : (BodyLine.insn l).Read) (h : l.word 0 = .ok w) : IsFirst w :=
  ⟨hl.1.word h, hl.2 w (by rw [List.head?_eq_getElem?]; exact Body.getElem?_of_word h)⟩

/-- the member that the first operand names -/
theorem isMember_of_read {desc : String} (hl : (BodyLine.insn l).Read) (h : l.member 0 = .ok (owner, name))
    (hdesc : l.word 1 = .ok desc) : IsMember owner name desc := by
  obtain ⟨w, hw, h⟩ := Effect.bind_eq_ok h
  split at h
  · rename_i owner' name' hsplit
    split at h
    · exact absurd h (by simp [error])
    · rename_i hne
      obtain ⟨rfl, rfl⟩ := Prod.mk.inj (Except.ok.inj h)
      obtain ⟨hparts, hdot⟩ := eq_of_splitLastDot? hsplit
      obtain ⟨howner, hname⟩ : owner' ≠ [] ∧ name' ≠ [] := by simpa using hne
      have htext : String.ofList owner' ++ "." ++ String.ofList name' = w := by
        rw [← String.toList_inj, hparts]
        simp
      exact {
        owner_ne := fun heq => howner (by simpa using congrArg String.toList heq)
        name_ne := fun heq => hname (by simpa using congrArg String.toList heq)
        dot := by rwa [String.toList_ofList]
        first := htext ▸ isFirst_of_read hl hw
        type := hl.1.word hdesc }
  · exact absurd h (by simp [error])

end Line

/-! ## instructions -/

namespace Body

variable {text : List Char} {b c : Body} {l : Line} {i : Insn} {ts : List Label} {lines : List BodyLine}

theorem typedInsn_named {k : Kind} {rest : List Char} (h : typedInsn l k rest = .ok i) : i.Named := by
  unfold typedInsn at h
  split at h
  · obtain ⟨slot, -, h⟩ := Effect.bind_eq_ok h
    exact Except.ok.inj h ▸ trivial
  · obtain ⟨slot, -, h⟩ := Effect.bind_eq_ok h
    exact Except.ok.inj h ▸ trivial
  · exact Except.ok.inj h ▸ trivial
  · exact Except.ok.inj h ▸ trivial
  · exact Except.ok.inj h ▸ trivial
  · split at h
    · exact absurd h (by simp [Line.error])
    split at h
    · exact Except.ok.inj h ▸ trivial
    split at h
    · exact Except.ok.inj h ▸ trivial
    · exact Except.ok.inj h ▸ trivial
    · exact absurd h (by simp [Line.error])

theorem familyInsn_named (h : b.familyInsn l = .ok (i, c)) : i.Named := by
  unfold familyInsn at h
  split at h
  · obtain ⟨t, rfl⟩ := insn_of_bind h
    trivial
  · obtain ⟨t, rfl⟩ := insn_of_bind h
    trivial
  split at h
  · split at h
    · obtain ⟨j, hj, h⟩ := Effect.bind_eq_ok h
      obtain ⟨rfl, -⟩ := Prod.mk.inj (Except.ok.inj h)
      exact typedInsn_named hj
    · exact absurd h (by simp [Line.error])
  · exact absurd h (by simp [Line.error])

theorem operandInsn?_named (h : b.operandInsn? l = some (.ok (i, c))) : i.Named := by
  unfold operandInsn? at h
  split at h
  all_goals first
    | replace h := Option.some.inj h
    | cases h
  case h_1 | h_2 | h_3 | h_4 | h_5 | h_7 =>
    obtain ⟨v, rfl⟩ := insn_of_bind h
    trivial
  case h_6 =>
    obtain ⟨slot, -, h⟩ := Effect.bind_eq_ok h
    obtain ⟨v, rfl⟩ := insn_of_bind h
    trivial
  case h_8 =>
    obtain ⟨low, -, h⟩ := Effect.bind_eq_ok h
    obtain ⟨d, -, h⟩ := Effect.bind_eq_ok h
    obtain ⟨ts, rfl⟩ := insn_of_bind h
    trivial
  case h_9 =>
    obtain ⟨d, -, h⟩ := Effect.bind_eq_ok h
    obtain ⟨cs, rfl⟩ := insn_of_bind h
    trivial

/-- **The instruction of a line** has the names that stand in the line -/
theorem insn_named (hl : (BodyLine.insn l).Read) (h : b.insn l = .ok (i, c)) : i.Named := by
  -- one case for each table of mnemonics, in the order in which they are looked up
  unfold insn at h
  split at h
  · rename_i j hj
    have hall : ∀ j ∈ bareInsns.map Prod.snd, j.Named := by
      simp [bareInsns, Insn.Named]
    obtain ⟨_, rfl⟩ := insn_of_bind h
    exact hall j (mem_of_lookup hj)
  split at h
  · rename_i jump hjump
    have hall : ∀ jump ∈ jumpInsns.map Prod.snd, ∀ t, (jump t).Named := by
      simp [jumpInsns, Insn.Named]
    obtain ⟨⟨t, _⟩, rfl⟩ := insn_of_bind h
    exact hall jump (mem_of_lookup hjump) t
  split at h
  · rename_i access haccess
    have hall : ∀ access ∈ fieldInsns.map Prod.snd, ∀ r, IsMember r.owner r.name r.desc → (access r).Named := by
      simp [fieldInsns, Insn.Named]
    obtain ⟨_, -, h⟩ := Effect.bind_eq_ok h
    obtain ⟨⟨owner, name⟩, hmember, h⟩ := Effect.bind_eq_ok h
    obtain ⟨desc, hdesc, h⟩ := Effect.bind_eq_ok h
    obtain ⟨rfl, -⟩ := Prod.mk.inj (Except.ok.inj h)
    exact hall access (mem_of_lookup haccess) _ (l.isMember_of_read hl hmember hdesc)
  split at h
  · obtain ⟨_, -, h⟩ := Effect.bind_eq_ok h
    obtain ⟨⟨owner, name⟩, hmember, h⟩ := Effect.bind_eq_ok h
    obtain ⟨desc, hdesc, h⟩ := Effect.bind_eq_ok h
    obtain ⟨rfl, -⟩ := Prod.mk.inj (Except.ok.inj h)
    exact l.isMember_of_read hl hmember hdesc
  split at h
  · rename_i make hmake
    have hall : ∀ make ∈ typeInsns.map Prod.snd, ∀ w, IsFirst w → (make w).Named := by
      simp [typeInsns, Insn.Named]
    obtain ⟨w, hw, h⟩ := Effect.bind_eq_ok h
    obtain ⟨rfl, -⟩ := Prod.mk.inj (Except.ok.inj h)
    exact hall make (mem_of_lookup hmake) w (l.isFirst_of_read hl hw)
  split at h
  · rename_i r hr
    exact operandInsn?_named (hr.trans (congrArg some h))
  · exact familyInsn_named h

/-! ## bodies -/

/-- what a body has so far comes from the text -/
structure From (text : List Char) (b : Body) : Prop where
  parts : Worded text b.code b.tryCatches b.localVars
  speaks : ∀ d ∈ b.declaration, d.Speaks

theorem from_empty (text : List Char) (m : MethodId) : (empty m).From text :=
  ⟨⟨fun _ h => (nomatch h), fun _ h => (nomatch h), fun _ h => nomatch h⟩, fun _ h => nomatch h⟩

theorem From.mentions (h : b.From text) (hc : b.Mentions ts c) : c.From text := by
  rw [hc.same]
  exact ⟨h.parts, h.speaks⟩

/-- an instruction or a label is put behind the others -/
theorem From.append (h : b.From text) (hi : i.Named ∧ i.Numeric) : { b with code := b.code ++ [i] }.From text :=
  ⟨{ h.parts with code := List.forall_mem_append.2 ⟨h.parts.code, List.forall_mem_singleton.2 hi⟩ }, h.speaks⟩

theorem addCatch_from (hl : (BodyLine.directive l).StandsIn text) (hb : b.From text) (h : b.addCatch l = .ok c) :
    c.From text := by
  obtain ⟨type, start, stop, handler, b₁, b₂, b₃, htype, hstart, hstop, hhandler, rfl⟩ := addCatch_eq_ok h
  have hall := ((hb.mentions (labelOperand_mentions hstart)).mentions (labelOperand_mentions hstop)).mentions
    (labelOperand_mentions hhandler)
  have hregion : TryCatch.TypedIn text ⟨start, stop, handler, if type = "any" then none else some type⟩ := by
    intro type' heq
    dsimp only at heq
    split at heq
    · exact nomatch heq
    · rename_i hany
      obtain rfl := Option.some.inj heq
      exact ⟨hany, l, hl, List.head?_eq_getElem? ▸ getElem?_of_word htype⟩
  exact ⟨{ hall.parts with
    regions := List.forall_mem_append.2 ⟨hall.parts.regions, List.forall_mem_singleton.2 hregion⟩ }, hall.speaks⟩

theorem addVar_from (hl : l.Worded) (hb : b.From text) (h : b.addVar l = .ok c) : c.From text := by
  obtain ⟨slot, name, desc, start, stop, b₁, b₂, hname, hdesc, hstart, hstop, rfl⟩ := addVar_eq_ok h
  have hall := (hb.mentions (labelOperand_mentions hstart)).mentions (labelOperand_mentions hstop)
  exact ⟨{ hall.parts with
    hints := List.forall_mem_append.2 ⟨hall.parts.hints, List.forall_mem_singleton.2 ⟨hl.word hname, hl.word hdesc⟩⟩ },
    hall.speaks⟩

/-- **A line** adds what comes from it -/
theorem addLine_from {line : BodyLine} (hline : line.StandsIn text) (hb : b.From text)
    (h : b.addLine line = .ok c) : c.From text := by
  cases line with
  | label o name =>
    obtain ⟨-, rfl⟩ := define_eq_ok h
    have hall := hb.mentions (label_mentions b name)
    have happend := hall.append (i := .label (b.label name).1) ⟨trivial, trivial⟩
    exact ⟨happend.parts, hall.speaks⟩
  | insn l =>
    obtain ⟨⟨i, c'⟩, hi, h⟩ := Effect.bind_eq_ok h
    obtain rfl := Except.ok.inj h
    exact (hb.mentions (insn_gives hi).mentions).append
      ⟨insn_named hline.read hi, Insn.Assembled.numeric (.inr ⟨b, c', l, hi⟩)⟩
  | directive l =>
    rcases addDirective_eq_ok h with ⟨-, h⟩ | ⟨-, h⟩ | ⟨-, h⟩ | ⟨-, h⟩
    · obtain ⟨r, -, rfl⟩ := addAwait_eq_ok h
      exact ⟨hb.parts, fun d hd => .inr (by rw [← Option.some.inj hd]; simp)⟩
    · obtain ⟨entry, rfl⟩ := addEntry_eq_ok h
      exact ⟨hb.parts, fun d hd => .inl (by rw [← Option.some.inj hd]; simp)⟩
    · exact addCatch_from hline hb h
    · exact addVar_from hline.read hb h

theorem addLines_from (hlines : ∀ line ∈ lines, line.StandsIn text) (hb : b.From text) (h : b.addLines lines = .ok c) :
    c.From text := by
  induction lines generalizing b with
  | nil => exact Except.ok.inj h ▸ hb
  | cons line lines ih =>
    obtain ⟨hline, hlines⟩ := List.forall_mem_cons.1 hlines
    obtain ⟨d, hd, h⟩ := Effect.bind_eq_ok h
    exact ih hlines (addLine_from hline hb hd) h

theorem ofLines_from {m : MethodId} {o : Nat} (hlines : ∀ line ∈ lines, line.StandsIn text)
    (h : ofLines m o lines = .ok b) : b.From text := by
  obtain ⟨c, hc, h⟩ := Effect.bind_eq_ok h
  split at h
  · exact absurd h (by simp)
  · obtain rfl := Except.ok.inj h
    exact addLines_from hlines (from_empty text m) hc

end Body

/-! ## methods -/

variable {text : List Char} {c c' : ClassDef} {ds ds' : List Declaration} {ms : List Member} {cd : ClassDecl}
  {cds : List ClassDecl} {a a' : Assembled} {m : Method}

/-- the method has the words of the text -/
structure MethodFrom (text : List Char) (m : Method) : Prop where
  declared : IsDeclared m.isStatic m.name m.desc
  parts : Worded text m.code m.tryCatches m.localVars

/-- **A method** comes from the lines of its body -/
theorem buildMethod_from {owner : String} {d : MethodDecl} {x : Option Declaration}
    (hd : (Member.method d).Read text) (h : buildMethod owner d = .ok (m, x)) :
    MethodFrom text m ∧ ∀ e ∈ x, e.Speaks := by
  obtain ⟨given, -, h⟩ := Effect.bind_eq_ok h
  obtain ⟨b, hb, h⟩ := Effect.bind_eq_ok h
  obtain ⟨rfl, rfl⟩ := Prod.mk.inj (Except.ok.inj h)
  have hall := Body.ofLines_from hd.2 hb
  exact ⟨⟨hd.1, hall.parts⟩, hall.speaks⟩

/-! ## classes -/

/-- names of the class can be read, its methods have the words of the text, and only the root has no superclass -/
structure ClassFrom (text : List Char) (c : ClassDef) : Prop where
  name : IsName c.name
  super : ∀ s ∈ c.superName, IsName s
  interfaces : ∀ s ∈ c.interfaces, IsName s
  fields : ∀ f ∈ c.fields, IsDeclared f.isStatic f.name f.desc
  methods : ∀ m ∈ c.methods, MethodFrom text m
  root : c.superName = none → c.name = objectType

/-- **Members** add what comes from them -/
theorem ClassFrom.members (h : ClassFrom text c)
    (hread : ∀ m ∈ ms, m.Read text) (hb : buildMembers c ds ms = .ok (c', ds')) : ClassFrom text c' := by
  induction ms generalizing c ds with
  | nil =>
    obtain ⟨rfl, rfl⟩ := Prod.mk.inj (Except.ok.inj hb)
    exact h
  | cons member ms ih =>
    obtain ⟨hmember, hrest⟩ := List.forall_mem_cons.1 hread
    cases member with
    | field f =>
      have hc : ClassFrom text { c with fields := c.fields ++ [⟨f.name, f.desc, f.isStatic⟩] } :=
        { h with fields := List.forall_mem_append.2 ⟨h.fields, List.forall_mem_singleton.2 hmember⟩ }
      exact ih hc hrest hb
    | method d =>
      obtain ⟨⟨m, x⟩, hbuild, hb⟩ := Effect.bind_eq_ok hb
      dsimp only at hb
      split at hb
      · exact absurd hb (by simp)
      · have hc : ClassFrom text { c with methods := c.methods ++ [m] } := { h with
          methods := List.forall_mem_append.2
            ⟨h.methods, List.forall_mem_singleton.2 (buildMethod_from hmember hbuild).1⟩ }
        exact ih hc hrest hb

theorem buildClass_from (hread : cd.Read text) (h : buildClass cd = .ok (c, ds)) : ClassFrom text c := by
  unfold buildClass at h
  refine ClassFrom.members ⟨hread.name, fun s hs => ?_, hread.interfaces, by simp, by simp, fun hnone => ?_⟩
    hread.members h
  · cases hsuper : cd.superName with
    | some s' =>
      rw [hsuper] at hs
      exact hread.super s (hsuper.trans hs)
    | none =>
      rw [hsuper] at hs
      dsimp only at hs
      split at hs
      · exact nomatch hs
      · obtain rfl := Option.some.inj hs
        decide
  · cases hsuper : cd.superName with
    | some s' => simp [hsuper] at hnone
    | none =>
      rw [hsuper] at hnone
      by_contra hne
      simp [hne] at hnone

/-! ## programs -/

theorem ordered_empty : Program.empty.Ordered := ⟨fun _ he => (nomatch he), Program.sorted_empty⟩

/-- a class that is added under its name keeps the order -/
theorem ordered_insert {p : Program} (h : p.Ordered) (c : ClassDef) : (p.insert c).Ordered where
  keys e he := by
    rcases Program.mem_of_mem_insertEntry he with rfl | he
    · rfl
    · exact h.keys e he
  sorted := Program.Sorted.insertAt h.sorted c.name c

/-- the classes of the program come from a source, and its table names no methods that start coroutines -/
structure ProgramFrom (text : List Char) (a : Assembled) : Prop where
  ordered : a.program.Ordered
  classes : ∀ e ∈ a.program.classes, ClassFrom text e.2
  entryNames : a.table.entryNames = none

/-- **Classes** add what comes from them -/
theorem ProgramFrom.addClasses (h : ProgramFrom text a) (hread : ∀ cd ∈ cds, cd.Read text)
    (hb : buildClasses a cds = .ok a') : ProgramFrom text a' := by
  induction cds generalizing a with
  | nil => exact Except.ok.inj hb ▸ h
  | cons cd cds ih =>
    obtain ⟨hcd, hread⟩ := List.forall_mem_cons.1 hread
    obtain ⟨⟨c, ds⟩, hbuild, hb⟩ := Effect.bind_eq_ok hb
    dsimp only at hb
    split at hb
    · exact absurd hb (by simp)
    · have hadded : ProgramFrom text
          ⟨a.program.insert c, { a.table with declarations := a.table.declarations ++ ds }⟩ := {
        ordered := ordered_insert h.ordered c
        classes := fun e he => by
          rcases Program.mem_of_mem_insertEntry he with rfl | he
          · exact buildClass_from hcd hbuild
          · exact h.classes e he
        entryNames := h.entryNames }
      exact ih hadded hread hb

/-- **What is built from a source** comes from its classes -/
theorem assemble_from {source : String} (h : assemble source = .ok a) :
    ∃ cds, (∀ cd ∈ cds, cd.Read source.toList) ∧ WellAssembled cds a ∧ ProgramFrom source.toList a := by
  unfold assemble at h
  split at h
  · exact absurd h (by simp)
  rename_i cds hparse
  split at h
  · rename_i a' hbuild
    obtain rfl := Except.ok.inj h
    have hread : ∀ cd ∈ cds, cd.Read source.toList := fun cd hcd => Source.parse_read hparse hcd
    have hempty : ProgramFrom source.toList .empty := ⟨ordered_empty, fun _ he => (nomatch he), rfl⟩
    exact ⟨cds, hread, wellAssembled_empty.classes hbuild, hempty.addClasses hread hbuild⟩
  · exact absurd h (by simp)

/-! ## what is left to ask -/

/-- no restore point and no type of a region starts with a colon -/
structure ColonFree (a : Assembled) : Prop where
  points : ∀ d ∈ a.table.declarations, ∀ r ∈ d.restorePoints, r.name.toList.head? ≠ some ':'
  regions : ∀ e ∈ a.program.classes, ∀ m ∈ e.2.methods, ∀ t ∈ m.tryCatches, ∀ type, t.catchType = some type →
    type.toList.head? ≠ some ':'

/-- no label stands in a method twice, as it would if there were more labels than numbers -/
def LabelsDiffer (p : Program) : Prop := ∀ e ∈ p.classes, ∀ m ∈ e.2.methods, (labelsIn m.code).Nodup

/-- constants are printed as they are read, and the root type has no superclass that it would lose in a listing -/
structure Printable (p : Program) : Prop where
  constants : ∀ e ∈ p.classes, ∀ m ∈ e.2.methods, ∀ i ∈ m.code, i.PrintsBack
  root : ∀ e ∈ p.classes, e.2.name = objectType → e.2.superName ≠ some objectType

instance (a : Assembled) : Decidable (ColonFree a) :=
  decidable_of_iff ((∀ d ∈ a.table.declarations, ∀ r ∈ d.restorePoints, r.name.toList.head? ≠ some ':') ∧
    ∀ e ∈ a.program.classes, ∀ m ∈ e.2.methods, ∀ t ∈ m.tryCatches, ∀ type ∈ t.catchType, type.toList.head? ≠ some ':')
    ⟨fun h => ⟨h.1, h.2⟩, fun h => ⟨h.points, h.regions⟩⟩

instance (p : Program) : Decidable (LabelsDiffer p) :=
  inferInstanceAs (Decidable (∀ e ∈ p.classes, ∀ m ∈ e.2.methods, (labelsIn m.code).Nodup))

instance (p : Program) : Decidable (Printable p) :=
  decidable_of_iff ((∀ e ∈ p.classes, ∀ m ∈ e.2.methods, ∀ i ∈ m.code, i.PrintsBack) ∧
    ∀ e ∈ p.classes, e.2.name = objectType → e.2.superName ≠ some objectType)
    ⟨fun h => ⟨h.1, h.2⟩, fun h => ⟨h.constants, h.root⟩⟩

section
variable (hread : ∀ cd ∈ cds, cd.Read text) (hwell : WellAssembled cds a)
include hread hwell

/-- a declaration of a source has a directive, and the descriptor of a method -/
theorem speaks_of_mem {d : Declaration} (hd : d ∈ a.table.declarations) : d.Speaks ∧ d.desc ≠ "" := by
  obtain ⟨cd, hcd, md, m, hmd, hbody, hbuild, -⟩ := hwell.declared d hd
  have hmember := (hread cd hcd).members _ hmd
  have hdesc : d.desc = md.desc := congrArg MethodId.desc hbody.id
  exact ⟨(buildMethod_from hmember hbuild).2 d rfl, fun heq => hmember.1.desc.ne (by rw [← hdesc, heq]; rfl)⟩

/-- a restore point of a source stands in a directive -/
theorem awaits_of_mem {d : Declaration} (hd : d ∈ a.table.declarations) {r : RestorePoint} (hr : r ∈ d.restorePoints) :
    ∃ l, (BodyLine.directive l).StandsIn text ∧ Awaits l.operands r := by
  obtain ⟨cd, hcd, md, m, hmd, hbody, -, -⟩ := hwell.declared d hd
  obtain ⟨l, hl, hawaits⟩ := hbody.exists_awaits hr
  exact ⟨l, ((hread cd hcd).members _ hmd).2 _ hl, hawaits⟩

/-- the words of a restore point of a source can be read -/
theorem worded_of_mem {d : Declaration} (hd : d ∈ a.table.declarations) {r : RestorePoint} (hr : r ∈ d.restorePoints) :
    r.Worded := by
  obtain ⟨l, hl, hawaits⟩ := awaits_of_mem hread hwell hd hr
  exact hawaits.worded hl.read

/-- the restore points of a source can be listed, if they do not start with a colon -/
theorem isListed_of_mem (hcolon : ColonFree a) {d : Declaration} (hd : d ∈ a.table.declarations) {r : RestorePoint}
    (hr : r ∈ d.restorePoints) : IsListed r :=
  (worded_of_mem hread hwell hd hr).listed (hcolon.points d hd r hr)

/-- **The names of a program of a source** can be read in its text, if no colon is in the way -/
theorem ProgramFrom.named (h : ProgramFrom text a) (hcolon : ColonFree a) :
    ∀ e ∈ a.program.classes, ClassNamed a.table e.2 := by
  intro e he
  have hc := h.classes e he
  refine ⟨hc.name, hc.super, hc.interfaces, hc.fields, fun m hm => (hc.methods m hm).declared, fun m hm => ?_⟩
  have hparts := (hc.methods m hm).parts
  exact forall_mem_methodLines (fun _ => trivial)
    (fun d hd r hr => isListed_of_mem hread hwell hcolon (List.mem_of_mem_filter hd) hr)
    (fun t ht => hparts.named ht (hcolon.regions e he m hm t ht)) hparts.hints fun i hi => (hparts.code i hi).1

/-- **A program of a source says everything** in its text, if besides no label stands in a method twice -/
theorem ProgramFrom.legible (h : ProgramFrom text a) (hprints : Printable a.program) (hcolon : ColonFree a)
    (hlabels : LabelsDiffer a.program) : ProgramLegible a.program a.table := by
  refine ⟨h.ordered, fun e he => ?_⟩
  have hc := h.classes e he
  refine ⟨hc.name, hc.super, hc.interfaces, hc.fields, fun m hm => (hc.methods m hm).declared, fun m hm => ?_,
    hwell.distinct e he, fun hsuper => ?_⟩
  · obtain ⟨n, hlabelled⟩ := hwell.labelled e he m hm
    have hparts := (hc.methods m hm).parts
    exact {
      points := fun d hd r hr => isListed_of_mem hread hwell hcolon (List.mem_of_mem_filter hd) hr
      regions := fun t ht => hparts.named ht (hcolon.regions e he m hm t ht)
      hints := hparts.hints
      code := fun i hi => ⟨(hparts.code i hi).1, (hparts.code i hi).2, hprints.constants e he m hm i hi⟩
      -- a label that is mentioned is one of the first ones, and these are defined
      defined := fun l hl => by
        obtain ⟨i, hi, rfl⟩ := (hlabelled.mentioned l).1 hl
        exact hlabelled.defined.mem_iff.2 (List.mem_map_of_mem (List.mem_range.2 hi))
      once := hlabels e he m hm }
  · rcases hsuper with hsuper | hsuper
    · rw [hsuper, if_pos (hc.root hsuper)]
    · rw [hsuper, if_neg fun hname => hprints.root e he hname hsuper]

end

end Assembly
end Resumable
