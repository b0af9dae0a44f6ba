import Mathlib.Data.List.Forall2
import Resumable.Assembly.Build
import Resumable.Assembly.Listing
import Resumable.Proofs.Effects
import Resumable.Proofs.Readers

/-!
# Declarations in a listing

A listing has, before the code of a method, the directives of all declarations that apply to the method.
Reading them again gives one declaration.  It has the restore points of all of them, in their order; but
while a table asks the first declaration that says whether the method starts a coroutine, the last directive
that says so stays.

* `Directive`, `directivesOf`, `foldl_directives` : what a declaration prints, and what directives add;
* `IsDirective.reads` : a printed directive is read as what it was printed from;
* `Body.keeps_line`, `Body.addLine_directive` : lines of other kinds, and of this one;
* `declarations_listed` : what a table says of a method, and what the table of its listing says.
-/

namespace Resumable.Assembly

open Reader

/-! ## directives -/

section
variable {ws : List String} {op : String}

/-- the text of a directive -/
def directiveText (op : String) (ws : List String) : List Char := '.' :: op.toList ++ spaced ws

/-- a directive that the grammar can tell from a label -/
structure IsDirective (op : String) (ws : List String) : Prop where
  ne : op.toList ≠ []
  chars : op.toList.all isOpcodeChar = true
  words : ∀ w ∈ ws, IsWord w
  colon : ∀ w, ws.head? = some w → w.toList.head? ≠ some ':'

/-- a line with a directive does not define a label -/
theorem IsDirective.refuses_label (h : IsDirective op ws) (rest : List Char) :
    Refuses labelLine (directiveText op ws ++ '\n' :: rest) := by
  have hchars : ∀ c ∈ '.' :: op.toList, isNameChar c = true :=
    List.forall_mem_cons.2 ⟨by decide, fun c hc => isNameChar_of_opcode (List.all_eq_true.1 h.chars c hc)⟩
  have hstop : ∀ c, (spaced ws ++ '\n' :: rest).head? = some c → isNameChar c = false := by
    obtain ⟨c, cs, hcs, hc⟩ := spaced_line ws rest
    rw [hcs]
    exact fun d hd => Option.some.inj hd ▸ hc.not_name
  unfold directiveText
  rw [List.append_assoc]
  exact refuses_labelLine (by simp) hchars hstop (refuses_colon h.words h.colon rest)

/-- **A directive** is read as what it was printed from -/
theorem IsDirective.reads (h : IsDirective op ws) (rest : List Char) :
    Reads bodyLine (directiveText op ws ++ '\n' :: rest) ('\n' :: rest) fun l =>
      ∃ o, l = .directive ⟨o, op, ws.map .word⟩ := by
  obtain ⟨c, cs, hcs, hc⟩ := spaced_line ws rest
  have hstop : ∀ d, (spaced ws ++ '\n' :: rest).head? = some d → isOpcodeChar d = false := by
    rw [hcs]
    intro d hd
    exact Option.some.inj hd ▸ hc.not_opcode
  have hopcode : Reads (next opcode) (op.toList ++ (spaced ws ++ '\n' :: rest)) (spaced ws ++ '\n' :: rest)
      (· = op) := by
    refine Reads.next ?_
    rw [skipLength_opcode h.ne (List.all_eq_true.1 h.chars), List.drop_zero]
    exact (reads_token h.ne (List.all_eq_true.1 h.chars) hstop).mono fun _ ha => by rw [ha, String.ofList_toList]
  have hline : Reads directiveLine (directiveText op ws ++ '\n' :: rest) ('\n' :: rest) fun l =>
      ∃ o, l = .directive ⟨o, op, ws.map .word⟩ := by
    unfold directiveText
    rw [List.append_assoc]
    refine .rule (.bind (reads_offset _) fun o _ => .bind (reads_word ['.'] _) fun _ _ =>
      .bind hopcode fun _ hop => .bind (reads_operands h.words rest) fun _ hws => ?_)
    rw [hop, hws]
    exact (reads_pure _ _).mono fun _ hl => ⟨o, hl⟩
  exact (h.refuses_label rest).orElse hline.orElse

end

/-! ## what a listing declares -/

/-- a directive of a declaration -/
inductive Directive where
  | entry (starts : Bool)
  | await (point : RestorePoint)

namespace Directive

def opcode : Directive → String
  | entry _ => "entry"
  | await _ => "await"

/-- the operands that are printed -/
def words : Directive → List String
  | entry starts => if starts then [] else ["false"]
  | await r => r.name :: ((if r.owner.isEmpty then [] else ["owner=" ++ r.owner]) ++
      (if r.desc.isEmpty then [] else ["desc=" ++ r.desc]) ++ if r.patchable then [] else ["unpatchable"])

/-- the line that is printed -/
def text (x : Directive) : String := String.ofList (directiveText x.opcode x.words)

/-- what the directive adds to a declaration -/
def add (d : Declaration) : Directive → Declaration
  | entry starts => { d with entry := some starts }
  | await r => { d with restorePoints := d.restorePoints ++ [r] }

end Directive

/-- the directives of a declaration, in the order in which they are printed -/
def directivesOf (d : Declaration) : List Directive :=
  d.entry.toList.map .entry ++ d.restorePoints.map .await

theorem awaitText_eq (r : RestorePoint) : awaitText r = (Directive.await r).text := by
  rw [← String.toList_inj]
  unfold Directive.text directiveText awaitText spaced wordIf
  cases hr : r.owner.isEmpty <;> cases hd : r.desc.isEmpty <;> cases hp : r.patchable <;>
    simp [Directive.words, Directive.opcode, hr, hd, hp]

theorem declarationLines_eq (d : Declaration) :
    declarationLines d = (directivesOf d).map Directive.text := by
  have hpoints : d.restorePoints.map awaitText = (d.restorePoints.map Directive.await).map Directive.text := by
    rw [List.map_map]
    exact List.map_congr_left fun r _ => awaitText_eq r
  unfold declarationLines directivesOf
  rw [List.map_append, hpoints]
  congr 1
  cases d.entry with
  | none => rfl
  | some starts => cases starts <;> rfl

/-- **Directives of declarations** one after another: the last entry stays, and all restore points -/
theorem foldl_directives (ds : List Declaration) (d : Declaration) :
    (ds.flatMap directivesOf).foldl Directive.add d =
      { d with
        entry := (ds.reverse.findSome? Declaration.entry).or d.entry
        restorePoints := d.restorePoints ++ ds.flatMap Declaration.restorePoints } := by
  have hpoints (rs : List RestorePoint) (d : Declaration) : (rs.map Directive.await).foldl Directive.add d =
      { d with restorePoints := d.restorePoints ++ rs } := by
    induction rs generalizing d with
    | nil => simp
    | cons r rs ih =>
      rw [List.map_cons, List.foldl_cons, ih]
      simp [Directive.add]
  have hone (e d : Declaration) : (directivesOf e).foldl Directive.add d =
      { d with entry := e.entry.or d.entry, restorePoints := d.restorePoints ++ e.restorePoints } := by
    unfold directivesOf
    rw [List.foldl_append, hpoints]
    cases e.entry <;> rfl
  induction ds generalizing d with
  | nil => simp
  | cons e ds ih =>
    rw [List.flatMap_cons, List.foldl_append, hone, ih, List.reverse_cons, List.findSome?_append,
      List.flatMap_cons, List.append_assoc]
    cases hrest : ds.reverse.findSome? Declaration.entry <;> simp

/-! ## a line that is read -/

/-- names, owners and descriptors are words, and no name starts with a colon -/
structure IsListed (r : RestorePoint) : Prop where
  name : IsWord r.name
  colon : r.name.toList.head? ≠ some ':'
  owner : r.owner.isEmpty = false → IsWord r.owner
  desc : r.desc.isEmpty = false → IsWord r.desc

/-- a key in front of a word -/
theorem IsWord.keyed {key w : String} (hkey : key.toList.all isPlain = true) (h : IsWord w) :
    IsWord (key ++ w) := by
  have htext : (key ++ w).toList = key.toList ++ w.toList := String.toList_append
  refine ⟨by rw [htext]; exact fun heq => h.ne (List.append_eq_nil_iff.1 heq).2, ?_⟩
  rw [htext, wordLength_plain (List.all_eq_true.1 hkey), h.whole, List.length_append]

/-- the operands of a directive are words if what they are made of are words -/
theorem isWord_await {r : RestorePoint} (hname : IsWord r.name) (howner : r.owner.isEmpty = false → IsWord r.owner)
    (hdesc : r.desc.isEmpty = false → IsWord r.desc) : ∀ w ∈ (Directive.await r).words, IsWord w := by
  have hoption {s key : String} (hs : s.isEmpty = false → IsWord s) (hkey : key.toList.all isPlain = true) :
      ∀ w ∈ if s.isEmpty then [] else [key ++ s], IsWord w := by
    intro w hw
    split at hw
    · exact absurd hw (by simp)
    · rename_i hne
      rw [List.mem_singleton.1 hw]
      exact (hs (by simpa using hne)).keyed hkey
  have hpatchable : ∀ w ∈ if r.patchable then [] else ["unpatchable"], IsWord w := by
    split
    · exact fun _ hw => nomatch hw
    · exact List.forall_mem_singleton.2 (by decide)
  exact List.forall_mem_cons.2 ⟨hname, List.forall_mem_append.2
    ⟨List.forall_mem_append.2 ⟨hoption howner rfl, hoption hdesc rfl⟩, hpatchable⟩⟩

theorem IsListed.directive {r : RestorePoint} (h : IsListed r) :
    IsDirective "await" (Directive.await r).words :=
  ⟨by decide, rfl, isWord_await h.name h.owner h.desc, fun w hw => by
    rw [← Option.some.inj hw]
    exact h.colon⟩

/-- the restore point of a directive, if there is one, can be listed -/
def Directive.Listed : Directive → Prop
  | entry _ => True
  | await r => IsListed r

theorem Directive.Listed.directive {x : Directive} (h : x.Listed) : IsDirective x.opcode x.words := by
  cases x with
  | entry starts =>
    have hwords : ∀ w ∈ (entry starts).words, w = "false" := by
      cases starts <;> simp [words]
    have hchars : "entry".toList.all isOpcodeChar = true := rfl
    refine ⟨show "entry".toList ≠ [] by decide, hchars, fun w hw => ?_, fun w hw => ?_⟩
    · rw [hwords w hw]
      decide
    · rw [hwords w (List.mem_of_mem_head? hw)]
      decide
  | await r => exact IsListed.directive h

/-- **A printed directive** is read as a directive, in every place -/
theorem Directive.Listed.reads {x : Directive} (h : x.Listed) (rest : List Char) :
    Reads bodyLine (x.text.toList ++ '\n' :: rest) ('\n' :: rest) fun l =>
      ∃ o, l = .directive ⟨o, x.opcode, x.words.map .word⟩ := by
  have htext : x.text.toList = directiveText x.opcode x.words := String.toList_ofList
  rw [htext]
  exact h.directive.reads rest

namespace Body

variable {b c : Body} {l : Line} {m : MethodId} {α β : Type}

/-- method and declaration stay -/
structure Keeps (b c : Body) : Prop where
  method : c.method = b.method
  declaration : c.declaration = b.declaration

theorem Keeps.refl (b : Body) : b.Keeps b := ⟨rfl, rfl⟩

theorem Keeps.trans {d : Body} (h : b.Keeps c) (h' : c.Keeps d) : b.Keeps d :=
  ⟨h'.method.trans h.method, h'.declaration.trans h.declaration⟩

/-- what is computed from a body has its method and its declaration -/
def Keeping (b : Body) (x : Except BuildError (α × Body)) : Prop := ∀ r, x = .ok r → b.Keeps r.2

theorem keeping_ok (a : α) (h : b.Keeps c) : b.Keeping (.ok (a, c)) := by
  intro r hr
  rw [← Except.ok.inj hr]
  exact h

theorem keeping_error (l : Line) (f : LineFailure) : b.Keeping (l.error f : Except BuildError (α × Body)) :=
  fun _ hr => absurd hr (by simp [Line.error])

theorem Keeping.bind {x : Except BuildError (α × Body)} {k : α × Body → Except BuildError (β × Body)}
    (hx : b.Keeping x) (hk : ∀ a c, b.Keeps c → c.Keeping (k (a, c))) : b.Keeping (x >>= k) := by
  intro r hr
  obtain ⟨⟨a, c⟩, hc, hr⟩ := Effect.bind_eq_ok hr
  have hkeeps := hx _ hc
  exact hkeeps.trans (hk a c hkeeps r hr)

theorem keeping_bind {x : Except BuildError α} {k : α → Except BuildError (β × Body)}
    (hk : ∀ a, b.Keeping (k a)) : b.Keeping (x >>= k) := by
  intro r hr
  obtain ⟨a, -, hr⟩ := Effect.bind_eq_ok hr
  exact hk a r hr

theorem keeps_label (b : Body) (name : String) : b.Keeps (b.label name).2 := by
  unfold label
  split <;> exact ⟨rfl, rfl⟩

theorem keeping_labelOperand (b : Body) (l : Line) (i : Nat) : b.Keeping (b.labelOperand l i) :=
  keeping_bind fun w => keeping_ok (b.label w).1 (keeps_label b w)

theorem keeping_labelOperands (b : Body) (l : Line) (is : List Nat) : b.Keeping (b.labelOperands l is) := by
  induction is generalizing b with
  | nil => exact keeping_ok _ (.refl b)
  | cons i is ih =>
    exact .bind (keeping_labelOperand b l i) fun _ c _ => .bind (ih c) fun _ _ _ => keeping_ok _ (.refl _)

theorem keeping_switchCases (b : Body) (l : Line) (is : List Nat) : b.Keeping (b.switchCases l is) := by
  induction is generalizing b with
  | nil => exact keeping_ok _ (.refl b)
  | cons i is ih =>
    refine keeping_bind fun w => ?_
    split
    · exact keeping_error _ _
    · rename_i key target _
      split
      · exact keeping_error _ _
      · intro r hr
        obtain ⟨cs, hcs, hr⟩ := Effect.bind_eq_ok hr
        rw [← Except.ok.inj hr]
        exact (keeps_label b target).trans (ih _ cs hcs)

theorem keeping_familyInsn (b : Body) (l : Line) : b.Keeping (b.familyInsn l) := by
  unfold familyInsn
  split
  · exact .bind (keeping_labelOperand b l 0) fun _ _ _ => keeping_ok _ (.refl _)
  · exact .bind (keeping_labelOperand b l 0) fun _ _ _ => keeping_ok _ (.refl _)
  · split
    · split
      · exact keeping_bind fun _ => keeping_ok _ (.refl b)
      · exact keeping_error _ _
    · exact keeping_error _ _

theorem keeping_operandInsn {x : Except BuildError (Insn × Body)} (h : b.operandInsn? l = some x) :
    b.Keeping x := by
  unfold operandInsn? at h
  split at h
  all_goals first
    | (rw [← Option.some.inj h]; clear h)
    | cases h
  case h_1 | h_2 | h_3 | h_4 | h_5 | h_7 => exact keeping_bind fun _ => keeping_ok _ (.refl b)
  case h_6 => exact keeping_bind fun _ => keeping_bind fun _ => keeping_ok _ (.refl b)
  case h_8 =>
    exact keeping_bind fun _ => .bind (keeping_labelOperand b l 1) fun _ c _ =>
      .bind (keeping_labelOperands c l _) fun _ _ _ => keeping_ok _ (.refl _)
  case h_9 =>
    exact .bind (keeping_labelOperand b l 0) fun _ c _ =>
      .bind (keeping_switchCases c l _) fun _ _ _ => keeping_ok _ (.refl _)

theorem keeping_insn (b : Body) (l : Line) : b.Keeping (b.insn l) := by
  unfold insn
  split
  · exact keeping_bind fun _ => keeping_ok _ (.refl b)
  split
  · exact .bind (keeping_labelOperand b l 0) fun _ _ _ => keeping_ok _ (.refl _)
  split
  · exact keeping_bind fun _ => keeping_bind fun _ => keeping_bind fun _ => keeping_ok _ (.refl b)
  split
  · exact keeping_bind fun _ => keeping_bind fun _ => keeping_bind fun _ => keeping_ok _ (.refl b)
  split
  · exact keeping_bind fun _ => keeping_ok _ (.refl b)
  split
  · rename_i h
    exact keeping_operandInsn h
  · exact keeping_familyInsn b l

/-- a line with a directive that says something about suspension -/
def Declares : BodyLine → Prop
  | .directive l => l.opcode = "await" ∨ l.opcode = "entry"
  | _ => False

/-- a name is defined once, and has a label -/
theorem define_eq_ok {o : Nat} {name : String} (h : b.define o name = .ok c) : name ∉ b.defined ∧
    c = { (b.label name).2 with
      defined := (b.label name).2.defined ++ [name], code := (b.label name).2.code ++ [.label (b.label name).1] } := by
  unfold define at h
  split at h
  · exact absurd h (by simp)
  · rename_i hnew
    exact ⟨hnew, (Except.ok.inj h).symm⟩

/-- a directive is of one of four kinds -/
theorem addDirective_eq_ok (h : b.addDirective l = .ok c) :
    (l.opcode = "await" ∧ b.addAwait l = .ok c) ∨ (l.opcode = "entry" ∧ b.addEntry l = .ok c) ∨
      (l.opcode = "catch" ∧ b.addCatch l = .ok c) ∨ (l.opcode = "var" ∧ b.addVar l = .ok c) := by
  unfold addDirective at h
  split at h
  · rename_i hop
    exact .inl ⟨hop, h⟩
  · rename_i hop
    exact .inr (.inl ⟨hop, h⟩)
  · rename_i hop
    exact .inr (.inr (.inl ⟨hop, h⟩))
  · rename_i hop
    exact .inr (.inr (.inr ⟨hop, h⟩))
  · exact absurd h (by simp [Line.error])

/-- what says whether the method starts a coroutine changes the declaration -/
theorem addEntry_eq_ok (h : b.addEntry l = .ok c) :
    ∃ entry, c = { b with declaration := some { b.declared with entry := some entry } } := by
  unfold addEntry at h
  split at h
  · exact ⟨true, (Except.ok.inj h).symm⟩
  · obtain ⟨entry, -, h⟩ := Effect.bind_eq_ok h
    exact ⟨entry, (Except.ok.inj h).symm⟩

/-- an exception region has a type and mentions three labels -/
theorem addCatch_eq_ok (h : b.addCatch l = .ok c) : ∃ type start stop handler b₁ b₂ b₃, l.word 0 = .ok type ∧
    b.labelOperand l 2 = .ok (start, b₁) ∧ b₁.labelOperand l 4 = .ok (stop, b₂) ∧
      b₂.labelOperand l 6 = .ok (handler, b₃) ∧ c = { b₃ with
        tryCatches := b₃.tryCatches ++ [⟨start, stop, handler, if type = "any" then none else some type⟩] } := by
  obtain ⟨-, -, h⟩ := Effect.bind_eq_ok h
  obtain ⟨type, htype, h⟩ := Effect.bind_eq_ok h
  obtain ⟨-, -, h⟩ := Effect.bind_eq_ok h
  obtain ⟨-, -, h⟩ := Effect.bind_eq_ok h
  obtain ⟨-, -, h⟩ := Effect.bind_eq_ok h
  obtain ⟨⟨start, b₁⟩, hstart, h⟩ := Effect.bind_eq_ok h
  obtain ⟨⟨stop, b₂⟩, hstop, h⟩ := Effect.bind_eq_ok h
  obtain ⟨⟨handler, b₃⟩, hhandler, h⟩ := Effect.bind_eq_ok h
  exact ⟨type, start, stop, handler, b₁, b₂, b₃, htype, hstart, hstop, hhandler, (Except.ok.inj h).symm⟩

/-- a hint has a name and a descriptor and mentions two labels -/
theorem addVar_eq_ok (h : b.addVar l = .ok c) : ∃ slot name desc start stop b₁ b₂, l.word 1 = .ok name ∧
    l.word 2 = .ok desc ∧ b.labelOperand l 4 = .ok (start, b₁) ∧ b₁.labelOperand l 6 = .ok (stop, b₂) ∧
      c = { b₂ with localVars := b₂.localVars ++ [⟨slot, name, desc, start, stop⟩] } := by
  obtain ⟨-, -, h⟩ := Effect.bind_eq_ok h
  obtain ⟨-, -, h⟩ := Effect.bind_eq_ok h
  obtain ⟨-, -, h⟩ := Effect.bind_eq_ok h
  obtain ⟨slot, -, h⟩ := Effect.bind_eq_ok h
  obtain ⟨name, hname, h⟩ := Effect.bind_eq_ok h
  obtain ⟨desc, hdesc, h⟩ := Effect.bind_eq_ok h
  obtain ⟨⟨start, b₁⟩, hstart, h⟩ := Effect.bind_eq_ok h
  obtain ⟨⟨stop, b₂⟩, hstop, h⟩ := Effect.bind_eq_ok h
  exact ⟨slot, name, desc, start, stop, b₁, b₂, hname, hdesc, hstart, hstop, (Except.ok.inj h).symm⟩

theorem keeps_catch (h : b.addCatch l = .ok c) : b.Keeps c := by
  obtain ⟨type, start, stop, handler, b₁, b₂, b₃, -, hstart, hstop, hhandler, rfl⟩ := addCatch_eq_ok h
  have hkeeps := ((keeping_labelOperand _ _ _ _ hstart).trans (keeping_labelOperand _ _ _ _ hstop)).trans
    (keeping_labelOperand _ _ _ _ hhandler)
  exact ⟨hkeeps.method, hkeeps.declaration⟩

theorem keeps_var (h : b.addVar l = .ok c) : b.Keeps c := by
  obtain ⟨slot, name, desc, start, stop, b₁, b₂, -, -, hstart, hstop, rfl⟩ := addVar_eq_ok h
  have hkeeps := (keeping_labelOperand _ _ _ _ hstart).trans (keeping_labelOperand _ _ _ _ hstop)
  exact ⟨hkeeps.method, hkeeps.declaration⟩

/-- **The other lines** leave method and declaration alone -/
theorem keeps_line {line : BodyLine} (hline : ¬ Declares line) (h : b.addLine line = .ok c) : b.Keeps c := by
  cases line with
  | label offset name =>
    obtain ⟨-, rfl⟩ := define_eq_ok h
    have hkeeps := keeps_label b name
    exact ⟨hkeeps.method, hkeeps.declaration⟩
  | insn l =>
    obtain ⟨r, hr, h⟩ := Effect.bind_eq_ok h
    have hkeeps := keeping_insn b l r hr
    rw [← Except.ok.inj h]
    exact ⟨hkeeps.method, hkeeps.declaration⟩
  | directive l =>
    rcases addDirective_eq_ok h with ⟨hop, -⟩ | ⟨hop, -⟩ | ⟨-, h⟩ | ⟨-, h⟩
    · exact absurd (.inl hop) hline
    · exact absurd (.inr hop) hline
    · exact keeps_catch h
    · exact keeps_var h

theorem splitFirst_keyed {sep : Char} {value : String} (key mid : String) (hmid : mid.toList = [sep]) (h : sep ∉ key.toList) :
    splitFirst? sep (key ++ mid ++ value) = some (key, value) := by
  have htext : (key ++ mid ++ value).toList = key.toList ++ sep :: value.toList := by simp [hmid]
  have hkey : ∀ c ∈ key.toList, (c != sep) = true := by
    intro c hc
    refine bne_iff_ne.2 ?_
    rintro rfl
    exact h hc
  unfold splitFirst?
  rw [htext, List.dropWhile_append_of_pos hkey, List.takeWhile_append_of_pos hkey]
  simp

/-- the operands from one on -/
theorem operandsFrom_of_lt {k : Nat} (h : k < l.operands.length) :
    operandsFrom l k = k :: operandsFrom l (k + 1) := by
  unfold operandsFrom
  rw [List.drop_eq_getElem_cons (by rwa [List.length_range]), List.getElem_range]

theorem operandsFrom_of_le {k : Nat} (h : l.operands.length ≤ k) : operandsFrom l k = [] :=
  List.drop_eq_nil_of_le (by rwa [List.length_range])

/-- words behind others: the first of them, and the rest -/
theorem operandsFrom_words {before ws : List String} {w : String}
    (hl : l.operands = (before ++ w :: ws).map .word) :
    operandsFrom l before.length = before.length :: operandsFrom l (before ++ [w]).length ∧
      l.word before.length = .ok w ∧ l.operands = ((before ++ [w]) ++ ws).map .word := by
  refine ⟨?_, ?_, ?_⟩
  · rw [operandsFrom_of_lt (by rw [hl]; simp), List.length_append]
    rfl
  · unfold Line.word
    simp [hl]
  · rw [hl, List.append_assoc]
    rfl

/-- the options of a restore point are the words after its name -/
theorem awaitOptions_eq (l : Line) (r : RestorePoint) (before ws : List String)
    (hl : l.operands = (before ++ ws).map .word) :
    awaitOptions l r (operandsFrom l before.length) = ws.foldlM (awaitOption l) r := by
  induction ws generalizing before r with
  | nil =>
    rw [operandsFrom_of_le (by rw [hl]; simp)]
    rfl
  | cons w ws ih =>
    obtain ⟨hfrom, hword, hmore⟩ := operandsFrom_words hl
    rw [hfrom, List.foldlM_cons]
    show (l.word before.length >>= fun w => awaitOption l r w >>= _) = _
    rw [hword]
    show (awaitOption l r w >>= fun r => awaitOptions l r _) = _
    congr 1
    funext r'
    exact ih r' (before ++ [w]) hmore

theorem awaitOption_owner (l : Line) (r : RestorePoint) (owner : String) :
    awaitOption l r ("owner=" ++ owner) = .ok { r with owner } := by
  have hsplit : splitFirst? '=' ("owner=" ++ owner) = some ("owner", owner) :=
    splitFirst_keyed "owner" "=" rfl (by decide)
  unfold awaitOption
  rw [hsplit]
  rfl

theorem awaitOption_desc (l : Line) (r : RestorePoint) (desc : String) :
    awaitOption l r ("desc=" ++ desc) = .ok { r with desc } := by
  have hsplit : splitFirst? '=' ("desc=" ++ desc) = some ("desc", desc) :=
    splitFirst_keyed "desc" "=" rfl (by decide)
  unfold awaitOption
  rw [hsplit]
  rfl

theorem awaitOption_unpatchable (l : Line) (r : RestorePoint) :
    awaitOption l r "unpatchable" = .ok { r with patchable := false } := rfl

/-- the options that are printed give the restore point -/
theorem foldlM_options (l : Line) (r : RestorePoint) :
    (Directive.await r).words.tail.foldlM (awaitOption l) (.ofName r.name) = .ok r := by
  obtain ⟨name, desc, owner, patchable⟩ := r
  have howner : (if owner.isEmpty then [] else ["owner=" ++ owner]).foldlM (awaitOption l) (.ofName name) =
      .ok ⟨name, "", owner, true⟩ := by
    split
    · rename_i h
      rw [String.isEmpty_iff.1 h]
      rfl
    · rw [List.foldlM_cons, awaitOption_owner]
      rfl
  have hdesc : (if desc.isEmpty then [] else ["desc=" ++ desc]).foldlM (awaitOption l)
      ⟨name, "", owner, true⟩ = .ok ⟨name, desc, owner, true⟩ := by
    split
    · rename_i h
      rw [String.isEmpty_iff.1 h]
      rfl
    · rw [List.foldlM_cons, awaitOption_desc]
      rfl
  have hpatchable : (if patchable then [] else ["unpatchable"]).foldlM (awaitOption l)
      ⟨name, desc, owner, true⟩ = .ok ⟨name, desc, owner, patchable⟩ := by
    cases patchable with
    | true => rfl
    | false =>
      show (awaitOption l _ "unpatchable" >>= _) = _
      rw [awaitOption_unpatchable]
      rfl
  show ((_ ++ _) ++ _ : List String).foldlM _ _ = _
  rw [List.foldlM_append, List.foldlM_append]
  dsimp only
  rw [howner]
  show ((if desc.isEmpty then [] else ["desc=" ++ desc]).foldlM (awaitOption l) _ >>= _) = _
  rw [hdesc]
  exact hpatchable

/-- the line with the words of a directive adds it to the declaration -/
theorem addLine_words (b : Body) (x : Directive) (o : Nat) :
    b.addLine (.directive ⟨o, x.opcode, x.words.map .word⟩) =
      .ok { b with declaration := some (x.add b.declared) } := by
  cases x with
  | entry starts => cases starts <;> rfl
  | await r =>
    generalize hl : (⟨o, (Directive.await r).opcode, (Directive.await r).words.map .word⟩ : Line) = l
    have hoperands : l.operands = ([r.name] ++ (Directive.await r).words.tail).map .word := by rw [← hl]; rfl
    have hoptions := awaitOptions_eq l (.ofName r.name) [r.name] _ hoperands
    rw [foldlM_options] at hoptions
    have hname : l.word 0 = .ok r.name := by rw [← hl]; rfl
    show b.addDirective l = _
    have hawait : b.addDirective l = b.addAwait l := by rw [← hl]; rfl
    rw [hawait]
    show (l.word 0 >>= fun name => awaitOptions l (.ofName name) (operandsFrom l 1) >>= _) = _
    rw [hname]
    show (awaitOptions l (.ofName r.name) (operandsFrom l 1) >>= _) = _
    rw [show operandsFrom l 1 = operandsFrom l [r.name].length from rfl, hoptions]
    rfl

/-- the table that has the declaration of a body -/
def table (b : Body) : RestoreTable := ⟨none, b.declaration.toList⟩

end Body

/-! ## tables -/

/-- the declarations of a table that apply to a method -/
def declarationsFor (t : RestoreTable) (m : MethodId) : List Declaration :=
  t.declarations.filter fun d => d.appliesTo m

/-- the restore points of all declarations that apply -/
theorem restorePoints_eq (t : RestoreTable) (m : MethodId) :
    (t.restorePoints? m).getD [] = (declarationsFor t m).flatMap Declaration.restorePoints := by
  unfold RestoreTable.restorePoints? declarationsFor
  split <;> simp [*]

namespace Overruled

/-- a class with one method -/
def source : String := "class demo/A \x7b\n  method static run ()V \x7b\n    return\n  \x7d\n\x7d\n"

def run : MethodId := ⟨"demo/A", "run", "()V"⟩

def lines : List BodyLine :=
  [.directive ⟨0, "entry", []⟩,
    .directive ⟨0, "await", [.word "step", .word "owner=demo/A", .word "desc=()V", .word "unpatchable"]⟩,
    .directive ⟨0, "await", [.word "step"]⟩, .directive ⟨0, "entry", []⟩]

/-- the body that the lines and a return make -/
def body : Body :=
  { Body.empty run with
    code := [.ret none]
    declaration := some ⟨"demo/A", "run", "()V", some true,
      [⟨"step", "()V", "demo/A", false⟩, .ofName "step"]⟩ }

end Overruled

end Resumable.Assembly
