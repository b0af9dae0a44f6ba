import Resumable.Proofs.DescriptorGrammar
import Resumable.Proofs.Directives
import Resumable.Proofs.LabelNames
import Resumable.Proofs.ParsedSources

/-!
# Programs from sources

A directive names the callee of a restore point, and options pin down its owner and its descriptor or keep its body
from being woven; of two options of one kind the last stays.  A body declares the restore points of its directives,
in their order.

An assembled program is in order: the labels of its methods are numbered and defined, no class has two methods of one
name and descriptor, and every declaration names a method of the program, whose restore points are those of the
directives in its body.

* `Awaits`, `Body.addAwait_eq_ok` : directives and the restore points that they stand for;
* `Body.Announces`, `Body.ofLines_announces` : what a body declares;
* `buildMethod_built`, `ClassBuilt`, `WellAssembled` : what holds of methods, classes and programs that are built;
* `ClassBuilt.members`, `WellAssembled.classes` : members and classes keep it;
* `assemble_wellAssembled` : it holds of every source that is accepted.
-/

namespace Resumable

/-- the method that a declaration names -/
def Declaration.id (d : Declaration) : MethodId := ⟨d.owner, d.name, d.desc⟩

namespace Assembly

/-- the operands of a directive stand for a restore point -/
inductive Awaits : List Operand → RestorePoint → Prop
  | name (n : String) : Awaits [.word n] (.ofName n)
  | owner {ws : List Operand} {r : RestorePoint} (h : Awaits ws r) (v : String) :
    Awaits (ws ++ [.word ("owner=" ++ v)]) { r with owner := v }
  | desc {ws : List Operand} {r : RestorePoint} (h : Awaits ws r) (v : String) :
    Awaits (ws ++ [.word ("desc=" ++ v)]) { r with desc := v }
  | unpatchable {ws : List Operand} {r : RestorePoint} (h : Awaits ws r) :
    Awaits (ws ++ [.word "unpatchable"]) { r with patchable := false }

/-- the directive of a line that awaits a callee -/
def BodyLine.await? : BodyLine → Option Line
  | .directive l => if l.opcode = "await" then some l else none
  | _ => none

/-- the directives of a body that await callees, in order -/
def awaitLines (lines : List BodyLine) : List Line := lines.filterMap BodyLine.await?

theorem awaitLines_cons (line : BodyLine) (lines : List BodyLine) :
    awaitLines (line :: lines) = line.await?.toList ++ awaitLines lines := by
  unfold awaitLines
  rw [List.filterMap_cons]
  cases line.await? <;> rfl

namespace Body

variable {b c : Body} {l : Line} {m : MethodId} {r r' : RestorePoint} {ls : List Line}

/-- a text with a separator is made of its two parts -/
theorem eq_of_splitFirst? {sep : Char} {s key value : String} (h : splitFirst? sep s = some (key, value)) :
    s = key ++ String.singleton sep ++ value := by
  unfold splitFirst? at h
  split at h
  · rename_i hdrop
    obtain ⟨before, hbefore, -, hs⟩ := exists_of_dropWhile hdrop
    obtain ⟨rfl, rfl⟩ := Prod.mk.inj (Option.some.inj h)
    rw [hbefore, ← String.toList_inj, hs]
    simp
  · exact nomatch h

theorem awaits_option {ws : List Operand} {w : String} (hr : Awaits ws r) (h : awaitOption l r w = .ok r') :
    Awaits (ws ++ [.word w]) r' := by
  unfold awaitOption at h
  split at h
  · rename_i key value hsplit
    have hw := eq_of_splitFirst? hsplit
    split at h
    · rename_i hkey
      rw [hw, hkey, ← Except.ok.inj h]
      exact hr.owner value
    split at h
    · rename_i hkey
      rw [hw, hkey, ← Except.ok.inj h]
      exact hr.desc value
    · exact absurd h (by simp [Line.error])
  · split at h
    · rename_i hunpatchable
      rw [hunpatchable, ← Except.ok.inj h]
      exact hr.unpatchable
    · exact absurd h (by simp [Line.error])

theorem getElem?_of_word {k : Nat} {w : String} (h : l.word k = .ok w) : l.operands[k]? = some (.word w) := by
  unfold Line.word at h
  split at h
  · rename_i hw
    rw [hw, Except.ok.inj h]
  · exact absurd h (by simp [Line.error])
  · exact absurd h (by simp [Line.error])

/-- the options from an operand on, when the operands before it stand for a restore point -/
theorem awaits_options {k : Nat} (hr : Awaits (l.operands.take k) r)
    (h : awaitOptions l r (operandsFrom l k) = .ok r') : Awaits l.operands r' := by
  induction hn : l.operands.length - k generalizing k r with
  | zero =>
    rw [operandsFrom_of_le (by omega)] at h
    rw [List.take_of_length_le (by omega)] at hr
    exact Except.ok.inj h ▸ hr
  | succ n ih =>
    have hk : k < l.operands.length := by omega
    rw [operandsFrom_of_lt hk] at h
    obtain ⟨w, hw, h⟩ := Effect.bind_eq_ok h
    obtain ⟨r'', hr'', h⟩ := Effect.bind_eq_ok h
    have htake : l.operands.take (k + 1) = l.operands.take k ++ [.word w] := by
      rw [List.take_add_one, getElem?_of_word hw]
      rfl
    exact ih (htake ▸ awaits_option hr hr'') h (by omega)

/-- **A directive that is read** adds the restore point that it stands for -/
theorem addAwait_eq_ok (h : b.addAwait l = .ok c) : ∃ r, Awaits l.operands r ∧
    c = { b with declaration := some { b.declared with restorePoints := b.declared.restorePoints ++ [r] } } := by
  obtain ⟨name, hname, h⟩ := Effect.bind_eq_ok h
  obtain ⟨r, hr, h⟩ := Effect.bind_eq_ok h
  have hfirst : l.operands.take 1 = [.word name] := by
    rw [List.take_add_one, getElem?_of_word hname]
    rfl
  exact ⟨r, awaits_options (hfirst ▸ .name name) hr, (Except.ok.inj h).symm⟩

/-! ## Declarations -/

/-- a body declares the restore points of directives for its method, and nothing without a directive -/
structure Announces (m : MethodId) (ls : List Line) (b : Body) : Prop where
  method : b.method = m
  identity : b.declared.id = m
  points : List.Forall₂ (fun l r => Awaits l.operands r) ls b.declared.restorePoints
  present : ls ≠ [] → b.declaration ≠ none

theorem announces_empty (m : MethodId) : (empty m).Announces m [] := ⟨rfl, rfl, .nil, fun h => absurd rfl h⟩

theorem declared_eq_of_keeps (h : b.Keeps c) : c.declared = b.declared := by
  unfold declared
  rw [h.declaration, h.method]

/-- what keeps method and declaration declares the same -/
theorem Announces.keeps (hb : b.Announces m ls) (h : b.Keeps c) : c.Announces m ls where
  method := h.method.trans hb.method
  identity := declared_eq_of_keeps h ▸ hb.identity
  points := declared_eq_of_keeps h ▸ hb.points
  present := h.declaration ▸ hb.present

/-- **A line** adds its restore point -/
theorem Announces.addLine {line : BodyLine} (hb : b.Announces m ls) (h : b.addLine line = .ok c) :
    c.Announces m (ls ++ line.await?.toList) := by
  cases line with
  | label o name => exact (List.append_nil ls).symm ▸ hb.keeps (keeps_line id h)
  | insn l => exact (List.append_nil ls).symm ▸ hb.keeps (keeps_line id h)
  | directive l =>
    have hnone {op : String} (hop : l.opcode = op) (hne : op ≠ "await") :
        ls ++ (BodyLine.directive l).await?.toList = ls := by
      rw [BodyLine.await?, if_neg (hop ▸ hne), Option.toList_none, List.append_nil]
    rcases addDirective_eq_ok h with ⟨hop, h⟩ | ⟨hop, h⟩ | ⟨hop, h⟩ | ⟨hop, h⟩
    · obtain ⟨r, hr, rfl⟩ := addAwait_eq_ok h
      rw [BodyLine.await?, if_pos hop]
      exact ⟨hb.method, hb.identity, List.rel_append hb.points (.cons hr .nil), fun _ => Option.some_ne_none _⟩
    · obtain ⟨entry, rfl⟩ := addEntry_eq_ok h
      rw [hnone hop (by decide)]
      exact ⟨hb.method, hb.identity, hb.points, fun _ => Option.some_ne_none _⟩
    · rw [hnone hop (by decide)]
      exact hb.keeps (keeps_catch h)
    · rw [hnone hop (by decide)]
      exact hb.keeps (keeps_var h)

theorem Announces.addLines {lines : List BodyLine} (hb : b.Announces m ls) (h : b.addLines lines = .ok c) :
    c.Announces m (ls ++ awaitLines lines) := by
  induction lines generalizing b ls with
  | nil =>
    obtain rfl := Except.ok.inj h
    rwa [awaitLines, List.filterMap_nil, List.append_nil]
  | cons line lines ih =>
    obtain ⟨d, hd, h⟩ := Effect.bind_eq_ok h
    rw [awaitLines_cons, ← List.append_assoc]
    exact ih (hb.addLine hd) h

/-- **All lines of a method** declare the restore points of its directives -/
theorem ofLines_announces {o : Nat} {lines : List BodyLine} (h : ofLines m o lines = .ok b) :
    b.Announces m (awaitLines lines) := by
  obtain ⟨c, hc, h⟩ := Effect.bind_eq_ok h
  split at h
  · exact absurd h (by simp)
  · obtain rfl := Except.ok.inj h
    exact (announces_empty m).addLines hc

end Body
end Assembly

namespace Program

variable {p : Program} {c : ClassDef} {key name : String} {e : String × ClassDef} {es : List (String × ClassDef)}

/-- the first entry of a key after another one is put in -/
theorem find?_insertEntry : (insertEntry key c es).find? (fun e => e.1 == name) =
    if key = name then some (key, c) else es.find? fun e => e.1 == name := by
  induction es with
  | nil =>
    unfold insertEntry
    split <;> simp_all
  | cons entry es ih =>
    obtain ⟨k, d⟩ := entry
    unfold insertEntry
    split
    · split <;> simp_all
    split
    · split <;> simp_all
    · rw [List.find?_cons, List.find?_cons, ih]
      split <;> split <;> simp_all

/-- **A class that is added** is found, and the others as before -/
theorem class?_insert (p : Program) (c : ClassDef) (name : String) :
    (p.insert c).class? name = if c.name = name then some c else p.class? name := by
  show ((insertEntry c.name c p.classes).find? fun e => e.1 == name).map Prod.snd = _
  rw [find?_insertEntry]
  split <;> rfl

end Program

/-- name and descriptor of a method -/
def Method.key (m : Method) : String × String := (m.name, m.desc)

/-- in a class without doublets a method is found by its name and its descriptor -/
theorem ClassDef.method?_of_mem {c : ClassDef} {m : Method} (h : (c.methods.map Method.key).Nodup)
    (hm : m ∈ c.methods) :
    c.method? m.name m.desc = some m := by
  unfold ClassDef.method?
  cases hfind : c.methods.find? fun n => n.name == m.name && n.desc == m.desc with
  | none => exact absurd (List.find?_eq_none.1 hfind m hm) (by simp)
  | some n =>
    have hkey : n.name = m.name ∧ n.desc = m.desc := by simpa using List.find?_some hfind
    rw [List.inj_on_of_nodup_map h (List.mem_of_find?_eq_some hfind) hm (Prod.ext hkey.1 hkey.2)]

theorem ClassDef.key_notMem {c : ClassDef} {m : Method} (h : c.method? m.name m.desc = none) :
    m.key ∉ c.methods.map Method.key := by
  intro hmem
  obtain ⟨n, hn, hkey⟩ := List.mem_map.1 hmem
  have hname : n.name = m.name := congrArg Prod.fst hkey
  have hdesc : n.desc = m.desc := congrArg Prod.snd hkey
  exact List.find?_eq_none.1 h n hn (by simp [hname, hdesc])

namespace Assembly

/-! ## Methods -/

variable {owner : String} {d : MethodDecl} {m : Method} {e : Option Declaration}

/-- a declaration names a method and has the restore points of the directives in a body -/
structure DeclaresBody (x : Declaration) (id : MethodId) (body : List BodyLine) : Prop where
  id : x.id = id
  points : List.Forall₂ (fun l r => Awaits l.operands r) (awaitLines body) x.restorePoints

/-- what is built from the text of a method -/
structure Built (owner : String) (d : MethodDecl) (m : Method) (e : Option Declaration) : Prop where
  name : m.name = d.name
  desc : m.desc = d.desc
  labelled : ∃ n, m.LabelledTo n
  declares : ∀ x ∈ e, DeclaresBody x ⟨owner, d.name, d.desc⟩ d.body
  present : awaitLines d.body ≠ [] → e ≠ none

/-- **A method** has its labels in order, and its declaration has its restore points -/
theorem buildMethod_built (h : buildMethod owner d = .ok (m, e)) : Built owner d m e := by
  obtain ⟨given, -, h⟩ := Effect.bind_eq_ok h
  obtain ⟨b, hb, h⟩ := Effect.bind_eq_ok h
  obtain ⟨rfl, rfl⟩ := Prod.mk.inj (Except.ok.inj h)
  obtain ⟨hlabelled, hall⟩ := Body.ofLines_labelled hb
  have hannounces := Body.ofLines_announces hb
  have hdeclared : ∀ x ∈ b.declaration, b.declared = x := by
    intro x hx
    unfold Body.declared
    rw [hx]
    rfl
  exact {
    name := rfl
    desc := rfl
    labelled := ⟨_, hlabelled.labelledTo hall rfl rfl rfl⟩
    declares := fun x hx => ⟨hdeclared x hx ▸ hannounces.identity, hdeclared x hx ▸ hannounces.points⟩
    present := hannounces.present }

/-! ## Classes -/

/-- what is built from members of a class -/
structure ClassBuilt (ms : List Member) (c : ClassDef) (ds : List Declaration) : Prop where
  labelled : ∀ m ∈ c.methods, ∃ n, m.LabelledTo n
  distinct : (c.methods.map Method.key).Nodup
  ids : (ds.map Declaration.id).Nodup
  declared : ∀ x ∈ ds, ∃ d m, .method d ∈ ms ∧ m ∈ c.methods ∧ buildMethod c.name d = .ok (m, some x)
  present : ∀ d, .method d ∈ ms → awaitLines d.body ≠ [] → ∃ x ∈ ds, x.id = ⟨c.name, d.name, d.desc⟩

variable {c c' : ClassDef} {ds ds' : List Declaration} {before ms : List Member}

/-- a declaration of a class is that of one of its methods -/
theorem ClassBuilt.id_eq (h : ClassBuilt ms c ds) {x : Declaration} (hx : x ∈ ds) :
    ∃ m ∈ c.methods, x.id = m.id c.name := by
  obtain ⟨d, m, -, hm, hbuild⟩ := h.declared x hx
  have hbuilt := buildMethod_built hbuild
  refine ⟨m, hm, ?_⟩
  rw [(hbuilt.declares x rfl).id, Method.id, hbuilt.name, hbuilt.desc]

theorem ClassBuilt.field (h : ClassBuilt before c ds) (f : FieldDecl) (fs : List Field) :
    ClassBuilt (before ++ [.field f]) { c with fields := fs } ds := { h with
  declared := fun x hx =>
    have ⟨d, m, hd, hm, hbuild⟩ := h.declared x hx
    ⟨d, m, List.mem_append_left _ hd, hm, hbuild⟩
  present := fun d hd => h.present d ((List.mem_append.1 hd).resolve_right fun hd => nomatch List.mem_singleton.1 hd) }

/-- **A method that the class does not have** is added with its declaration -/
theorem ClassBuilt.method (h : ClassBuilt before c ds) (hbuild : buildMethod c.name d = .ok (m, e))
    (hnew : c.method? m.name m.desc = none) :
    ClassBuilt (before ++ [.method d]) { c with methods := c.methods ++ [m] } (ds ++ e.toList) := by
  have hbuilt := buildMethod_built hbuild
  have hid : ∀ x ∈ e, x.id = m.id c.name := by
    intro x hx
    rw [(hbuilt.declares x hx).id, Method.id, hbuilt.name, hbuilt.desc]
  refine ⟨?_, ?_, ?_, ?_, ?_⟩
  · exact List.forall_mem_append.2 ⟨h.labelled, List.forall_mem_singleton.2 hbuilt.labelled⟩
  · have hdistinct := h.distinct.concat (ClassDef.key_notMem hnew)
    rwa [List.concat_eq_append, ← List.map_singleton, ← List.map_append] at hdistinct
  · rw [List.map_append]
    refine List.nodup_append.2 ⟨h.ids, ?_, ?_⟩
    · cases e <;> simp
    · -- two declarations of one method would be declarations of two methods of one name and descriptor
      intro i hi j hj heq
      obtain ⟨x, hx, rfl⟩ := List.mem_map.1 hi
      obtain ⟨y, hy, rfl⟩ := List.mem_map.1 hj
      obtain ⟨n, hn, hxid⟩ := h.id_eq hx
      have hsame : n.id c.name = m.id c.name := hxid.symm.trans (heq.trans (hid y (Option.mem_toList.1 hy)))
      have hkey : n.key = m.key := Prod.ext (congrArg MethodId.name hsame) (congrArg MethodId.desc hsame)
      exact ClassDef.key_notMem hnew (hkey ▸ List.mem_map_of_mem hn)
  · intro x hx
    rcases List.mem_append.1 hx with hx | hx
    · obtain ⟨d', m', hd', hm', hbuild'⟩ := h.declared x hx
      exact ⟨d', m', List.mem_append_left _ hd', List.mem_append_left _ hm', hbuild'⟩
    · rw [Option.mem_toList.1 hx] at hbuild
      exact ⟨d, m, List.mem_append_right _ List.mem_cons_self, List.mem_append_right _ List.mem_cons_self, hbuild⟩
  · intro d' hd' hawaits
    rcases List.mem_append.1 hd' with hd' | hd'
    · obtain ⟨x, hx, hxid⟩ := h.present d' hd' hawaits
      exact ⟨x, List.mem_append_left _ hx, hxid⟩
    · obtain rfl := Member.method.inj (List.mem_singleton.1 hd')
      obtain ⟨x, hx⟩ := Option.ne_none_iff_exists'.1 (hbuilt.present hawaits)
      exact ⟨x, List.mem_append_right _ (Option.mem_toList.2 hx), (hbuilt.declares x hx).id⟩

/-- **Members in order** -/
theorem ClassBuilt.members (h : ClassBuilt before c ds) (hb : buildMembers c ds ms = .ok (c', ds')) :
    ClassBuilt (before ++ ms) c' ds' ∧ c'.name = c.name := by
  induction ms generalizing before c ds with
  | nil =>
    obtain ⟨rfl, rfl⟩ := Prod.mk.inj (Except.ok.inj hb)
    exact ⟨(List.append_nil before).symm ▸ h, rfl⟩
  | cons member ms ih =>
    rw [List.append_cons]
    cases member with
    | field f =>
      obtain ⟨hbuilt, hname⟩ := ih (h.field f _) hb
      exact ⟨hbuilt, hname⟩
    | method d =>
      obtain ⟨⟨m, e⟩, hbuild, hb⟩ := Effect.bind_eq_ok hb
      dsimp only at hb
      split at hb
      · exact absurd hb (by simp)
      · rename_i hnew
        have hnone : c.method? m.name m.desc = none := by simpa using hnew
        obtain ⟨hbuilt, hname⟩ := ih (h.method hbuild hnone) hb
        exact ⟨hbuilt, hname⟩

theorem classBuilt_nil (hc : c.methods = []) : ClassBuilt [] c [] where
  labelled m hm := nomatch hc ▸ hm
  distinct := by rw [hc]; exact .nil
  ids := .nil
  declared _ hx := nomatch hx
  present _ hd := nomatch hd

theorem buildClass_built {cd : ClassDecl} (h : buildClass cd = .ok (c, ds)) :
    ClassBuilt cd.members c ds ∧ c.name = cd.name :=
  (classBuilt_nil rfl).members h

/-! ## Programs -/

/-- a declaration is that of a method in the text, and the method is in the program -/
def DeclaredIn (classes : List ClassDecl) (p : Program) (x : Declaration) : Prop :=
  ∃ cd ∈ classes, ∃ d m, .method d ∈ cd.members ∧ DeclaresBody x ⟨cd.name, d.name, d.desc⟩ d.body ∧
    buildMethod cd.name d = .ok (m, some x) ∧ p.method? x.id = some m

/-- what is built from classes -/
structure WellAssembled (classes : List ClassDecl) (a : Assembled) : Prop where
  labelled : ∀ e ∈ a.program.classes, ∀ m ∈ e.2.methods, ∃ n, m.LabelledTo n
  distinct : ∀ e ∈ a.program.classes, (e.2.methods.map Method.key).Nodup
  ids : (a.table.declarations.map Declaration.id).Nodup
  declared : ∀ x ∈ a.table.declarations, DeclaredIn classes a.program x
  present : ∀ cd ∈ classes, ∀ d, .method d ∈ cd.members → awaitLines d.body ≠ [] →
    ∃ x ∈ a.table.declarations, x.id = ⟨cd.name, d.name, d.desc⟩

variable {a a' : Assembled} {cd : ClassDecl} {done cds : List ClassDecl}

theorem wellAssembled_empty : WellAssembled [] .empty where
  labelled _ he := nomatch he
  distinct _ he := nomatch he
  ids := .nil
  declared _ hx := nomatch hx
  present _ hcd := nomatch hcd

/-- the declarations of a program name methods of its classes -/
theorem WellAssembled.class?_ne_none (h : WellAssembled done a) {x : Declaration} (hx : x ∈ a.table.declarations) :
    a.program.class? x.id.owner ≠ none := by
  obtain ⟨-, -, -, m, -, -, -, hm⟩ := h.declared x hx
  intro hnone
  rw [Program.method?, hnone] at hm
  exact nomatch hm

/-- **A class that the program does not have** is added with its declarations -/
theorem WellAssembled.insert (h : WellAssembled done a) (hb : buildClass cd = .ok (c, ds))
    (hnew : a.program.class? c.name = none) :
    WellAssembled (done ++ [cd]) ⟨a.program.insert c, { a.table with declarations := a.table.declarations ++ ds }⟩ := by
  obtain ⟨hc, hname⟩ := buildClass_built hb
  -- the other classes stay
  have hkept {id : MethodId} {m : Method} (hm : a.program.method? id = some m) :
      (a.program.insert c).method? id = some m := by
    unfold Program.method? at hm ⊢
    rw [Program.class?_insert, if_neg]
    · exact hm
    · intro howner
      rw [← howner, hnew] at hm
      exact nomatch hm
  refine ⟨?_, ?_, ?_, ?_, ?_⟩
  · intro e he
    rcases Program.mem_of_mem_insertEntry he with rfl | he
    · exact hc.labelled
    · exact h.labelled e he
  · intro e he
    rcases Program.mem_of_mem_insertEntry he with rfl | he
    · exact hc.distinct
    · exact h.distinct e he
  · rw [List.map_append]
    refine List.nodup_append.2 ⟨h.ids, hc.ids, ?_⟩
    intro i hi j hj heq
    obtain ⟨x, hx, rfl⟩ := List.mem_map.1 hi
    obtain ⟨y, hy, rfl⟩ := List.mem_map.1 hj
    obtain ⟨m, -, hyid⟩ := hc.id_eq hy
    exact h.class?_ne_none hx (by rw [heq, hyid]; exact hnew)
  · intro x hx
    rcases List.mem_append.1 hx with hx | hx
    · obtain ⟨cd', hcd', d, m, hd, hbody, hbuild, hm⟩ := h.declared x hx
      exact ⟨cd', List.mem_append_left _ hcd', d, m, hd, hbody, hbuild, hkept hm⟩
    · obtain ⟨d, m, hd, hm, hbuild⟩ := hc.declared x hx
      rw [hname] at hbuild
      have hbuilt := buildMethod_built hbuild
      have hbody := hbuilt.declares x rfl
      refine ⟨cd, List.mem_append_right _ List.mem_cons_self, d, m, hd, hbody, hbuild, ?_⟩
      rw [hbody.id, Program.method?, Program.class?_insert, if_pos hname, ← hbuilt.name, ← hbuilt.desc]
      exact ClassDef.method?_of_mem hc.distinct hm
  · intro cd' hcd' d hd hawaits
    rcases List.mem_append.1 hcd' with hcd' | hcd'
    · obtain ⟨x, hx, hxid⟩ := h.present cd' hcd' d hd hawaits
      exact ⟨x, List.mem_append_left _ hx, hxid⟩
    · obtain rfl := List.mem_singleton.1 hcd'
      obtain ⟨x, hx, hxid⟩ := hc.present d hd hawaits
      exact ⟨x, List.mem_append_right _ hx, hname ▸ hxid⟩

/-- **Classes in order** -/
theorem WellAssembled.classes (h : WellAssembled done a) (hb : buildClasses a cds = .ok a') :
    WellAssembled (done ++ cds) a' := by
  induction cds generalizing done a with
  | nil =>
    obtain rfl := Except.ok.inj hb
    rwa [List.append_nil]
  | cons cd cds ih =>
    rw [List.append_cons]
    obtain ⟨⟨c, ds⟩, hbuild, hb⟩ := Effect.bind_eq_ok hb
    dsimp only at hb
    split at hb
    · exact absurd hb (by simp)
    · rename_i hnew
      exact ih (h.insert hbuild (by simpa using hnew)) hb

/-- a declaration with a descriptor applies to one method -/
theorem appliesTo_iff {x : Declaration} (h : x.desc ≠ "") (id : MethodId) : x.appliesTo id = true ↔ id = x.id := by
  obtain ⟨owner, name, desc⟩ := id
  unfold Declaration.appliesTo Declaration.id
  simp only [Bool.and_eq_true, Bool.or_eq_true, beq_iff_eq, String.isEmpty_iff, h, false_or, MethodId.mk.injEq]
  constructor
  · rintro ⟨⟨rfl, rfl⟩, rfl⟩
    exact ⟨rfl, rfl, rfl⟩
  · rintro ⟨rfl, rfl, rfl⟩
    exact ⟨⟨rfl, rfl⟩, rfl⟩

/-- **A source that is accepted** gives a program in order.  In every method the labels of code, exception table and
hints are the first ones, and each is defined once; no class has two methods of one name and descriptor; and there is
at most one declaration for a method, the one of its body, with the restore points of the directives there. -/
theorem assemble_wellAssembled {text : String} {a : Assembled} (h : assemble text = .ok a) :
    (∀ id m, (id, m) ∈ a.program.methods → ∃ n, m.LabelledTo n) ∧
    (∀ e ∈ a.program.classes, (e.2.methods.map Method.key).Nodup) ∧
    (a.table.declarations.map Declaration.id).Nodup ∧
    ∃ classes, Source.parse text = .ok classes ∧
      (∀ x ∈ a.table.declarations,
        DeclaredIn classes a.program x ∧ ∀ id, x.appliesTo id = true ↔ id = x.id) ∧
      ∀ cd ∈ classes, ∀ d, .method d ∈ cd.members → awaitLines d.body ≠ [] →
        ∃ x ∈ a.table.declarations, x.id = ⟨cd.name, d.name, d.desc⟩ := by
  unfold assemble at h
  split at h
  · exact absurd h (by simp)
  rename_i classes hparse
  split at h
  · rename_i a' hbuild
    obtain rfl := Except.ok.inj h
    have hall := wellAssembled_empty.classes hbuild
    refine ⟨fun id m hm => ?_, hall.distinct, hall.ids, classes, hparse, fun x hx => ?_, hall.present⟩
    · obtain ⟨e, he, hm⟩ := List.mem_flatMap.1 hm
      obtain ⟨n, hn, heq⟩ := List.mem_map.1 hm
      obtain ⟨-, rfl⟩ := Prod.mk.inj heq
      exact hall.labelled e he n hn
    · have hdeclared := hall.declared x hx
      refine ⟨hdeclared, appliesTo_iff ?_⟩
      obtain ⟨cd, hcd, d, m, hd, hbody, -, -⟩ := hdeclared
      have hdesc : x.desc = d.desc := congrArg MethodId.desc hbody.id
      rw [hdesc]
      exact Source.parse_desc hparse hcd hd
  · exact absurd h (by simp)

namespace Looping

/-- a loop that waits for another method -/
def source : String :=
  "class A \x7b\nmethod static run (I)V \x7b\n.await step owner=A\ngoto check\nbody:\ninvokestatic A.step ()V\n" ++
    "check:\niload 0\nifne body\nreturn\n\x7d\nmethod static step ()V \x7b\nreturn\n\x7d\n\x7d\n"

def run : MethodId := ⟨"A", "run", "(I)V"⟩

def step : MethodId := ⟨"A", "step", "()V"⟩

end Looping

/-- The labels of this loop are mentioned in one order and defined in another, and one of its two methods has a
declaration. -/
theorem assemble_wellAssembled_looping : ∃ a, assemble Looping.source = .ok a ∧
    a.program.methods.map Prod.fst = [Looping.run, Looping.step] ∧
    a.table.declarations.map Declaration.id = [Looping.run] ∧
    (∀ id m, (id, m) ∈ a.program.methods → ∃ n, m.LabelledTo n) ∧
    ∀ x ∈ a.table.declarations, ∀ id, x.appliesTo id = true ↔ id = x.id := by
  have hruns : (match assemble Looping.source with
      | .error _ => false
      | .ok a => decide (a.program.methods.map Prod.fst = [Looping.run, Looping.step]) &&
        decide (a.table.declarations.map Declaration.id = [Looping.run])) = true := by
    decide +kernel
  split at hruns
  · exact absurd hruns (by simp)
  · rename_i a ha
    simp only [Bool.and_eq_true, decide_eq_true_eq] at hruns
    obtain ⟨hlabelled, -, -, classes, -, hdeclared, -⟩ := assemble_wellAssembled ha
    exact ⟨a, ha, hruns.1, hruns.2, hlabelled, fun x hx => (hdeclared x hx).2⟩

end Assembly
end Resumable
