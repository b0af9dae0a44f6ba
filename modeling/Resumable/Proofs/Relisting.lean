import Resumable.Proofs.Atomicity
import Resumable.Proofs.PrintedClasses
import Resumable.Proofs.Rereading
import Resumable.Proofs.WellAssembled

/-!
# Programs, printed and built again

The text of a program whose names can be read gives the program with the labels of its methods numbered, and a table
with one declaration for each method that the printed table declares something for.

* `Program.renumbered`, `Program.SameButLabels` : labels numbered, and programs that differ in labels only;
* `ClassLegible`, `ProgramLegible`, `assemble_listing` : programs whose text says everything are built again;
* `relistedTable`, `declarationsFor_relistedTable` : the table that is built, and what it declares;
* `assemble_relisted` : from then on nothing changes.
-/

namespace Resumable

theorem Method.name_renumbered (m : Method) : m.renumbered.name = m.name := rfl

theorem Method.desc_renumbered (m : Method) : m.renumbered.desc = m.desc := rfl

theorem Method.key_renumbered (m : Method) : m.renumbered.key = m.key := rfl

/-- the class with the labels of its methods numbered -/
def ClassDef.renumbered (c : ClassDef) : ClassDef := { c with methods := c.methods.map Method.renumbered }

/-- the program with the labels of its methods numbered -/
def Program.renumbered (p : Program) : Program := ⟨p.classes.map fun e => (e.1, e.2.renumbered)⟩

/-! ## labels renamed -/

theorem exists_of_forall₂ {α β : Type} {R : α → β → Prop} {as : List α} {bs : List β} (h : List.Forall₂ R as bs) {b : β}
    (hb : b ∈ bs) : ∃ a ∈ as, R a b := by
  induction h with
  | nil => exact nomatch hb
  | cons hfirst _ ih =>
    rcases List.mem_cons.1 hb with rfl | hb
    · exact ⟨_, List.mem_cons_self, hfirst⟩
    · obtain ⟨a, ha, hR⟩ := ih hb
      exact ⟨a, List.mem_cons_of_mem _ ha, hR⟩

/-- the classes differ in the labels of their methods, method by method -/
structure ClassDef.SameButLabels (c c' : ClassDef) : Prop where
  name : c'.name = c.name
  super : c'.superName = c.superName
  interfaces : c'.interfaces = c.interfaces
  fields : c'.fields = c.fields
  methods : List.Forall₂ (fun m m' => ∃ f, Set.InjOn f {l | l ∈ m.labels} ∧ m' = Method.relabel f m)
    c.methods c'.methods

/-- the programs differ in the labels of methods -/
def Program.SameButLabels (p p' : Program) : Prop :=
  List.Forall₂ (fun e e' => e'.1 = e.1 ∧ ClassDef.SameButLabels e.2 e'.2) p.classes p'.classes

theorem Program.sameButLabels_renumbered (p : Program) : p.SameButLabels p.renumbered := by
  have hclass (c : ClassDef) : c.SameButLabels c.renumbered :=
    ⟨rfl, rfl, rfl, rfl, List.forall₂_map_right_iff.2 (List.forall₂_same.2 fun m _ => ⟨_, m.renumber_injOn, rfl⟩)⟩
  exact List.forall₂_map_right_iff.2 (List.forall₂_same.2 fun e _ => ⟨rfl, hclass e.2⟩)

theorem Program.renumbered_renumbered (p : Program) : p.renumbered.renumbered = p.renumbered := by
  obtain ⟨es⟩ := p
  have hclass (c : ClassDef) : c.renumbered.renumbered = c.renumbered := by
    unfold ClassDef.renumbered
    rw [List.map_map]
    exact congrArg (fun ms => { c with methods := ms })
      (List.map_congr_left fun (m : Method) _ => m.renumbered_renumbered)
  unfold renumbered
  rw [List.map_map]
  exact congrArg mk (List.map_congr_left fun e _ => Prod.ext rfl (hclass e.2))

/-- the declaration has a directive -/
def Declaration.Speaks (d : Declaration) : Prop := d.entry ≠ none ∨ d.restorePoints ≠ []

namespace Assembly

/-- the declarations that a table makes for the methods of a class, each as one -/
def redeclaredIn (t : RestoreTable) (c : ClassDef) : List Declaration :=
  c.methods.flatMap fun m => (redeclared t (m.id c.name)).toList

/-- the table of a listing -/
def relistedTable (p : Program) (t : RestoreTable) : RestoreTable :=
  ⟨none, p.classes.flatMap fun e => redeclaredIn t e.2⟩

/-- the text of a class says everything -/
structure ClassLegible (t : RestoreTable) (c : ClassDef) : Prop where
  name : IsName c.name
  super : ∀ s ∈ c.superName, IsName s
  interfaces : ∀ s ∈ c.interfaces, IsName s
  fields : ∀ f ∈ c.fields, IsDeclared f.isStatic f.name f.desc
  methods : ∀ m ∈ c.methods, IsDeclared m.isStatic m.name m.desc
  bodies : ∀ m ∈ c.methods, BodyLegible t c.name m
  distinct : (c.methods.map Method.key).Nodup
  /-- what is not written is the superclass that the name stands for -/
  implied : c.superName = none ∨ c.superName = some objectType →
    c.superName = if c.name = objectType then none else some objectType

/-- the text of a program says everything -/
structure ProgramLegible (p : Program) (t : RestoreTable) : Prop where
  ordered : p.Ordered
  classes : ∀ e ∈ p.classes, ClassLegible t e.2

section
variable {t : RestoreTable} {c : ClassDef} {p : Program}

theorem ClassLegible.named (h : ClassLegible t c) : ClassNamed t c where
  name := h.name
  super := h.super
  interfaces := h.interfaces
  fields := h.fields
  methods := h.methods
  lines m hm x hx := ((h.bodies m hm).forall_lines x hx).named

/-! ## methods -/

/-- **A method** is built from its text -/
theorem BodyLegible.buildMethod {owner : String} {m : Method} {d : MethodDecl} (h : BodyLegible t owner m)
    (hd : RestatesMethod t owner m (.method d)) :
    buildMethod owner d = .ok (m.renumbered, redeclared t (m.id owner)) := by
  obtain ⟨o, o', body, hd, hbody⟩ := hd
  obtain rfl := Member.method.inj hd
  obtain ⟨b, hb, hcode, hcatches, hvars, hdeclaration⟩ := h.ofLines o hbody
  have hlocals : localsCount ⟨o', toString m.maxLocals.toNat⟩ = .ok m.maxLocals := by
    unfold localsCount
    rw [Decimal.readUInt16?_toString]
  show ((some _).mapM localsCount >>= fun given => Body.ofLines (m.id owner) o body >>= fun b => _) = _
  rw [hb]
  show ((localsCount _ >>= _) >>= _) = _
  rw [hlocals]
  show Except.ok (Method.mk m.name m.desc m.isStatic m.maxLocals b.code b.tryCatches b.localVars, b.declaration) = _
  rw [hcode, hcatches, hvars, hdeclaration]
  rfl

/-! ## classes -/

/-- methods are added in the order in which they are printed -/
theorem buildMembers_methods {c : ClassDef} {methods : List Method} {ms : List Member}
    (hms : List.Forall₂ (RestatesMember t c.name) (methods.map .inr) ms)
    (hbodies : ∀ m ∈ methods, BodyLegible t c.name m)
    (hkeys : ((c.methods ++ methods).map Method.key).Nodup) (ds : List Declaration) :
    buildMembers c ds ms = .ok ({ c with methods := c.methods ++ methods.map Method.renumbered },
      ds ++ methods.flatMap fun m => (redeclared t (m.id c.name)).toList) := by
  induction methods generalizing c ms ds with
  | nil =>
    cases hms
    simp [buildMembers]
  | cons m methods ih =>
    obtain _ | ⟨hx, hms⟩ := hms
    obtain ⟨o, o', body, rfl, hbody⟩ := hx
    have hbuild := (hbodies m List.mem_cons_self).buildMethod ⟨o, o', body, rfl, hbody⟩
    -- a method of this name and descriptor among those before would repeat its key
    have hnew : (c.method? m.renumbered.name m.renumbered.desc).isSome = false := by
      rw [Option.isSome_eq_false_iff, Option.isNone_iff_eq_none]
      refine List.find?_eq_none.2 fun n hn heq => ?_
      have hsame : n.name = m.name ∧ n.desc = m.desc := by
        simpa [Method.name_renumbered, Method.desc_renumbered] using heq
      have hkey : n.key = m.key := Prod.ext hsame.1 hsame.2
      rw [List.map_append] at hkeys
      exact (List.nodup_append.1 hkeys).2.2 _ (List.mem_map_of_mem hn) _ (List.mem_map_of_mem List.mem_cons_self) hkey
    have hmore := ih (c := { c with methods := c.methods ++ [m.renumbered] }) hms
      (fun n hn => hbodies n (List.mem_cons_of_mem _ hn)) (by simpa [Method.key_renumbered] using hkeys)
      (ds ++ (redeclared t (m.id c.name)).toList)
    show (buildMethod c.name _ >>= _) = _
    rw [hbuild]
    show (if (c.method? m.renumbered.name m.renumbered.desc).isSome = true then _ else buildMembers _ _ _) = _
    rw [hnew]
    refine hmore.trans ?_
    simp

theorem buildMembers_fields {c : ClassDef} {fields : List Field} {methods : List Method} {ms : List Member}
    (hms : List.Forall₂ (RestatesMember t c.name) (fields.map .inl ++ methods.map .inr) ms)
    (hbodies : ∀ m ∈ methods, BodyLegible t c.name m) (hkeys : ((c.methods ++ methods).map Method.key).Nodup)
    (ds : List Declaration) : buildMembers c ds ms = .ok
      ({ c with fields := c.fields ++ fields, methods := c.methods ++ methods.map Method.renumbered },
        ds ++ methods.flatMap fun m => (redeclared t (m.id c.name)).toList) := by
  induction fields generalizing c ms with
  | nil =>
    rw [List.append_nil]
    exact buildMembers_methods hms hbodies hkeys ds
  | cons f fields ih =>
    obtain _ | ⟨rfl, hms⟩ := hms
    refine (ih (c := { c with fields := c.fields ++ [f] }) hms hbodies hkeys).trans ?_
    simp

/-- **A class** is built from its text -/
theorem ClassLegible.buildClass {cd : ClassDecl} (h : ClassLegible t c) (hcd : RestatesClass t c cd) :
    buildClass cd = .ok (c.renumbered, redeclaredIn t c) := by
  have hsuper : Assembly.buildClass cd = buildMembers ⟨c.name, c.superName, c.interfaces, [], []⟩ [] cd.members := by
    have himplied := h.implied
    unfold Assembly.buildClass
    rw [hcd.name, hcd.super, hcd.interfaces, shownSuper?]
    generalize (if c.name = objectType then none else some objectType) = implied at himplied ⊢
    cases hs : c.superName with
    | none =>
      obtain rfl := hs.symm.trans (himplied (.inl hs))
      rfl
    | some s =>
      by_cases heq : s = objectType
      · subst heq
        obtain rfl := hs.symm.trans (himplied (.inr hs))
        rfl
      · simp [Option.filter, heq]
  rw [hsuper]
  exact buildMembers_fields (c := ⟨c.name, c.superName, c.interfaces, [], []⟩) hcd.members h.bodies
    (by simpa using h.distinct) []

/-! ## programs -/

theorem buildClasses_restates {done es : List (String × ClassDef)} {cds : List ClassDecl}
    (h : ∀ e ∈ es, ClassLegible t e.2) (hp : Program.Ordered ⟨done ++ es⟩)
    (hcds : List.Forall₂ (fun (e : String × ClassDef) cd => RestatesClass t e.2 cd) es cds) :
    buildClasses ⟨Program.renumbered ⟨done⟩, relistedTable ⟨done⟩ t⟩ cds =
      .ok ⟨Program.renumbered ⟨done ++ es⟩, relistedTable ⟨done ++ es⟩ t⟩ := by
  induction hcds generalizing done with
  | nil =>
    rw [List.append_nil]
    rfl
  | @cons e cd es cds hcd _ ih =>
    obtain ⟨key, c⟩ := e
    have hkey : key = c.name := hp.keys (key, c) (by simp)
    -- names ascend, so the class is new, and goes behind the others
    have hlast : ∀ e ∈ done, e.1 < c.name := fun e he =>
      hkey ▸ (List.pairwise_append.1 hp.sorted).2.2 e he (key, c) List.mem_cons_self
    have hbuild := (h (key, c) List.mem_cons_self).buildClass hcd
    have hbefore : ∀ e ∈ (Program.renumbered ⟨done⟩).classes, e.1 < c.name := List.forall_mem_map.2 hlast
    have hnew : ((Program.renumbered ⟨done⟩).class? c.renumbered.name).isSome = false := by
      have hnone : (Program.renumbered ⟨done⟩).class? c.name = none :=
        congrArg (Option.map Prod.snd) (List.find?_eq_none.2 fun e he heq =>
          String.lt_irrefl _ ((beq_iff_eq.1 heq) ▸ hbefore e he))
      exact Option.isSome_eq_false_iff.2 (Option.isNone_iff_eq_none.2 hnone)
    have hinsert : (Program.renumbered ⟨done⟩).insert c.renumbered = Program.renumbered ⟨done ++ [(key, c)]⟩ := by
      have hlast := Program.insertEntry_last (c := c.renumbered) hbefore
      show Program.mk (Program.insertEntry c.name c.renumbered _) = _
      rw [hlast, hkey]
      simp [Program.renumbered]
    have htable : relistedTable ⟨done ++ [(key, c)]⟩ t =
        { relistedTable ⟨done⟩ t with declarations := (relistedTable ⟨done⟩ t).declarations ++ redeclaredIn t c } := by
      simp [relistedTable]
    show (buildClass cd >>= _) = _
    rw [hbuild]
    show (if ((Program.renumbered ⟨done⟩).class? c.renumbered.name).isSome = true then _ else buildClasses _ _) = _
    rw [hnew, hinsert, ← htable]
    have happend : done ++ (key, c) :: es = done ++ [(key, c)] ++ es := List.append_cons ..
    rw [happend] at hp ⊢
    exact (if_neg Bool.false_ne_true).trans (ih (fun e he => h e (List.mem_cons_of_mem _ he)) hp)

/-- **A program that can be read** is built from its text, up to the numbers of labels -/
theorem assemble_listing (h : ProgramLegible p t) :
    assemble (listing p t) = .ok ⟨p.renumbered, relistedTable p t⟩ := by
  obtain ⟨cds, hparse, hcds⟩ := parse_listing (t := t) fun e he => (h.classes e he).named
  have hbuild : buildClasses ⟨Program.renumbered ⟨[]⟩, relistedTable ⟨[]⟩ t⟩ cds =
      .ok ⟨Program.renumbered ⟨[] ++ p.classes⟩, relistedTable ⟨[] ++ p.classes⟩ t⟩ :=
    buildClasses_restates h.classes h.ordered hcds
  unfold assemble
  rw [hparse]
  dsimp only
  rw [show Assembled.empty = ⟨Program.renumbered ⟨[]⟩, relistedTable ⟨[]⟩ t⟩ from rfl, hbuild]
  rfl

end

/-! ## what is accepted -/

section
variable {t : RestoreTable} {c : ClassDef} {p : Program}

theorem defines?_lineAt (x : MethodLine) (o : Nat) :
    Body.defines? (x.lineAt o) = (x.insn?.bind Insn.label?).map Label.text := by
  cases x with
  | code i => cases i <;> rfl
  | _ => rfl

/-- the names that the text of a method defines are those of its labels -/
theorem filterMap_defines? {owner : String} {m : Method} {body : List BodyLine}
    (h : List.Forall₂ (fun (x : MethodLine) l => ∃ o, l = x.lineAt o) (methodLines t owner m) body) :
    body.filterMap Body.defines? = (labelsIn m.code).map Label.text := by
  have hcode : labelsIn m.code = (methodLines t owner m).filterMap fun x => x.insn?.bind Insn.label? := by
    rw [labelsIn, ← insns_methodLines t owner m, List.filterMap_filterMap]
  rw [hcode]
  generalize methodLines t owner m = xs at h
  induction h with
  | nil => rfl
  | @cons x l xs body hfirst _ ih =>
    obtain ⟨o, rfl⟩ := hfirst
    rw [List.filterMap_cons, List.filterMap_cons, defines?_lineAt, ih]
    cases x.insn?.bind Insn.label? <;> rfl

/-- a method whose text is accepted has no label twice -/
theorem nodup_of_buildMethod {owner owner' : String} {m : Method} {d : MethodDecl} {r : Method × Option Declaration}
    (hd : RestatesMethod t owner m (.method d)) (h : buildMethod owner' d = .ok r) : (labelsIn m.code).Nodup := by
  obtain ⟨o, o', body, hd, hbody⟩ := hd
  obtain rfl := Member.method.inj hd
  obtain ⟨given, -, h⟩ := Effect.bind_eq_ok h
  obtain ⟨b, hb, -⟩ := Effect.bind_eq_ok h
  exact .of_map Label.text (filterMap_defines? hbody ▸ Body.nodup_defines hb)

theorem buildMethod_of_buildMembers {ds : List Declaration} {ms : List Member} {r : ClassDef × List Declaration}
    (h : buildMembers c ds ms = .ok r) {d : MethodDecl} (hd : .method d ∈ ms) :
    ∃ owner x, buildMethod owner d = .ok x := by
  induction ms generalizing c ds with
  | nil => exact nomatch hd
  | cons member ms ih =>
    cases member with
    | field f =>
      have hmore : buildMembers { c with fields := c.fields ++ [⟨f.name, f.desc, f.isStatic⟩] } ds ms = .ok r := h
      exact ih hmore ((List.mem_cons.1 hd).resolve_left fun heq => nomatch heq)
    | method d' =>
      obtain ⟨x, hx, h⟩ := Effect.bind_eq_ok h
      dsimp only at h
      split at h
      · exact absurd h (by simp)
      · rcases List.mem_cons.1 hd with heq | hd
        · exact ⟨_, x, Member.method.inj heq ▸ hx⟩
        · exact ih h hd

theorem buildClass_of_buildClasses {a a' : Assembled} {cds : List ClassDecl} (h : buildClasses a cds = .ok a')
    {cd : ClassDecl} (hcd : cd ∈ cds) : ∃ x, buildClass cd = .ok x := by
  induction cds generalizing a with
  | nil => exact nomatch hcd
  | cons cd' cds ih =>
    obtain ⟨x, hx, h⟩ := Effect.bind_eq_ok h
    dsimp only at h
    split at h
    · exact absurd h (by simp)
    · rcases List.mem_cons.1 hcd with rfl | hcd
      · exact ⟨x, hx⟩
      · exact ih h hcd

/-- **A listing that is accepted** has no label of a method twice -/
theorem nodup_of_assemble (hp : ∀ e ∈ p.classes, ClassNamed t e.2) {b : Assembled}
    (h : assemble (listing p t) = .ok b) : ∀ e ∈ p.classes, ∀ m ∈ e.2.methods, (labelsIn m.code).Nodup := by
  intro e he m hm
  obtain ⟨cds, hparse, hcds⟩ := parse_listing hp
  obtain ⟨cd, hcd, hrestates⟩ := exists_of_forall₂ hcds.flip he
  obtain ⟨member, hmember, hmethod⟩ := exists_of_forall₂ hrestates.members.flip
    (List.mem_append_right _ (List.mem_map_of_mem hm))
  obtain ⟨a, ha⟩ : ∃ a, buildClasses .empty cds = .ok a := by
    unfold assemble at h
    rw [hparse] at h
    dsimp only at h
    split at h
    · exact ⟨_, ‹_›⟩
    · exact absurd h (by simp)
  obtain ⟨x, hx⟩ := buildClass_of_buildClasses ha hcd
  obtain ⟨o, o', body, rfl, hbody⟩ := hmethod
  obtain ⟨owner, y, hy⟩ := buildMethod_of_buildMembers hx hmember
  exact nodup_of_buildMethod ⟨o, o', body, rfl, hbody⟩ hy

end

/-! ## the declaration of a method -/

section
variable {t t' : RestoreTable} {id : MethodId} {d : Declaration} {xs : List Directive}

/-- a declaration of a method without any directive -/
def bare (id : MethodId) : Declaration := ⟨id.owner, id.name, id.desc, none, []⟩

theorem declarationOf_eq (id : MethodId) (hne : xs ≠ []) :
    declarationOf id xs = some (xs.foldl Directive.add (bare id)) := by
  have hmore (xs : List Directive) (d : Declaration) :
      xs.foldl (fun d x => some (x.add (d.getD (bare id)))) (some d) = some (xs.foldl Directive.add d) := by
    induction xs generalizing d with
    | nil => rfl
    | cons x xs ih => exact ih (x.add d)
  cases xs with
  | nil => exact absurd rfl hne
  | cons x xs => exact hmore xs (x.add (bare id))

/-- **A declaration with a directive** is made of its directives -/
theorem declarationOf_directivesOf (hid : d.id = id) (hd : d.Speaks) : declarationOf id (directivesOf d) = some d := by
  have hne : directivesOf d ≠ [] := by
    unfold directivesOf
    rcases hd with hentry | hpoints
    · obtain ⟨entry, hentry⟩ := Option.ne_none_iff_exists'.1 hentry
      simp [hentry]
    · simp [hpoints]
  have hfold := foldl_directives [d] (bare id)
  rw [List.flatMap_singleton] at hfold
  rw [declarationOf_eq id hne, hfold, ← hid]
  simp [bare, Declaration.id]

/-- what directives declare is a declaration of the method, and has a directive -/
theorem speaks_of_declarationOf (h : declarationOf id xs = some d) : d.id = id ∧ d.Speaks := by
  have hid (xs : List Directive) : (xs.foldl Directive.add (bare id)).id = id := by
    induction xs using List.reverseRecOn with
    | nil => rfl
    | append_singleton xs x ih =>
      rw [List.foldl_append]
      cases x <;> exact ih
  rcases List.eq_nil_or_concat xs with rfl | ⟨ys, x, rfl⟩
  · exact nomatch h
  rw [List.concat_eq_append] at h
  refine ⟨?_, ?_⟩
  · rw [declarationOf_eq id (by simp)] at h
    exact Option.some.inj h ▸ hid _
  · rw [declarationOf_concat] at h
    rw [← Option.some.inj h]
    cases x with
    | entry starts => exact .inl (Option.some_ne_none _)
    | await r => exact .inr (by simp [Directive.add])

/-- one declaration at most is declared again as it is -/
theorem redeclared_eq {o : Option Declaration} (h : declarationsFor t id = o.toList)
    (ho : ∀ d ∈ o, d.id = id ∧ d.Speaks) : redeclared t id = o := by
  unfold redeclared
  rw [h]
  cases o with
  | none => rfl
  | some d =>
    obtain ⟨hid, hspeaks⟩ := ho d rfl
    rw [Option.toList_some, List.flatMap_singleton]
    exact declarationOf_directivesOf hid hspeaks

theorem redeclared_congr (h : declarationsFor t' id = declarationsFor t id) : redeclared t' id = redeclared t id := by
  unfold redeclared
  rw [h]

/-- tables that declare the same for a method give the same answers -/
theorem answers_congr (h : declarationsFor t' id = declarationsFor t id) (hnames : t'.entryNames = t.entryNames) :
    t'.restorePoints? id = t.restorePoints? id ∧ t'.isEntry id = t.isEntry id := by
  unfold declarationsFor at h
  unfold RestoreTable.restorePoints? RestoreTable.isEntry RestoreTable.effectiveEntryNames
  rw [h, hnames]
  exact ⟨rfl, rfl⟩

end

/-! ## the table of a listing -/

section
variable {p : Program} {t : RestoreTable} {id : MethodId}

/-- the methods of the program -/
def methodIds (p : Program) : List MethodId := p.classes.flatMap fun e => e.2.methods.map fun m => m.id e.2.name

/-- the methods are told apart, and no descriptor is empty -/
structure MethodsDistinct (p : Program) : Prop where
  ids : (methodIds p).Nodup
  desc : ∀ id ∈ methodIds p, id.desc ≠ ""

theorem methodsDistinct (h : p.Ordered) (hkeys : ∀ e ∈ p.classes, (e.2.methods.map Method.key).Nodup)
    (hdesc : ∀ e ∈ p.classes, ∀ m ∈ e.2.methods, m.desc ≠ "") : MethodsDistinct p := by
  refine ⟨List.nodup_flatMap.2 ⟨fun e he => ?_, ?_⟩, fun id hid => ?_⟩
  · have hkey : (e.2.methods.map fun m => m.id e.2.name).map (fun id => (id.name, id.desc)) =
        e.2.methods.map Method.key := by
      rw [List.map_map]
      rfl
    exact .of_map (fun id => (id.name, id.desc)) (hkey ▸ hkeys e he)
  · refine h.sorted.imp_of_mem fun {e e'} he he' hlt => ?_
    rw [h.keys e he, h.keys e' he'] at hlt
    refine List.disjoint_left.2 fun id hid hid' => ?_
    obtain ⟨m, -, rfl⟩ := List.mem_map.1 hid
    obtain ⟨m', -, heq⟩ := List.mem_map.1 hid'
    have howner : e'.2.name = e.2.name := congrArg MethodId.owner heq
    exact String.lt_irrefl _ (howner ▸ hlt)
  · obtain ⟨e, he, hid⟩ := List.mem_flatMap.1 hid
    obtain ⟨m, hm, rfl⟩ := List.mem_map.1 hid
    exact hdesc e he m hm

theorem flatMap_ite_eq {α β : Type} [DecidableEq α] {as : List α} (h : as.Nodup) (f : α → List β) (a : α) :
    (as.flatMap fun x => if x = a then f x else []) = if a ∈ as then f a else [] := by
  induction as with
  | nil => rfl
  | cons x as ih =>
    obtain ⟨hx, has⟩ := List.nodup_cons.1 h
    rw [List.flatMap_cons, ih has]
    by_cases heq : x = a
    · subst heq
      simp [hx]
    · simp [heq, Ne.symm heq]

/-- **The table of a listing** has, for each method of the program, what the printed table declares -/
theorem declarationsFor_relistedTable (hp : MethodsDistinct p) (t : RestoreTable) (id : MethodId) :
    declarationsFor (relistedTable p t) id = if id ∈ methodIds p then (redeclared t id).toList else [] := by
  have hall : (relistedTable p t).declarations = (methodIds p).flatMap fun i => (redeclared t i).toList := by
    simp only [relistedTable, methodIds, redeclaredIn, List.flatMap_assoc, List.flatMap_map]
  unfold declarationsFor
  -- of what is declared for the methods, what applies to this one is declared for it
  rw [hall, List.filter_flatMap, ← flatMap_ite_eq hp.ids fun i => (redeclared t i).toList]
  refine List.flatMap_congr fun i hi => ?_
  cases hd : redeclared t i with
  | none => simp
  | some d =>
    have hid : d.id = i := (speaks_of_declarationOf hd).1
    have happlies : d.appliesTo id = decide (i = id) := by
      rw [Bool.eq_iff_iff, appliesTo_iff (hid ▸ hp.desc i hi : d.id.desc ≠ ""), hid, decide_eq_true_iff, eq_comm]
    rw [Option.toList_some, List.filter_singleton, happlies]
    simp

end

/-! ## the program of a listing -/

section
variable {p : Program} {t t' : RestoreTable} {owner : String} {m : Method}

theorem labelsIn_relabel (f : Label → Label) (is : List Insn) :
    labelsIn (is.map (Insn.relabel f)) = (labelsIn is).map f := by
  unfold labelsIn
  rw [List.filterMap_map, List.map_filterMap]
  exact List.filterMap_congr fun i _ => i.label?_relabel

theorem legible_relabel {i : Insn} (h : i.Legible) (f : Label → Label) : (i.relabel f).Legible := by
  obtain ⟨hnamed, hnumeric, hprints⟩ := h
  cases i <;> exact ⟨hnamed, hnumeric, hprints⟩

/-- **The body of a method** that was built from a listing says everything -/
theorem BodyLegible.renumbered (h : BodyLegible t owner m)
    (ht : declarationsFor t' (m.id owner) = declarationsFor t (m.id owner)) : BodyLegible t' owner m.renumbered where
  points d hd := h.points d (ht ▸ hd)
  regions := List.forall_mem_map.2 h.regions
  hints := List.forall_mem_map.2 fun v hv => ⟨(h.hints v hv).name, (h.hints v hv).desc⟩
  code := List.forall_mem_map.2 fun i hi => legible_relabel (h.code i hi) _
  defined l hl := by
    have hmentioned := Method.mem_mentioned.2 hl
    rw [Method.renumbered, Method.mentioned_relabel] at hmentioned
    obtain ⟨l', hl', rfl⟩ := List.mem_map.1 hmentioned
    have hdefined := h.defined l' (Method.mem_mentioned.1 hl')
    exact labelsIn_relabel _ m.code ▸ List.mem_map_of_mem hdefined
  once := by
    have hlabels : ∀ l ∈ labelsIn m.code, l ∈ m.labels := fun l hl => Method.mem_mentioned.1
      (List.mem_append_right _ (List.mem_flatMap.2 ⟨_, mem_labelsIn.1 hl, List.mem_singleton_self l⟩))
    have hnodup := h.once.map_on fun a ha b hb heq => m.renumber_injOn (hlabels a ha) (hlabels b hb) heq
    exact labelsIn_relabel _ m.code ▸ hnodup

theorem ClassLegible.renumbered {c : ClassDef} (h : ClassLegible t c)
    (ht : ∀ m ∈ c.methods, declarationsFor t' (m.id c.name) = declarationsFor t (m.id c.name)) :
    ClassLegible t' c.renumbered where
  name := h.name
  super := h.super
  interfaces := h.interfaces
  fields := h.fields
  methods := List.forall_mem_map.2 h.methods
  bodies := List.forall_mem_map.2 fun m hm => (h.bodies m hm).renumbered (ht m hm)
  distinct := by
    show ((c.methods.map Method.renumbered).map Method.key).Nodup
    rw [List.map_map]
    exact h.distinct
  implied := h.implied

theorem ordered_renumbered (h : p.Ordered) : p.renumbered.Ordered :=
  ⟨List.forall_mem_map.2 h.keys, List.pairwise_map.2 h.sorted⟩

/-- **What is built from a listing** gives the same listing's program and table again -/
theorem assemble_relisted (h : ProgramLegible p t)
    (ht : ∀ id ∈ methodIds p, declarationsFor (relistedTable p t) id = declarationsFor t id) :
    assemble (listing p.renumbered (relistedTable p t)) = .ok ⟨p.renumbered, relistedTable p t⟩ := by
  have hmem {e : String × ClassDef} (he : e ∈ p.classes) {m : Method} (hm : m ∈ e.2.methods) :
      m.id e.2.name ∈ methodIds p := List.mem_flatMap.2 ⟨e, he, List.mem_map_of_mem hm⟩
  have hlegible : ProgramLegible p.renumbered (relistedTable p t) :=
    ⟨ordered_renumbered h.ordered, List.forall_mem_map.2 fun e he =>
      (h.classes e he).renumbered fun m hm => ht _ (hmem he hm)⟩
  have htable : relistedTable p.renumbered (relistedTable p t) = relistedTable p t := by
    show RestoreTable.mk none (p.renumbered.classes.flatMap _) = RestoreTable.mk none _
    rw [Program.renumbered, List.flatMap_map]
    refine congrArg (RestoreTable.mk none) (List.flatMap_congr fun e he => ?_)
    show (e.2.methods.map Method.renumbered).flatMap _ = _
    rw [List.flatMap_map]
    refine List.flatMap_congr fun m hm => ?_
    have hone : redeclared (relistedTable p t) (m.id e.2.name) = redeclared t (m.id e.2.name) :=
      redeclared_congr (ht _ (hmem he hm))
    exact congrArg Option.toList hone
  have hbuild := assemble_listing hlegible
  rwa [Program.renumbered_renumbered, htable] at hbuild

end

end Assembly
end Resumable
