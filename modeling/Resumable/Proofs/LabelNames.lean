import Mathlib.Data.List.Nodup
import Resumable.Proofs.Assembled
import Resumable.Proofs.Directives
import Resumable.Proofs.Labels

/-!
# Labels and their names

The lines of a method name labels, and a label gets the next number when a line mentions its name first.  Lines
only add names, so the numbers of the names before stay.  A name is defined at most once, and in the end every
name is: then the labels of the method are numbered from zero without a gap, and stand in its code once each.

A label has no meaning but where it stands, so labels can be renamed throughout a method.  One renaming gives every
label the number of its first mention: exception table, hints and code are looked through in this order, as a listing
prints them.  A method renamed like this stays as it is when it is renamed once more.

* `Method.LabelledTo` : the labels of a method are the first ones, each defined once;
* `Body.Mentions`, `Body.insn_gives` : what mentions of names add, and those of an instruction;
* `Body.Labelled`, `Body.addLine_labelled` : what holds of every body, line by line;
* `Body.ofLines_labelled`, `Body.Labelled.labelledTo` : all lines, and the method that is made of them;
* `Body.addLines_defined` : the names that lines define;
* `Insn.relabel`, `Method.relabel` : labels renamed;
* `addLabels`, `Method.order` : labels in the order of their first mention;
* `Method.renumbered`, `Method.renumbered_renumbered` : labels numbered in this order.
-/

namespace Resumable

/-- the label with a number, in 32 bits -/
def Label.nth (n : Nat) : Label := ⟨UInt32.ofNat n⟩

/-- the labels that a method mentions are the first ones, and each of them stands in its code once -/
structure Method.LabelledTo (m : Method) (n : Nat) : Prop where
  mentioned : ∀ l, l ∈ m.labels ↔ ∃ i < n, l = .nth i
  defined : (labelsIn m.code).Perm ((List.range n).map .nth)
  /-- as long as there are not more of them than numbers -/
  once : n ≤ UInt32.size → ∀ l ∈ m.labels, (labelsIn m.code).count l = 1

theorem Label.nth_inj {i j : Nat} (hi : i < UInt32.size) (hj : j < UInt32.size) (h : Label.nth i = .nth j) :
    i = j := by
  have hnat := congrArg (fun l => l.number.toNat) h
  simp only [nth, UInt32.toNat_ofNat'] at hnat
  rwa [Nat.mod_eq_of_lt hi, Nat.mod_eq_of_lt hj] at hnat

namespace Assembly.Body

variable {b c d : Body} {l : Line} {i : Insn} {t : Label} {ts us : List Label} {name : String}

/-! ## Mentions -/

/-- a label of a name that is known -/
def Numbered (b : Body) (t : Label) : Prop := ∃ n < b.names.length, t = .nth n

/-- labels are mentioned, and nothing but names is added -/
structure Mentions (b : Body) (ts : List Label) (c : Body) : Prop where
  same : c = { b with names := c.names }
  grows : b.names <+: c.names
  nodup : b.names.Nodup → c.names.Nodup
  numbered : ∀ t ∈ ts, c.Numbered t

theorem Mentions.refl (b : Body) : b.Mentions [] b := ⟨rfl, List.prefix_rfl, id, fun _ ht => nomatch ht⟩

theorem Numbered.mono (h : b.Numbered t) (hc : b.names <+: c.names) : c.Numbered t := by
  obtain ⟨n, hn, rfl⟩ := h
  exact ⟨n, Nat.lt_of_lt_of_le hn hc.length_le, rfl⟩

theorem Mentions.trans (h : b.Mentions ts c) (h' : c.Mentions us d) : b.Mentions (ts ++ us) d where
  same := by rw [h'.same, h.same]
  grows := h.grows.trans h'.grows
  nodup hb := h'.nodup (h.nodup hb)
  numbered := List.forall_mem_append.2 ⟨fun t ht => (h.numbered t ht).mono h'.grows, h'.numbered⟩

/-- the number of a name is its place -/
theorem idxOf_of_idxOf? {names : List String} {n : Nat} (h : names.idxOf? name = some n) :
    n < names.length ∧ names.idxOf name = n := by
  rw [List.idxOf?] at h
  exact List.findIdx?_eq_some_iff_findIdx_eq.1 h

theorem numbered_nth_idxOf (h : name ∈ b.names) : b.Numbered (.nth (b.names.idxOf name)) :=
  ⟨_, List.idxOf_lt_length_of_mem h, rfl⟩

/-- **The label of a name** has the number of its place -/
theorem label_eq (b : Body) (name : String) :
    name ∈ (b.label name).2.names ∧ (b.label name).1 = .nth ((b.label name).2.names.idxOf name) := by
  unfold label
  split
  · rename_i n hn
    obtain ⟨hlt, hidx⟩ := idxOf_of_idxOf? hn
    refine ⟨List.idxOf_lt_length_iff.1 (hidx ▸ hlt), ?_⟩
    rw [hidx]
    rfl
  · rename_i hnone
    have hnew : name ∉ b.names := List.idxOf?_eq_none_iff.1 hnone
    refine ⟨List.mem_append_right _ (List.mem_singleton_self _), ?_⟩
    rw [List.idxOf_append_of_notMem hnew, List.idxOf_cons_self]
    rfl

theorem label_mentions (b : Body) (name : String) : b.Mentions [(b.label name).1] (b.label name).2 := by
  obtain ⟨hmem, heq⟩ := label_eq b name
  have hnumbered : (b.label name).2.Numbered (b.label name).1 := heq ▸ numbered_nth_idxOf hmem
  have hall : ∀ t ∈ [(b.label name).1], (b.label name).2.Numbered t := fun t ht => List.mem_singleton.1 ht ▸ hnumbered
  refine ⟨?_, ?_, ?_, hall⟩
  all_goals
    unfold label
    split
  · rfl
  · rfl
  · exact List.prefix_rfl
  · exact List.prefix_append _ _
  · exact id
  · rename_i hnone
    intro hb
    have hnew := hb.concat (List.idxOf?_eq_none_iff.1 hnone)
    rwa [List.concat_eq_append] at hnew

theorem labelOperand_mentions {k : Nat} (h : b.labelOperand l k = .ok (t, c)) : b.Mentions [t] c := by
  obtain ⟨w, -, h⟩ := Effect.bind_eq_ok h
  obtain ⟨rfl, rfl⟩ := Prod.mk.inj (Except.ok.inj h)
  exact label_mentions b w

theorem labelOperands_mentions {ks : List Nat} (h : b.labelOperands l ks = .ok (ts, c)) : b.Mentions ts c := by
  induction ks generalizing b ts with
  | nil =>
    obtain ⟨rfl, rfl⟩ := Prod.mk.inj (Except.ok.inj h)
    exact .refl b
  | cons k ks ih =>
    obtain ⟨⟨t, c'⟩, ht, h⟩ := Effect.bind_eq_ok h
    obtain ⟨⟨ts', c''⟩, hts, h⟩ := Effect.bind_eq_ok h
    obtain ⟨rfl, rfl⟩ := Prod.mk.inj (Except.ok.inj h)
    exact (labelOperand_mentions ht).trans (ih hts)

theorem switchCases_mentions {ks : List Nat} {cs : List (Int32 × Label)} (h : b.switchCases l ks = .ok (cs, c)) :
    b.Mentions (cs.map Prod.snd) c := by
  induction ks generalizing b cs with
  | nil =>
    obtain ⟨rfl, rfl⟩ := Prod.mk.inj (Except.ok.inj h)
    exact .refl b
  | cons k ks ih =>
    obtain ⟨w, -, h⟩ := Effect.bind_eq_ok h
    split at h
    · exact absurd h (by simp [Line.error])
    split at h
    · exact absurd h (by simp [Line.error])
    obtain ⟨⟨cs', c'⟩, hcs, h⟩ := Effect.bind_eq_ok h
    obtain ⟨rfl, rfl⟩ := Prod.mk.inj (Except.ok.inj h)
    exact (label_mentions b _).trans (ih hcs)

/-! ## Instructions -/

/-- an instruction that is no label, with the labels it jumps to -/
structure Gives (b : Body) (i : Insn) (c : Body) : Prop where
  label : i.label? = none
  mentions : b.Mentions i.targets c

/-- an instruction without labels -/
theorem gives_plain {α : Type} {x : Except BuildError α} {make : α → Insn}
    (h : (x >>= fun a => Except.ok (make a, b)) = .ok (i, c))
    (hmake : ∀ a, (make a).label? = none ∧ (make a).targets = []) : b.Gives i c := by
  obtain ⟨a, -, h⟩ := Effect.bind_eq_ok h
  obtain ⟨rfl, rfl⟩ := Prod.mk.inj (Except.ok.inj h)
  refine ⟨(hmake a).1, ?_⟩
  rw [(hmake a).2]
  exact .refl b

/-- an instruction with one label -/
theorem gives_jump {k : Nat} {make : Label → Insn}
    (h : (b.labelOperand l k >>= fun p => Except.ok (make p.1, p.2)) = .ok (i, c))
    (hmake : ∀ t, (make t).label? = none ∧ (make t).targets = [t]) : b.Gives i c := by
  obtain ⟨⟨t, c'⟩, ht, h⟩ := Effect.bind_eq_ok h
  obtain ⟨rfl, rfl⟩ := Prod.mk.inj (Except.ok.inj h)
  refine ⟨(hmake t).1, ?_⟩
  rw [(hmake t).2]
  exact labelOperand_mentions ht

theorem typedInsn_plain {k : Kind} {rest : List Char} (h : typedInsn l k rest = .ok i) :
    i.label? = none ∧ i.targets = [] := by
  unfold typedInsn at h
  split at h
  · obtain ⟨slot, -, h⟩ := Effect.bind_eq_ok h
    exact Except.ok.inj h ▸ ⟨rfl, rfl⟩
  · obtain ⟨slot, -, h⟩ := Effect.bind_eq_ok h
    exact Except.ok.inj h ▸ ⟨rfl, rfl⟩
  · exact Except.ok.inj h ▸ ⟨rfl, rfl⟩
  · exact Except.ok.inj h ▸ ⟨rfl, rfl⟩
  · exact Except.ok.inj h ▸ ⟨rfl, rfl⟩
  · split at h
    · exact absurd h (by simp [Line.error])
    split at h
    · exact Except.ok.inj h ▸ ⟨rfl, rfl⟩
    split at h
    · exact Except.ok.inj h ▸ ⟨rfl, rfl⟩
    · exact Except.ok.inj h ▸ ⟨rfl, rfl⟩
    · exact absurd h (by simp [Line.error])

theorem familyInsn_gives (h : b.familyInsn l = .ok (i, c)) : b.Gives i c := by
  unfold familyInsn at h
  split at h
  · exact gives_jump h fun _ => ⟨rfl, rfl⟩
  · exact gives_jump h fun _ => ⟨rfl, rfl⟩
  split at h
  · split at h
    · obtain ⟨j, hj, h⟩ := Effect.bind_eq_ok h
      obtain ⟨rfl, rfl⟩ := Prod.mk.inj (Except.ok.inj h)
      obtain ⟨hlabel, htargets⟩ := typedInsn_plain hj
      exact ⟨hlabel, htargets ▸ .refl b⟩
    · exact absurd h (by simp [Line.error])
  · exact absurd h (by simp [Line.error])

theorem operandInsn?_gives (h : b.operandInsn? l = some (.ok (i, c))) : b.Gives i c := by
  unfold operandInsn? at h
  split at h
  all_goals first
    | replace h := Option.some.inj h
    | cases h
  case h_1 | h_2 | h_3 | h_4 | h_5 | h_7 => exact gives_plain h fun _ => ⟨rfl, rfl⟩
  case h_6 =>
    obtain ⟨slot, -, h⟩ := Effect.bind_eq_ok h
    exact gives_plain h fun _ => ⟨rfl, rfl⟩
  case h_8 =>
    obtain ⟨low, -, h⟩ := Effect.bind_eq_ok h
    obtain ⟨⟨d, c'⟩, hd, h⟩ := Effect.bind_eq_ok h
    obtain ⟨⟨ts, c''⟩, hts, h⟩ := Effect.bind_eq_ok h
    obtain ⟨rfl, rfl⟩ := Prod.mk.inj (Except.ok.inj h)
    exact ⟨rfl, (labelOperand_mentions hd).trans (labelOperands_mentions hts)⟩
  case h_9 =>
    obtain ⟨⟨d, c'⟩, hd, h⟩ := Effect.bind_eq_ok h
    obtain ⟨⟨cs, c''⟩, hcs, h⟩ := Effect.bind_eq_ok h
    obtain ⟨rfl, rfl⟩ := Prod.mk.inj (Except.ok.inj h)
    exact ⟨rfl, (labelOperand_mentions hd).trans (switchCases_mentions hcs)⟩

/-- **The instruction of a line** is no label, and mentions those it jumps to -/
theorem insn_gives (h : b.insn l = .ok (i, c)) : b.Gives i c := by
  unfold insn at h
  split at h
  · rename_i j hj
    have hall : ∀ j ∈ bareInsns.map Prod.snd, j.label? = none ∧ j.targets = [] := by
      simp [bareInsns, Insn.label?, Insn.targets]
    exact gives_plain h fun _ => hall j (mem_of_lookup hj)
  split at h
  · rename_i jump hjump
    have hall : ∀ jump ∈ jumpInsns.map Prod.snd, ∀ t, (jump t).label? = none ∧ (jump t).targets = [t] := by
      simp [jumpInsns, Insn.label?, Insn.targets]
    exact gives_jump h (hall jump (mem_of_lookup hjump))
  split at h
  · rename_i access haccess
    have hall : ∀ access ∈ fieldInsns.map Prod.snd, ∀ r, (access r).label? = none ∧ (access r).targets = [] := by
      simp [fieldInsns, Insn.label?, Insn.targets]
    obtain ⟨_, -, h⟩ := Effect.bind_eq_ok h
    obtain ⟨⟨owner, name⟩, -, h⟩ := Effect.bind_eq_ok h
    exact gives_plain h fun _ => hall access (mem_of_lookup haccess) _
  split at h
  · obtain ⟨_, -, h⟩ := Effect.bind_eq_ok h
    obtain ⟨⟨owner, name⟩, -, h⟩ := Effect.bind_eq_ok h
    exact gives_plain h fun _ => ⟨rfl, rfl⟩
  split at h
  · rename_i make hmake
    have hall : ∀ make ∈ typeInsns.map Prod.snd, ∀ w, (make w).label? = none ∧ (make w).targets = [] := by
      simp [typeInsns, Insn.label?, Insn.targets]
    exact gives_plain h fun w => hall make (mem_of_lookup hmake) w
  split at h
  · rename_i r hr
    exact operandInsn?_gives (hr.trans (congrArg some h))
  · exact familyInsn_gives h

/-! ## Bodies -/

/-- names and definitions are distinct, and what the body mentions has names -/
structure Labelled (b : Body) : Prop where
  names : b.names.Nodup
  defined : b.defined.Nodup
  known : ∀ n ∈ b.defined, n ∈ b.names
  /-- the labels in the code are those defined -/
  labels : labelsIn b.code = b.defined.map fun n => .nth (b.names.idxOf n)
  code : ∀ i ∈ b.code, ∀ t ∈ i.labels, b.Numbered t
  tryCatches : ∀ r ∈ b.tryCatches, b.Numbered r.start ∧ b.Numbered r.stop ∧ b.Numbered r.handler
  localVars : ∀ v ∈ b.localVars, b.Numbered v.start ∧ b.Numbered v.stop

theorem labelled_empty (m : MethodId) : (empty m).Labelled where
  names := .nil
  defined := .nil
  known _ h := nomatch h
  labels := rfl
  code _ h := nomatch h
  tryCatches _ h := nomatch h
  localVars _ h := nomatch h

/-- **More names** leave the numbers alone -/
theorem Labelled.mentions (h : b.Labelled) (hc : b.Mentions ts c) : c.Labelled := by
  have hgrows := hc.grows
  obtain ⟨more, hmore⟩ := hc.grows
  have hlabels : labelsIn b.code = b.defined.map fun n => .nth (c.names.idxOf n) := by
    refine h.labels.trans (List.map_congr_left fun n hn => ?_)
    rw [← hmore, List.idxOf_append_of_mem (h.known n hn)]
  have hnames := hc.nodup h.names
  rw [hc.same]
  exact {
    names := hnames
    defined := h.defined
    known := fun n hn => hgrows.subset (h.known n hn)
    labels := hlabels
    code := fun i hi t ht => (h.code i hi t ht).mono hgrows
    tryCatches := fun r hr =>
      have ⟨hstart, hstop, hhandler⟩ := h.tryCatches r hr
      ⟨hstart.mono hgrows, hstop.mono hgrows, hhandler.mono hgrows⟩
    localVars := fun v hv =>
      have ⟨hstart, hstop⟩ := h.localVars v hv
      ⟨hstart.mono hgrows, hstop.mono hgrows⟩ }

theorem define_labelled {o : Nat} (hb : b.Labelled) (h : b.define o name = .ok c) : c.Labelled := by
  obtain ⟨hnew, rfl⟩ := define_eq_ok h
  obtain ⟨hmem, heq⟩ := label_eq b name
  have hmentions := label_mentions b name
  have hc := hb.mentions hmentions
  have hnew : name ∉ (b.label name).2.defined := by
    rw [hmentions.same]
    exact hnew
  exact { hc with
    defined := by
      have h := hc.defined.concat hnew
      rwa [List.concat_eq_append] at h
    known := List.forall_mem_append.2 ⟨hc.known, List.forall_mem_singleton.2 hmem⟩
    labels := by
      show labelsIn _ = List.map _ _
      rw [labelsIn_append, List.map_append, hc.labels, heq]
      rfl
    code := List.forall_mem_append.2 ⟨hc.code, List.forall_mem_singleton.2 fun t ht => by
      obtain rfl := List.mem_singleton.1 ht
      exact hmentions.numbered _ (List.mem_singleton_self _)⟩ }

theorem addInsn_labelled (hb : b.Labelled) (h : b.addInsn l = .ok c) : c.Labelled := by
  obtain ⟨⟨i, c'⟩, hi, h⟩ := Effect.bind_eq_ok h
  obtain rfl := Except.ok.inj h
  obtain ⟨hlabel, hmentions⟩ := insn_gives hi
  have hc := hb.mentions hmentions
  exact { hc with
    labels := by
      show labelsIn _ = List.map _ _
      rw [labelsIn_append, labelsIn_cons, hlabel, hc.labels]
      exact List.append_nil _
    code := List.forall_mem_append.2 ⟨hc.code, List.forall_mem_singleton.2 fun t ht => by
      rw [Insn.labels, hlabel] at ht
      exact hmentions.numbered t ht⟩ }

theorem addCatch_labelled (hb : b.Labelled) (h : b.addCatch l = .ok c) : c.Labelled := by
  obtain ⟨type, start, stop, handler, b₁, b₂, b₃, -, hstart, hstop, hhandler, rfl⟩ := addCatch_eq_ok h
  have hmentions := ((labelOperand_mentions hstart).trans (labelOperand_mentions hstop)).trans
    (labelOperand_mentions hhandler)
  have hc := hb.mentions hmentions
  exact { hc with
    tryCatches := List.forall_mem_append.2 ⟨hc.tryCatches, List.forall_mem_singleton.2
      ⟨hmentions.numbered _ (by simp), hmentions.numbered _ (by simp), hmentions.numbered _ (by simp)⟩⟩ }

theorem addVar_labelled (hb : b.Labelled) (h : b.addVar l = .ok c) : c.Labelled := by
  obtain ⟨slot, name, desc, start, stop, b₁, b₂, -, -, hstart, hstop, rfl⟩ := addVar_eq_ok h
  have hmentions := (labelOperand_mentions hstart).trans (labelOperand_mentions hstop)
  have hc := hb.mentions hmentions
  exact { hc with
    localVars := List.forall_mem_append.2 ⟨hc.localVars, List.forall_mem_singleton.2
      ⟨hmentions.numbered _ (by simp), hmentions.numbered _ (by simp)⟩⟩ }

/-- what a line declares about suspension has no labels -/
theorem Labelled.declare (h : b.Labelled) (e : Option Declaration) : { b with declaration := e }.Labelled := { h with }

/-- **A line** keeps the labels in order -/
theorem addLine_labelled {line : BodyLine} (hb : b.Labelled) (h : b.addLine line = .ok c) : c.Labelled := by
  cases line with
  | label o name => exact define_labelled hb h
  | insn l => exact addInsn_labelled hb h
  | directive l =>
    rcases addDirective_eq_ok h with ⟨-, h⟩ | ⟨-, h⟩ | ⟨-, h⟩ | ⟨-, h⟩
    · obtain ⟨name, -, h⟩ := Effect.bind_eq_ok h
      obtain ⟨r, -, h⟩ := Effect.bind_eq_ok h
      exact Except.ok.inj h ▸ hb.declare _
    · obtain ⟨entry, rfl⟩ := addEntry_eq_ok h
      exact hb.declare _
    · exact addCatch_labelled hb h
    · exact addVar_labelled hb h

theorem addLines_labelled {lines : List BodyLine} (hb : b.Labelled) (h : b.addLines lines = .ok c) : c.Labelled := by
  induction lines generalizing b with
  | nil => exact Except.ok.inj h ▸ hb
  | cons line lines ih =>
    obtain ⟨d, hd, h⟩ := Effect.bind_eq_ok h
    exact ih (addLine_labelled hb hd) h

/-- the name that a line defines -/
def defines? : BodyLine → Option String
  | .label _ name => some name
  | _ => none

theorem Mentions.defined (h : b.Mentions ts c) : c.defined = b.defined := by rw [h.same]

theorem addLine_defined {line : BodyLine} (h : b.addLine line = .ok c) :
    c.defined = b.defined ++ (defines? line).toList := by
  cases line with
  | label o name =>
    obtain ⟨-, rfl⟩ := define_eq_ok h
    exact congrArg (· ++ [name]) (label_mentions b name).defined
  | insn l =>
    obtain ⟨⟨i, c'⟩, hi, h⟩ := Effect.bind_eq_ok h
    obtain rfl := Except.ok.inj h
    exact (insn_gives hi).mentions.defined.trans (List.append_nil _).symm
  | directive l =>
    refine Eq.trans ?_ (List.append_nil _).symm
    rcases addDirective_eq_ok h with ⟨-, h⟩ | ⟨-, h⟩ | ⟨-, h⟩ | ⟨-, h⟩
    · obtain ⟨name, -, h⟩ := Effect.bind_eq_ok h
      obtain ⟨r, -, h⟩ := Effect.bind_eq_ok h
      exact Except.ok.inj h ▸ rfl
    · obtain ⟨entry, rfl⟩ := addEntry_eq_ok h
      rfl
    · obtain ⟨type, start, stop, handler, b₁, b₂, b₃, -, hstart, hstop, hhandler, rfl⟩ := addCatch_eq_ok h
      exact (((labelOperand_mentions hstart).trans (labelOperand_mentions hstop)).trans
        (labelOperand_mentions hhandler)).defined
    · obtain ⟨slot, name, desc, start, stop, b₁, b₂, -, -, hstart, hstop, rfl⟩ := addVar_eq_ok h
      exact ((labelOperand_mentions hstart).trans (labelOperand_mentions hstop)).defined

/-- **The names defined** are those that lines define, in their order -/
theorem addLines_defined {lines : List BodyLine} (h : b.addLines lines = .ok c) :
    c.defined = b.defined ++ lines.filterMap defines? := by
  induction lines generalizing b with
  | nil =>
    obtain rfl := Except.ok.inj h
    exact (List.append_nil _).symm
  | cons line lines ih =>
    obtain ⟨d, hd, h⟩ := Effect.bind_eq_ok h
    rw [ih h, addLine_defined hd, List.append_assoc, List.filterMap_cons]
    cases defines? line <;> rfl

/-- lines that are accepted define no name twice -/
theorem nodup_defines {m : MethodId} {o : Nat} {lines : List BodyLine} (h : ofLines m o lines = .ok b) :
    (lines.filterMap defines?).Nodup := by
  obtain ⟨c, hc, -⟩ := Effect.bind_eq_ok h
  have hdefined := (addLines_labelled (labelled_empty m) hc).defined
  rwa [addLines_defined hc] at hdefined

/-! ## Whole bodies -/

theorem defined_of_undefined? (h : b.undefined? = none) : ∀ n ∈ b.names, n ∈ b.defined := by
  unfold undefined? at h
  split at h
  · rename_i hnone
    intro n hn
    simpa using List.filter_eq_nil_iff.1 hnone n hn
  · exact absurd h (by simp)

/-- the names of a body are numbered in order -/
theorem Labelled.map_idxOf (h : b.Labelled) : (b.names.map fun n => b.names.idxOf n) = List.range b.names.length := by
  refine List.ext_getElem (by simp) fun k hk _ => ?_
  rw [List.getElem_map, List.getElem_range]
  exact h.names.idxOf_getElem k _

/-- **The labels of a body** whose names are all defined -/
theorem Labelled.perm (h : b.Labelled) (hall : ∀ n ∈ b.names, n ∈ b.defined) :
    (labelsIn b.code).Perm ((List.range b.names.length).map .nth) := by
  have hsame : b.defined.Perm b.names :=
    (List.perm_ext_iff_of_nodup h.defined h.names).2 fun n => ⟨h.known n, hall n⟩
  have hperm := hsame.map fun n => Label.nth (b.names.idxOf n)
  rw [← h.labels] at hperm
  refine hperm.trans (.of_eq ?_)
  rw [← h.map_idxOf, List.map_map]
  rfl

theorem Labelled.labelledTo (h : b.Labelled) (hall : ∀ n ∈ b.names, n ∈ b.defined) {m : Method}
    (hcode : m.code = b.code) (hcatches : m.tryCatches = b.tryCatches) (hvars : m.localVars = b.localVars) :
    m.LabelledTo b.names.length := by
  have hperm := h.perm hall
  have hmentioned : ∀ l, l ∈ m.labels ↔ b.Numbered l := by
    intro l
    unfold Method.labels
    rw [hcode, hcatches, hvars]
    constructor
    · intro hl
      rcases List.mem_append.1 hl with hl | hl
      · rcases List.mem_append.1 hl with hl | hl
        · obtain ⟨i, hi, hl⟩ := List.mem_flatMap.1 hl
          exact h.code i hi l hl
        · obtain ⟨r, hr, hl⟩ := List.mem_flatMap.1 hl
          obtain ⟨hstart, hstop, hhandler⟩ := h.tryCatches r hr
          simp only [List.mem_cons, List.not_mem_nil, or_false] at hl
          rcases hl with rfl | rfl | rfl
          · exact hstart
          · exact hstop
          · exact hhandler
      · obtain ⟨v, hv, hl⟩ := List.mem_flatMap.1 hl
        obtain ⟨hstart, hstop⟩ := h.localVars v hv
        simp only [List.mem_cons, List.not_mem_nil, or_false] at hl
        rcases hl with rfl | rfl
        · exact hstart
        · exact hstop
    · -- a label with a number stands in the code
      rintro ⟨n, hn, rfl⟩
      have hstands : Label.nth n ∈ labelsIn b.code :=
        hperm.mem_iff.2 (List.mem_map.2 ⟨n, List.mem_range.2 hn, rfl⟩)
      refine List.mem_append_left _ (List.mem_append_left _ (List.mem_flatMap.2 ⟨_, mem_labelsIn.1 hstands, ?_⟩))
      exact List.mem_singleton_self _
  refine ⟨hmentioned, hcode ▸ hperm, fun hn l hl => ?_⟩
  have hdistinct : (labelsIn b.code).Nodup := by
    refine hperm.nodup_iff.2 (List.Nodup.map_on (fun i hi j hj heq => ?_) List.nodup_range)
    rw [List.mem_range] at hi hj
    exact Label.nth_inj (Nat.lt_of_lt_of_le hi hn) (Nat.lt_of_lt_of_le hj hn) heq
  rw [hcode]
  obtain ⟨n, hn, rfl⟩ := (hmentioned l).1 hl
  exact List.count_eq_one_of_mem hdistinct (hperm.mem_iff.2 (List.mem_map.2 ⟨n, List.mem_range.2 hn, rfl⟩))

/-- **All lines of a method**, whose labels are numbered from zero and defined -/
theorem ofLines_labelled {m : MethodId} {o : Nat} {lines : List BodyLine} (h : ofLines m o lines = .ok b) :
    b.Labelled ∧ ∀ n ∈ b.names, n ∈ b.defined := by
  obtain ⟨c, hc, h⟩ := Effect.bind_eq_ok h
  split at h
  · exact absurd h (by simp)
  · rename_i hnone
    obtain rfl := Except.ok.inj h
    exact ⟨addLines_labelled (labelled_empty m) hc, defined_of_undefined? hnone⟩

end Assembly.Body

/-! ## renaming -/

section
variable (f : Label → Label)

/-- the instruction with its labels renamed -/
def Insn.relabel : Insn → Insn
  | .label l => .label (f l)
  | .branch c l => .branch c (f l)
  | .branchCompare c l => .branchCompare c (f l)
  | .branchSame l => .branchSame (f l)
  | .branchDistinct l => .branchDistinct (f l)
  | .branchNull l => .branchNull (f l)
  | .branchNonNull l => .branchNonNull (f l)
  | .jump l => .jump (f l)
  | .jumpSubroutine l => .jumpSubroutine (f l)
  | .tableSwitch low d ts => .tableSwitch low (f d) (ts.map f)
  | .lookupSwitch d cs => .lookupSwitch (f d) (cs.map fun c => (c.1, f c.2))
  | i => i

def TryCatch.relabel (t : TryCatch) : TryCatch :=
  { t with start := f t.start, stop := f t.stop, handler := f t.handler }

def LocalVar.relabel (v : LocalVar) : LocalVar := { v with start := f v.start, stop := f v.stop }

/-- the method with its labels renamed -/
def Method.relabel (m : Method) : Method :=
  { m with
    code := m.code.map (Insn.relabel f)
    tryCatches := m.tryCatches.map (TryCatch.relabel f)
    localVars := m.localVars.map (LocalVar.relabel f) }

end

/-- the labels that a region mentions, in the order of its line -/
def TryCatch.labels (t : TryCatch) : List Label := [t.start, t.stop, t.handler]

/-- the labels that a hint mentions, in the order of its line -/
def LocalVar.labels (v : LocalVar) : List Label := [v.start, v.stop]

section
variable {f g : Label → Label}

theorem Insn.label?_relabel (i : Insn) : (i.relabel f).label? = i.label?.map f := by
  cases i <;> rfl

theorem Insn.targets_relabel (i : Insn) : (i.relabel f).targets = i.targets.map f := by
  cases i
  case lookupSwitch d cs => simp [relabel, targets]
  all_goals rfl

theorem Insn.labels_relabel (i : Insn) : (i.relabel f).labels = i.labels.map f := by
  unfold labels
  rw [label?_relabel, targets_relabel, List.map_append]
  cases i.label? <;> rfl

theorem Insn.relabel_relabel (i : Insn) : (i.relabel f).relabel g = i.relabel (g ∘ f) := by
  cases i
  case tableSwitch low d ts => simp [relabel]
  case lookupSwitch d cs => simp [relabel, Function.comp_def]
  all_goals rfl

/-- only what happens to the labels of the instruction matters -/
theorem Insn.relabel_congr {i : Insn} (h : ∀ l ∈ i.labels, f l = g l) : i.relabel f = i.relabel g := by
  cases i
  case tableSwitch low d ts =>
    have hd : f d = g d := h d List.mem_cons_self
    have hts : ts.map f = ts.map g := List.map_congr_left fun l hl => h l (List.mem_cons_of_mem _ hl)
    simp only [relabel, hd, hts]
  case lookupSwitch d cs =>
    have hd : f d = g d := h d List.mem_cons_self
    have hcs : (cs.map fun c => (c.1, f c.2)) = cs.map fun c => (c.1, g c.2) :=
      List.map_congr_left fun c hc => by
        rw [h c.2 (List.mem_cons_of_mem _ (List.mem_map_of_mem (f := Prod.snd) hc))]
    simp only [relabel, hd, hcs]
  all_goals first
    | rfl
    | exact congrArg _ (h _ List.mem_cons_self)

/-- the labels of the whole method, as they are mentioned line by line -/
def Method.mentioned (m : Method) : List Label :=
  m.tryCatches.flatMap TryCatch.labels ++ m.localVars.flatMap LocalVar.labels ++ m.code.flatMap Insn.labels

theorem Method.mem_mentioned {m : Method} {l : Label} : l ∈ m.mentioned ↔ l ∈ m.labels := by
  unfold mentioned labels
  simp only [List.mem_append]
  constructor
  · rintro ((h | h) | h)
    exacts [.inl (.inr h), .inr h, .inl (.inl h)]
  · rintro ((h | h) | h)
    exacts [.inr h, .inl (.inl h), .inl (.inr h)]

theorem Method.mentioned_relabel (m : Method) : (m.relabel f).mentioned = m.mentioned.map f := by
  unfold mentioned relabel
  simp only [List.map_append, List.map_flatMap, List.flatMap_map, Insn.labels_relabel]
  rfl

theorem Method.relabel_relabel (m : Method) : (m.relabel f).relabel g = m.relabel (g ∘ f) := by
  unfold relabel
  simp only [List.map_map]
  congr 1
  exact List.map_congr_left fun i _ => i.relabel_relabel

theorem Method.relabel_congr {m : Method} (h : ∀ l ∈ m.mentioned, f l = g l) : m.relabel f = m.relabel g := by
  have hcatches : m.tryCatches.map (TryCatch.relabel f) = m.tryCatches.map (TryCatch.relabel g) := by
    refine List.map_congr_left fun t ht => ?_
    have hall : ∀ l ∈ t.labels, f l = g l := fun l hl =>
      h l (List.mem_append_left _ (List.mem_append_left _ (List.mem_flatMap.2 ⟨t, ht, hl⟩)))
    simp only [TryCatch.labels, List.forall_mem_cons] at hall
    rw [TryCatch.relabel, TryCatch.relabel, hall.1, hall.2.1, hall.2.2.1]
  have hvars : m.localVars.map (LocalVar.relabel f) = m.localVars.map (LocalVar.relabel g) := by
    refine List.map_congr_left fun v hv => ?_
    have hall : ∀ l ∈ v.labels, f l = g l := fun l hl =>
      h l (List.mem_append_left _ (List.mem_append_right _ (List.mem_flatMap.2 ⟨v, hv, hl⟩)))
    simp only [LocalVar.labels, List.forall_mem_cons] at hall
    rw [LocalVar.relabel, LocalVar.relabel, hall.1, hall.2.1]
  have hcode : m.code.map (Insn.relabel f) = m.code.map (Insn.relabel g) :=
    List.map_congr_left fun i hi => Insn.relabel_congr fun l hl =>
      h l (List.mem_append_right _ (List.mem_flatMap.2 ⟨i, hi, hl⟩))
  rw [relabel, relabel, hcatches, hvars, hcode]

end

/-! ## the order of mention -/

section
variable {ls ts us fs : List Label} {l : Label}

/-- labels, each behind those before it unless it is among them -/
def addLabels (ls ts : List Label) : List Label := ts.foldl (fun ls t => if t ∈ ls then ls else ls ++ [t]) ls

theorem addLabels_nil (ls : List Label) : addLabels ls [] = ls := rfl

theorem addLabels_cons (ls : List Label) (t : Label) (ts : List Label) :
    addLabels ls (t :: ts) = addLabels (addLabels ls [t]) ts := rfl

theorem addLabels_append (ls ts us : List Label) : addLabels ls (ts ++ us) = addLabels (addLabels ls ts) us :=
  List.foldl_append

theorem addLabels_one (ls : List Label) (t : Label) : addLabels ls [t] = if t ∈ ls then ls else ls ++ [t] := rfl

theorem prefix_addLabels (ls ts : List Label) : ls <+: addLabels ls ts := by
  induction ts generalizing ls with
  | nil => exact List.prefix_rfl
  | cons t ts ih =>
    have hone : ls <+: addLabels ls [t] := by
      rw [addLabels_one]
      split
      · exact List.prefix_rfl
      · exact List.prefix_append _ _
    exact hone.trans (ih _)

theorem mem_addLabels : l ∈ addLabels ls ts ↔ l ∈ ls ∨ l ∈ ts := by
  induction ts generalizing ls with
  | nil => simp [addLabels_nil]
  | cons t ts ih =>
    have hone : l ∈ addLabels ls [t] ↔ l ∈ ls ∨ l = t := by
      rw [addLabels_one]
      split
      · rename_i ht
        exact ⟨.inl, fun h => h.elim id fun h => h ▸ ht⟩
      · rw [List.mem_append, List.mem_singleton]
    rw [addLabels_cons, ih, hone, List.mem_cons, or_assoc]

theorem nodup_addLabels (h : ls.Nodup) (ts : List Label) : (addLabels ls ts).Nodup := by
  induction ts generalizing ls with
  | nil => exact h
  | cons t ts ih =>
    rw [addLabels_cons]
    refine ih ?_
    rw [addLabels_one]
    split
    · exact h
    · rename_i ht
      have hnew := h.concat ht
      rwa [List.concat_eq_append] at hnew

/-- a renaming that keeps labels apart keeps their order -/
theorem addLabels_map {f : Label → Label} (h : Set.InjOn f {l | l ∈ ls ∨ l ∈ ts}) :
    addLabels (ls.map f) (ts.map f) = (addLabels ls ts).map f := by
  induction ts generalizing ls with
  | nil => rfl
  | cons t ts ih =>
    have hmem : f t ∈ ls.map f ↔ t ∈ ls := by
      refine ⟨fun ht => ?_, List.mem_map_of_mem⟩
      obtain ⟨l, hl, heq⟩ := List.mem_map.1 ht
      rwa [← h (.inl hl) (.inr List.mem_cons_self) heq]
    have hone : addLabels (ls.map f) [f t] = (addLabels ls [t]).map f := by
      simp only [addLabels_one, hmem]
      split
      · rfl
      · rw [List.map_append, List.map_singleton]
    rw [List.map_cons, addLabels_cons, hone, addLabels_cons]
    refine ih (h.mono ?_)
    rintro l (hl | hl)
    · have hadded : l ∈ ls ∨ l ∈ [t] := mem_addLabels.1 hl
      exact hadded.imp_right fun hl => List.mem_cons.2 (.inl (List.mem_singleton.1 hl))
    · exact .inr (List.mem_cons_of_mem _ hl)

/-- the label with the number of its place -/
def Label.renumber (fs : List Label) (l : Label) : Label := .nth (fs.idxOf l)

/-- labels behind the others do not move them -/
theorem Label.renumber_of_prefix (hl : l ∈ ls) (h : ls <+: fs) : l.renumber fs = l.renumber ls := by
  obtain ⟨more, rfl⟩ := h
  rw [renumber, List.idxOf_append_of_mem hl, renumber]

/-- there are not more labels than numbers -/
theorem length_le_of_nodup (h : fs.Nodup) : fs.length ≤ UInt32.size := by
  have hnumbers : (fs.map fun l => l.number.toNat).Nodup :=
    h.map fun a b heq => by
      obtain ⟨a⟩ := a
      obtain ⟨b⟩ := b
      exact congrArg Label.mk (UInt32.toNat_inj.1 heq)
  have hsub : (fs.map fun l => l.number.toNat) ⊆ List.range UInt32.size := by
    intro n hn
    obtain ⟨l, -, rfl⟩ := List.mem_map.1 hn
    exact List.mem_range.2 l.number.toNat_lt
  have hle := (hnumbers.subperm hsub).length_le
  rwa [List.length_map, List.length_range] at hle

/-- different labels get different numbers -/
theorem Label.renumber_injOn (h : fs.Nodup) : Set.InjOn (renumber fs) {l | l ∈ fs} := by
  intro a ha b hb heq
  have hsize := length_le_of_nodup h
  have hidx := Label.nth_inj (Nat.lt_of_lt_of_le (List.idxOf_lt_length_of_mem ha) hsize)
    (Nat.lt_of_lt_of_le (List.idxOf_lt_length_of_mem hb) hsize) heq
  exact (List.idxOf_inj ha).1 hidx

/-- places do not change when all labels are renamed, and none becomes another one -/
theorem idxOf_map_of_injOn {β : Type} [DecidableEq β] {f : Label → β} (h : Set.InjOn f {l | l ∈ fs}) (hl : l ∈ fs) :
    (fs.map f).idxOf (f l) = fs.idxOf l := by
  induction fs with
  | nil => exact absurd hl (by simp)
  | cons a fs ih =>
    rw [List.map_cons, List.idxOf_cons, List.idxOf_cons]
    by_cases heq : a = l
    · simp [heq]
    · have hne : f a ≠ f l := fun h' => heq (h List.mem_cons_self hl h')
      have htail := ih (h.mono fun b hb => List.mem_cons_of_mem _ hb) ((List.mem_cons.1 hl).resolve_left (Ne.symm heq))
      rw [beq_false_of_ne heq, beq_false_of_ne hne, htail]

end

/-! ## numbers -/

namespace Method

/-- the labels of the method in the order of their first mention -/
def order (m : Method) : List Label := addLabels [] m.mentioned

/-- the method with its labels numbered in this order -/
def renumbered (m : Method) : Method := m.relabel (Label.renumber m.order)

theorem nodup_order (m : Method) : m.order.Nodup := nodup_addLabels .nil _

theorem mem_order {m : Method} {l : Label} : l ∈ m.order ↔ l ∈ m.labels := by
  rw [order, mem_addLabels, mem_mentioned]
  simp

/-- **Numbering** keeps the labels of a method apart -/
theorem renumber_injOn (m : Method) : Set.InjOn (Label.renumber m.order) {l | l ∈ m.labels} :=
  (Label.renumber_injOn m.nodup_order).mono fun _ hl => mem_order.2 hl

/-- **Numbering once more** changes nothing -/
theorem renumbered_renumbered (m : Method) : m.renumbered.renumbered = m.renumbered := by
  have hinj := Label.renumber_injOn m.nodup_order
  have horder : m.renumbered.order = m.order.map (Label.renumber m.order) := by
    rw [order, renumbered, mentioned_relabel]
    have hall : Set.InjOn (Label.renumber m.order) {l | l ∈ ([] : List Label) ∨ l ∈ m.mentioned} := by
      refine hinj.mono ?_
      rintro l (hl | hl)
      · exact absurd hl (by simp)
      · exact mem_order.2 (mem_mentioned.1 hl)
    exact addLabels_map hall
  rw [renumbered, horder]
  show (m.relabel _).relabel _ = m.relabel _
  rw [relabel_relabel]
  refine relabel_congr fun l hl => ?_
  have hmem : l ∈ m.order := mem_order.2 (mem_mentioned.1 hl)
  show Label.nth _ = Label.nth _
  rw [idxOf_map_of_injOn hinj hmem]

end Method
end Resumable
