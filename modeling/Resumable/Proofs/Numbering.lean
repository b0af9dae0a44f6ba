import Resumable.Proofs.Labels

/-!
# The numbers of new labels

Each label of injected code has a place among the new ones: first those where sites are entered again,
then those of the prologue, then ten around each call.  No two of them have the same place, so a label
of a block does not stand in the blocks behind it.

* `Lays.labels` : the labels of laid out code;
* `Lays.labels_putIn`, `Layout.fresh_inj` : those that were put in, and their numbers;
* `Layout.Laid.not_mem_behind` : a label of a block does not stand behind it;
* `Layout.Laid.labelPosition_block` : it is found in its block.
-/

namespace Resumable

/-! ## the labels of blocks -/

namespace Around

/-- the staging code of a call, if its callee is not woven -/
def staging (x : Around) : List Insn :=
  if x.site.unpatchable then stageCode x.shape.window x.labels.staged else []

/-- what stands behind the save block -/
def ending (x : Around) : List Insn :=
  if x.site.unpatchable then endStagingCode x.labels.post else [.label x.labels.post]

/-- where the instruction stands in its block -/
def ownAt (x : Around) : Nat :=
  5 + (restoreCode x.site.unpatchable x.frame x.shape).length + x.staging.length

end Around

namespace Around

variable (x : Around) (a : Analysis) (ret : Option Kind) (own : Insn)

/-! the rest of a block from some places on -/

def fromNoYield : List Insn := .label x.labels.noYield :: x.ending

def fromAfter : List Insn :=
  .label x.labels.after :: Intrinsic.isYielding.call :: .branch .eq x.labels.noYield ::
    (saveCode a ret x.site x.frame x.shape ++ x.fromNoYield)

def fromRethrow : List Insn := rethrowCode x.site x.labels ++ x.fromAfter a ret

def fromInvoke : List Insn :=
  .label x.labels.invoke :: own :: .label x.labels.invokeEnd :: x.fromRethrow a ret

def fromCall : List Insn := .label x.labels.call :: (x.staging ++ x.fromInvoke a ret own)

def fromResume : List Insn :=
  .label x.site.resume :: (restoreCode x.site.unpatchable x.frame x.shape ++ x.fromCall a ret own)

end Around

/-- the code of a woven block from left to right -/
theorem Block.code_around (a : Analysis) (ret : Option Kind) (x : Around) (own : Insn) :
    (Block.mk (some x) own).code a ret =
      .label x.labels.pre :: .jump x.labels.call :: x.fromResume a ret own := by
  simp [Block.code, Block.before, Block.behind, beforeCall, afterCall, Around.staging,
    Around.ending, Around.fromResume, Around.fromCall, Around.fromInvoke, Around.fromRethrow,
    Around.fromAfter, Around.fromNoYield]

theorem labelsIn_staging (x : Around) : ∀ l ∈ labelsIn x.staging, l = x.labels.staged := by
  intro l hl
  unfold Around.staging at hl
  split at hl
  · rw [labelsIn_stageCode] at hl
    exact List.mem_singleton.1 hl
  · exact absurd hl (by simp [labelsIn_nil])

theorem labelsIn_ending (x : Around) : labelsIn x.ending = [x.labels.post] := by
  unfold Around.ending
  split <;> rfl

theorem labelsIn_rethrowCode (site : Site) (l : SiteLabels) :
    ∀ l' ∈ labelsIn (rethrowCode site l), l' = l.handler ∨ l' = l.rethrow := by
  intro l' hl'
  unfold rethrowCode at hl'
  split at hl'
  · rw [show labelsIn _ = [l.handler, l.rethrow] from rfl] at hl'
    simpa using hl'
  · exact absurd hl' (by simp [labelsIn_nil])

/-! ## the labels put in -/

namespace Piece

/-- the code put in by a piece -/
def putIn : Piece → List Insn
  | .own _ => []
  | .injected is => is

/-- the code put in by pieces in order -/
def putInOf (ps : List Piece) : List Insn := ps.flatMap putIn

theorem putInOf_append (ps qs : List Piece) : putInOf (ps ++ qs) = putInOf ps ++ putInOf qs :=
  List.flatMap_append

theorem mem_codeOf {ps : List Piece} {i : Insn} :
    i ∈ codeOf ps ↔ i ∈ putInOf ps ∨ i ∈ keptOf ps := by
  induction ps with
  | nil => simp [codeOf, putInOf, keptOf]
  | cons p ps ih =>
    have hp : i ∈ p.code ↔ i ∈ p.putIn ∨ i ∈ p.kept := by cases p <;> simp [code, putIn, kept]
    rw [codeOf_cons, keptOf_cons, show putInOf (p :: ps) = p.putIn ++ putInOf ps from rfl,
      List.mem_append, List.mem_append, List.mem_append, ih, hp]
    exact or_or_or_comm

theorem labelsIn_codeOf (ps : List Piece) :
    (labelsIn (codeOf ps)).Perm (labelsIn (putInOf ps) ++ labelsIn (keptOf ps)) := by
  induction ps with
  | nil => exact .refl _
  | cons p ps ih =>
    rw [codeOf_cons, labelsIn_append]
    cases p with
    | own i =>
      refine (ih.append_left _).trans ?_
      rw [keptOf_cons, labelsIn_append]
      exact List.perm_append_comm_assoc _ _ _
    | injected is =>
      refine (ih.append_left _).trans (.of_eq ?_)
      rw [show putInOf (.injected is :: ps) = is ++ putInOf ps from rfl, labelsIn_append,
        List.append_assoc]
      rfl

end Piece

/-- the labels put in around a call, in order -/
def Around.putLabels (x : Around) : List Label :=
  [x.labels.pre, x.site.resume, x.labels.call] ++
  (if x.site.unpatchable then [x.labels.staged] else []) ++ [x.labels.invoke, x.labels.invokeEnd] ++
  (if x.site.unpatchable then [x.labels.handler, x.labels.rethrow] else []) ++
  [x.labels.after, x.labels.noYield, x.labels.post]

theorem Around.mem_putLabels {x : Around} {lab : Label} (h : lab ∈ x.putLabels) :
    lab = x.site.resume ∨ lab ∈ x.labels.all := by
  unfold putLabels at h
  unfold SiteLabels.all
  grind

/-- the labels that a block puts in -/
theorem Block.labelsIn_putIn (a : Analysis) (ret : Option Kind) (b : Block) :
    labelsIn (Piece.putInOf (b.pieces a ret)) = b.around.elim [] Around.putLabels := by
  obtain ⟨around, own⟩ := b
  cases around with
  | none => rfl
  | some x =>
    have hstaging : labelsIn (if x.site.unpatchable then
        stageCode x.shape.window x.labels.staged else []) =
        if x.site.unpatchable then [x.labels.staged] else [] := by
      split
      · exact labelsIn_stageCode _ _
      · rfl
    have hrethrow : labelsIn (rethrowCode x.site x.labels) =
        if x.site.unpatchable then [x.labels.handler, x.labels.rethrow] else [] := by
      unfold rethrowCode
      split <;> rfl
    have hending : labelsIn (if x.site.unpatchable then endStagingCode x.labels.post
        else [.label x.labels.post]) = [x.labels.post] := labelsIn_ending x
    show labelsIn (beforeCall x.site x.frame x.shape x.labels ++
      (afterCall a ret x.site x.frame x.shape x.labels ++ [])) = x.putLabels
    unfold beforeCall afterCall Around.putLabels
    simp only [labelsIn_append, labelsIn_label, labelsIn_jump, labelsIn_branch, labelsIn_call,
      hstaging, hrethrow, hending, (Straight.restoreCode _ _ _).labelsIn,
      (Straight.saveCode _ _ _ _ _).labelsIn, List.append_nil, List.append_assoc,
      List.cons_append, List.nil_append]

/-- the labels of a block belong to the instruction, to its site or to the place -/
theorem Block.labelsIn_code {a : Analysis} {ret : Option Kind} {b : Block} {l : Label}
    (h : l ∈ labelsIn (b.code a ret)) :
    b.own.label? = some l ∨ ∃ x, b.around = some x ∧ (l = x.site.resume ∨ l ∈ x.labels.all) := by
  rw [← codeOf_pieces, (Piece.labelsIn_codeOf _).mem_iff, labelsIn_putIn, keptOf_pieces,
    List.mem_append] at h
  rcases h with h | h
  · cases hx : b.around with
    | none =>
      rw [hx] at h
      exact absurd h List.not_mem_nil
    | some x =>
      rw [hx] at h
      exact .inr ⟨x, rfl, Around.mem_putLabels h⟩
  · rw [labelsIn_cons, labelsIn_nil, List.append_nil] at h
    exact .inl (Option.mem_toList.1 h)

/-- the blocks with something around their instructions -/
def wovenCount (bs : List Block) : Nat := bs.countP fun b => b.around.isSome

namespace Lays

variable {sites : List Site} {position : Nat} {base : UInt32} {is : List Insn} {bs : List Block}
  {a : Analysis} {ret : Option Kind}

theorem wovenCount_cons (b : Block) (bs : List Block) :
    wovenCount (b :: bs) = wovenCount bs + if b.around.isSome then 1 else 0 := List.countP_cons ..

/-- the labels put in belong to sites from the position on, or to the new labels from the base on -/
theorem labels_putIn (h : Lays sites position base is bs) {l : Label}
    (hl : l ∈ labelsIn (Piece.putInOf (bs.flatMap (Block.pieces a ret)))) :
    (∃ s ∈ sites, position ≤ s.position ∧ s.frame.isSome ∧ l = s.resume) ∨
      ∃ k < 10 * wovenCount bs, l = freshLabel base k := by
  induction h with
  | nil => exact absurd hl (by simp [labelsIn_nil, Piece.putInOf])
  | @keep position base i is bs skipped _ ih =>
    rw [List.flatMap_cons, Piece.putInOf_append, labelsIn_append, List.mem_append] at hl
    rw [wovenCount_cons]
    rcases hl with hl | hl
    · exact absurd hl (by rw [Block.labelsIn_putIn]; exact List.not_mem_nil)
    · rcases ih hl with ⟨s, hs, hp, hf, hl⟩ | hl
      · exact .inl ⟨s, hs, by omega, hf, hl⟩
      · exact .inr hl
  | @weave position base i is bs x fits labels _ ih =>
    rw [List.flatMap_cons, Piece.putInOf_append, labelsIn_append, List.mem_append] at hl
    rw [wovenCount_cons, if_pos (show (Block.mk (some x) i).around.isSome = true from rfl)]
    obtain ⟨hs, hp⟩ := find?_position fits.found
    rcases hl with hl | hl
    · rw [Block.labelsIn_putIn] at hl
      rcases Around.mem_putLabels hl with hl | hl
      · exact .inl ⟨x.site, hs, by omega, by rw [fits.frame]; rfl, hl⟩
      · rw [labels, SiteLabels.mem_all] at hl
        obtain ⟨k, hk, hl⟩ := hl
        exact .inr ⟨k, by omega, hl⟩
    · rcases ih hl with ⟨s, hs, hp, hf, hl⟩ | ⟨k, hk, hl⟩
      · exact .inl ⟨s, hs, by omega, hf, hl⟩
      · rw [freshLabel_add] at hl
        exact .inr ⟨10 + k, by omega, hl⟩

/-- the labels of laid out code belong to the method or are put in -/
theorem labels (h : Lays sites position base is bs) {l : Label}
    (hl : l ∈ labelsIn (bs.flatMap (Block.code a ret))) :
    l ∈ labelsIn is ∨ (∃ s ∈ sites, position ≤ s.position ∧ s.frame.isSome ∧ l = s.resume) ∨
      ∃ k < 10 * wovenCount bs, l = freshLabel base k := by
  rw [← Block.codeOf_flatMap, (Piece.labelsIn_codeOf _).mem_iff, List.mem_append,
    Block.keptOf_flatMap, h.own] at hl
  exact hl.symm.imp_right h.labels_putIn

/-- the blocks behind some of them -/
theorem drop (h : Lays sites position base is bs) (n : Nat) :
    Lays sites (position + (bs.take n).length) (base + UInt32.ofNat (10 * wovenCount (bs.take n)))
      (is.drop n) (bs.drop n) := by
  induction n generalizing position base is bs with
  | zero =>
    rw [show base + UInt32.ofNat (10 * wovenCount (bs.take 0)) = base from UInt32.add_zero base]
    exact h
  | succ n ih =>
    cases h with
    | nil =>
      rw [show base + UInt32.ofNat (10 * wovenCount (([] : List Block).take (n + 1))) = base from
        UInt32.add_zero base]
      exact .nil _ _
    | @keep _ _ i is bs skipped rest =>
      have hrest := ih rest
      have hposition : position + ((Block.mk none i :: bs).take (n + 1)).length =
          position + 1 + (bs.take n).length := by
        rw [List.take_succ_cons, List.length_cons]
        omega
      rw [hposition]
      exact hrest
    | @weave _ _ i is bs x fits labels rest =>
      have hrest := ih rest
      have hposition : position + ((Block.mk (some x) i :: bs).take (n + 1)).length =
          position + 1 + (bs.take n).length := by
        rw [List.take_succ_cons, List.length_cons]
        omega
      have hbase : base + UInt32.ofNat (10 * wovenCount ((Block.mk (some x) i :: bs).take (n + 1))) =
          base + UInt32.ofNat labelsPerSite + UInt32.ofNat (10 * wovenCount (bs.take n)) := by
        rw [UInt32.add_assoc, ← UInt32.ofNat_add, List.take_succ_cons, wovenCount_cons]
        congr 2
        show 10 * (wovenCount (bs.take n) + 1) = 10 + 10 * wovenCount (bs.take n)
        omega
      rw [hposition, hbase]
      exact hrest

/-- each woven block takes a reachable site of its own -/
theorem wovenCount_le (h : Lays sites position base is bs) :
    wovenCount bs ≤ sites.countP fun s => decide (position ≤ s.position) && s.frame.isSome := by
  induction h with
  | nil => exact Nat.zero_le _
  | keep _ _ ih =>
    rw [wovenCount_cons]
    refine Nat.le_trans ih (List.countP_mono_left fun s _ hs => ?_)
    simp only [Bool.and_eq_true, decide_eq_true_eq] at hs ⊢
    exact ⟨by omega, hs.2⟩
  | @weave position base i is bs x fits _ _ ih =>
    obtain ⟨hs, hp⟩ := find?_position fits.found
    have hmore : (sites.countP fun s => decide (position + 1 ≤ s.position) && s.frame.isSome) + 1 ≤
        sites.countP fun s => decide (position ≤ s.position) && s.frame.isSome := by
      obtain ⟨before, after, rfl⟩ := List.append_of_mem hs
      simp only [List.countP_append, List.countP_cons, hp, fits.frame, Option.isSome_some,
        Nat.le_refl, Nat.not_succ_le_self, decide_true, decide_false, Bool.false_and, Bool.and_self,
        if_true, Bool.false_eq_true, if_false]
      have hmono (ss : List Site) :
          (ss.countP fun s => decide (position + 1 ≤ s.position) && s.frame.isSome) ≤
            ss.countP fun s => decide (position ≤ s.position) && s.frame.isSome := by
        refine List.countP_mono_left fun s _ hs => ?_
        simp only [Bool.and_eq_true, decide_eq_true_eq] at hs ⊢
        exact ⟨by omega, hs.2⟩
      have h1 := hmono before
      have h2 := hmono after
      omega
    rw [wovenCount_cons]
    show wovenCount bs + 1 ≤ _
    omega

end Lays

/-- a site is numbered below the number of sites -/
theorem index_lt_of_mem {a : Analysis} {base : UInt32} {index position : Nat} {is : List Insn}
    {s : Site} (hs : s ∈ sitesFrom a base index position is) :
    s.index < index + (sitesFrom a base index position is).length := by
  induction is generalizing index position with
  | nil => exact absurd hs (by simp [sitesFrom])
  | cons i is ih =>
    rw [sitesFrom_cons] at hs ⊢
    split at hs
    · split at hs
      · rename_i hc
        rw [if_pos hc, List.length_cons]
        rcases List.mem_cons.1 hs with rfl | hs
        · show index < _
          omega
        · have := ih hs
          omega
      · rename_i hc
        rw [if_neg hc]
        exact ih hs
    · exact ih hs

/-- sites of the same number are the same -/
theorem eq_of_index {sites : List Site} {s t : Site}
    (hp : sites.Pairwise fun s t => s.position < t.position ∧ s.index < t.index)
    (hs : s ∈ sites) (ht : t ∈ sites) (h : s.index = t.index) : s = t := by
  induction sites with
  | nil => exact absurd hs (by simp)
  | cons u us ih =>
    obtain ⟨hu, hus⟩ := List.pairwise_cons.1 hp
    rcases List.mem_cons.1 hs with hsu | hsu <;> rcases List.mem_cons.1 ht with htu | htu
    · rw [hsu, htu]
    · have := (hu t htu).2
      rw [← hsu] at this
      omega
    · have := (hu s hsu).2
      rw [← htu] at this
      omega
    · exact ih hus hsu htu

/-! ## where labels are found -/

namespace Layout

variable {a : Analysis} {m m' : Method} {l : Layout a m} {n : Nat} {b : Block} {x : Around}
  {lab : Label}

/-- the label of a number among the new ones -/
def fresh (_ : Layout a m) (k : Nat) : Label := freshLabel m.nextLabel k

/-- there are numbers for the new labels -/
def Fits (l : Layout a m) : Prop := LabelsFit m (newLabels l.sites)

theorem labelsBeforeSites_pos (sites : List Site) : sites.length + 2 ≤ labelsBeforeSites sites := by
  unfold labelsBeforeSites
  omega

/-- new labels with different places are different -/
theorem fresh_inj (hcount : newLabels l.sites ≤ 2 ^ 32) {i j : Nat} (hi : i < newLabels l.sites)
    (hj : j < newLabels l.sites) (h : l.fresh i = l.fresh j) : i = j :=
  freshLabel_inj (Nat.lt_of_lt_of_le hi hcount) (Nat.lt_of_lt_of_le hj hcount) h

theorem Fits.fresh_inj (hl : l.Fits) {i j : Nat} (hi : i < newLabels l.sites)
    (hj : j < newLabels l.sites) (h : l.fresh i = l.fresh j) : i = j :=
  l.fresh_inj hl.count hi hj h

/-- new labels are none of those that the method mentions -/
theorem Fits.fresh_not_mem (hl : l.Fits) {k : Nat} (hk : k < newLabels l.sites) :
    l.fresh k ∉ m.labels := by
  intro hmem
  obtain ⟨hlt, hfit⟩ := LabelsFit.nextLabel hl (Nat.lt_of_le_of_lt (Nat.zero_le k) hk)
  have h := hlt _ hmem
  unfold fresh at h
  rw [number_freshLabel (by omega)] at h
  omega

/-- the labels that stand in the method are among those it mentions -/
theorem mem_labels_of_code {lab : Label} (h : lab ∈ labelsIn m.code) : lab ∈ m.labels := by
  rw [mem_labelsIn] at h
  unfold Method.labels
  rw [List.mem_append, List.mem_append]
  refine .inl (.inl (List.mem_flatMap.2 ⟨_, h, ?_⟩))
  simp [Insn.labels, Insn.label?]

theorem Laid.wovenCount_le (h : l.Laid m') (n : Nat) :
    wovenCount (l.blocks.take n) + wovenCount (l.blocks.drop n) ≤
      l.sites.countP fun s => s.frame.isSome := by
  have hle := h.blocks.wovenCount_le
  rw [← List.take_append_drop n l.blocks] at hle
  unfold wovenCount at hle ⊢
  rw [List.countP_append] at hle
  refine Nat.le_trans hle (List.countP_mono_left fun s _ hs => ?_)
  simp only [Bool.and_eq_true] at hs
  exact hs.2

/-- the labels around the call of a block have numbers of their own -/
theorem Laid.labels_around (h : l.Laid m') (hb : l.blocks[n]? = some b) (hx : b.around = some x) :
    x.labels = .ofBase (m.nextLabel +
      UInt32.ofNat (labelsBeforeSites l.sites + 10 * wovenCount (l.blocks.take n))) := by
  have hdrop := h.blocks.drop n
  obtain ⟨hn, hbn⟩ := List.getElem?_eq_some_iff.1 hb
  rw [List.drop_eq_getElem_cons hn, hbn] at hdrop
  obtain ⟨around, own⟩ := b
  obtain rfl : around = some x := hx
  generalize m.code.drop n = is at hdrop
  cases hdrop with
  | weave _ labels _ =>
    rw [labels, UInt32.add_assoc, ← UInt32.ofNat_add]

theorem Laid.labels_place (h : l.Laid m') (hb : l.blocks[n]? = some b) (hx : b.around = some x)
    (hlab : lab ∈ x.labels.all) :
    ∃ k < 10, lab = l.fresh (labelsBeforeSites l.sites + 10 * wovenCount (l.blocks.take n) + k) := by
  rw [h.labels_around hb hx, SiteLabels.mem_all] at hlab
  obtain ⟨k, hk, rfl⟩ := hlab
  exact ⟨k, hk, freshLabel_add _ _ _⟩

/-- the number of a new label of laid out code -/
theorem Laid.place_of_mem_drop (h : l.Laid m') (n : Nat)
    (hlab : lab ∈ labelsIn ((l.blocks.drop n).flatMap (Block.code a l.ret))) :
    lab ∈ m.labels ∨
      (∃ s ∈ l.sites, (l.blocks.take n).length ≤ s.position ∧ s.frame.isSome ∧
        lab = l.fresh s.index) ∨
      ∃ k < 10 * wovenCount (l.blocks.drop n),
        lab = l.fresh (labelsBeforeSites l.sites + 10 * wovenCount (l.blocks.take n) + k) := by
  rcases (h.blocks.drop n).labels hlab with hl | ⟨s, hs, hp, hf, hl⟩ | ⟨k, hk, hl⟩
  · refine .inl (mem_labels_of_code ?_)
    rw [mem_labelsIn] at hl ⊢
    exact List.mem_of_mem_drop hl
  · obtain ⟨_, _, _, _, _, hdescribes⟩ := sitesFrom_sound hs
    refine .inr (.inl ⟨s, hs, by omega, hf, ?_⟩)
    rw [hl, hdescribes.resume]
    rfl
  · refine .inr (.inr ⟨k, hk, ?_⟩)
    rw [hl, freshLabel_add, freshLabel_add]
    unfold fresh
    congr 1
    omega

/-- the blocks up to one and behind it -/
theorem wovenCount_split (hb : l.blocks[n]? = some b) :
    wovenCount (l.blocks.take (n + 1)) =
      wovenCount (l.blocks.take n) + if b.around.isSome then 1 else 0 := by
  obtain ⟨hn, rfl⟩ := List.getElem?_eq_some_iff.1 hb
  unfold wovenCount
  rw [List.take_succ_eq_append_getElem hn, List.countP_append, List.countP_singleton]

theorem index_lt_newLabels {s : Site} (hs : s ∈ l.sites) :
    s.index < l.sites.length ∧ l.sites.length + 2 ≤ newLabels l.sites := by
  have hlt := index_lt_of_mem hs
  have hle := labelsBeforeSites_pos l.sites
  unfold newLabels
  refine ⟨?_, by omega⟩
  rw [Nat.zero_add] at hlt
  exact hlt

/-- the site of a block is the one that is numbered for its position -/
theorem Laid.site_of_around (h : l.Laid m') (hb : l.blocks[n]? = some b)
    (hx : b.around = some x) :
    x.site ∈ l.sites ∧ x.site.position = n ∧ x.site.frame = some x.frame ∧
      x.site.resume = l.fresh x.site.index ∧ b.own = .invoke x.site.kind x.site.callee := by
  rcases h.blocks.block hb with ⟨hnone, -⟩ | ⟨y, hy, hfits⟩
  · exact absurd (hnone.symm.trans hx) (by simp)
  · obtain rfl : y = x := Option.some.inj (hy.symm.trans hx)
    obtain ⟨hs, hp⟩ := find?_position hfits.found
    obtain ⟨j, i, hj, hpj, -, hdescribes⟩ := sitesFrom_sound hs
    refine ⟨hs, by omega, hfits.frame, hdescribes.resume, ?_⟩
    have hown := h.own hb
    rw [h.insns, show j = n by omega, hown] at hj
    rw [Option.some.inj hj]
    exact hdescribes.call

/-- the new labels of a block do not stand in the blocks behind it -/
theorem Laid.not_mem_behind (h : l.Laid m') (hfit : l.Fits) (hb : l.blocks[n]? = some b)
    (hx : b.around = some x) (hlab : lab = x.site.resume ∨ lab ∈ x.labels.all) :
    lab ∉ labelsIn ((l.blocks.drop (n + 1)).flatMap (Block.code a l.ret)) := by
  intro hmem
  obtain ⟨hs, hp, -, hresume, -⟩ := h.site_of_around hb hx
  obtain ⟨hindex, hsites⟩ := index_lt_newLabels hs
  have hcount := h.wovenCount_le (n + 1)
  have hsplit := wovenCount_split hb
  rw [hx, Option.isSome_some, if_pos rfl] at hsplit
  obtain ⟨hn, -⟩ := List.getElem?_eq_some_iff.1 hb
  have htake : (l.blocks.take (n + 1)).length = n + 1 := by
    rw [List.length_take]
    omega
  have hbefore := labelsBeforeSites_pos l.sites
  have hnew : newLabels l.sites = labelsBeforeSites l.sites +
      10 * l.sites.countP fun s => s.frame.isSome := rfl
  -- which number the label has
  obtain ⟨k, hk, rfl, hkind⟩ : ∃ k < newLabels l.sites, lab = l.fresh k ∧
      (k = x.site.index ∨ labelsBeforeSites l.sites + 10 * wovenCount (l.blocks.take n) ≤ k ∧
        k < labelsBeforeSites l.sites + 10 * wovenCount (l.blocks.take (n + 1))) := by
    rcases hlab with rfl | hlab
    · exact ⟨x.site.index, by omega, hresume, .inl rfl⟩
    · obtain ⟨k, hk, hlab⟩ := h.labels_place hb hx hlab
      exact ⟨_, by omega, hlab, .inr (by omega)⟩
  rcases h.place_of_mem_drop (n + 1) hmem with hl | ⟨s, hs', hp', -, hl⟩ | ⟨j, hj, hl⟩
  · exact hfit.fresh_not_mem hk hl
  · obtain ⟨hindex', -⟩ := index_lt_newLabels hs'
    have heq := hfit.fresh_inj hk (by omega) hl
    rcases hkind with rfl | ⟨hlow, -⟩
    · have := eq_of_index sitesFrom_pairwise hs hs' heq
      rw [← this, hp, htake] at hp'
      omega
    · omega
  · have heq := hfit.fresh_inj hk (by omega) hl
    rcases hkind with rfl | ⟨-, hhigh⟩ <;> omega

/-- a new label of a block is found where it stands last in it -/
theorem Laid.labelPosition_block (h : l.Laid m') (hfit : l.Fits) (hb : l.blocks[n]? = some b)
    (hx : b.around = some x) (hlab : lab = x.site.resume ∨ lab ∈ x.labels.all)
    {pre post : List Insn} (hcode : b.code a l.ret = pre ++ .label lab :: post)
    (hpost : lab ∉ labelsIn post) : labelPosition lab m'.code = some (l.start n + pre.length) := by
  have hbehind := h.not_mem_behind hfit hb hx hlab
  have hall : m'.code = ((l.prologue ++ (l.blocks.take n).flatMap (Block.code a l.ret)) ++ pre) ++
      .label lab :: (post ++ (l.blocks.drop (n + 1)).flatMap (Block.code a l.ret)) := by
    rw [h.code_eq, code_split hb, hcode]
    simp only [List.append_assoc, List.cons_append]
  rw [hall, labelPosition_last, List.length_append, length_before]
  rw [labelsIn_append, List.mem_append, not_or]
  exact ⟨hpost, hbehind⟩

end Layout

end Resumable
