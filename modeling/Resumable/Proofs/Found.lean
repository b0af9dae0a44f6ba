import Resumable.Proofs.Numbering

/-!
# Where labels are found

Each label of injected code is found where it was put, and the labels of the method are found in
front of their instructions as before.

* `Around.Found`, `Layout.Laid.found` : the labels around a call;
* `Layout.Laid.labelPosition_body`, `Layout.Laid.labelPosition_noState` : those of the prologue;
* `Layout.Laid.labelPosition_own` : those of the method.
-/

namespace Resumable

/-! ## the labels around a call -/

namespace Around

/-- where the question stands whether the callee is being suspended -/
def afterAt (x : Around) : Nat := x.ownAt + 2 + (rethrowCode x.site x.labels).length

/-- where the way on stands if it is not -/
def noYieldAt (x : Around) (a : Analysis) (ret : Option Kind) : Nat :=
  x.afterAt + 3 + (saveCode a ret x.site x.frame x.shape).length

/-- the labels around a call are found in its block, which starts at a place -/
structure Found (x : Around) (a : Analysis) (ret : Option Kind) (code : List Insn)
    (start : Nat) : Prop where
  pre : labelPosition x.labels.pre code = some start
  resume : labelPosition x.site.resume code = some (start + 2)
  call : labelPosition x.labels.call code =
    some (start + (3 + (restoreCode x.site.unpatchable x.frame x.shape).length))
  staged : x.site.unpatchable = true →
    labelPosition x.labels.staged code = some (start + (x.ownAt - 2))
  invoke : labelPosition x.labels.invoke code = some (start + (x.ownAt - 1))
  invokeEnd : labelPosition x.labels.invokeEnd code = some (start + (x.ownAt + 1))
  handler : x.site.unpatchable = true →
    labelPosition x.labels.handler code = some (start + (x.ownAt + 3))
  rethrow : x.site.unpatchable = true →
    labelPosition x.labels.rethrow code = some (start + (x.ownAt + 7))
  after : labelPosition x.labels.after code = some (start + x.afterAt)
  noYield : labelPosition x.labels.noYield code = some (start + x.noYieldAt a ret)
  post : labelPosition x.labels.post code =
    some (start + (x.noYieldAt a ret + x.ending.length))

end Around

namespace Layout

variable {a : Analysis} {m m' : Method} {l : Layout a m} {n : Nat} {b : Block} {x : Around}

/-- no label around a call is the one where the call is entered again -/
theorem Laid.resume_not_mem (h : l.Laid m') (hfit : l.Fits) (hb : l.blocks[n]? = some b)
    (hx : b.around = some x) : x.site.resume ∉ x.labels.all := by
  intro hmem
  obtain ⟨hs, -, -, hresume, -⟩ := h.site_of_around hb hx
  obtain ⟨hindex, hsites⟩ := index_lt_newLabels hs
  obtain ⟨k, hk, hplace⟩ := h.labels_place hb hx hmem
  have hcount := h.wovenCount_le (n + 1)
  have hsplit := wovenCount_split hb
  rw [hx, Option.isSome_some, if_pos rfl] at hsplit
  have hbefore := labelsBeforeSites_pos l.sites
  have hnew : newLabels l.sites = labelsBeforeSites l.sites +
      10 * l.sites.countP fun s => s.frame.isSome := rfl
  rw [hresume] at hplace
  have heq := hfit.fresh_inj (by omega) (by omega) hplace
  omega

/-- labels around a call that stand behind others of them -/
def Above (base : UInt32) (k : Nat) (is : List Insn) : Prop :=
  ∀ lab ∈ labelsIn is, ∃ j, k ≤ j ∧ j < 10 ∧ lab = freshLabel base j

section
variable {base : UInt32} {k j : Nat} {is js : List Insn}

theorem Above.not_mem (h : Above base k is) (hj : j < k) : freshLabel base j ∉ labelsIn is := by
  intro hmem
  obtain ⟨i, hi, h10, heq⟩ := h _ hmem
  have := freshLabel_inj (by omega) (by omega) heq
  omega

theorem Above.label (h : Above base (k + 1) is) (hk : k < 10) :
    Above base k (.label (freshLabel base k) :: is) := by
  intro lab hlab
  rw [labelsIn_label] at hlab
  rcases List.mem_cons.1 hlab with rfl | hlab
  · exact ⟨k, Nat.le_refl k, hk, rfl⟩
  · obtain ⟨j, hj, h10, heq⟩ := h lab hlab
    exact ⟨j, by omega, h10, heq⟩

theorem Above.append (h : Above base k is) (h' : Above base k js) : Above base k (is ++ js) := by
  intro lab hlab
  rw [labelsIn_append, List.mem_append] at hlab
  exact hlab.elim (h lab) (h' lab)

theorem Above.mono (h : Above base k is) (hj : j ≤ k) : Above base j is := by
  intro lab hlab
  obtain ⟨i, hi, h10, heq⟩ := h lab hlab
  exact ⟨i, by omega, h10, heq⟩

theorem Above.of_labelsIn_eq_nil (h : labelsIn is = []) : Above base k is := by
  intro lab hlab
  rw [h] at hlab
  exact absurd hlab (by simp)

theorem Above.cons {i : Insn} (h : Above base k is) (hi : i.label? = none) :
    Above base k (i :: is) := by
  have hone : Above base k [i] := .of_labelsIn_eq_nil (by rw [labelsIn_cons, hi]; rfl)
  exact hone.append h

end

section
variable {base : UInt32} {ret : Option Kind} {own : Insn}

theorem above_fromNoYield (hx : x.labels = .ofBase base) : Above base 8 x.fromNoYield := by
  unfold Around.fromNoYield
  rw [hx]
  refine .label (fun lab hlab => ?_) (by omega)
  rw [labelsIn_ending, List.mem_singleton, hx] at hlab
  exact ⟨9, by omega, by omega, hlab⟩

theorem above_fromAfter (hx : x.labels = .ofBase base) : Above base 7 (x.fromAfter a ret) := by
  unfold Around.fromAfter
  rw [hx]
  exact .label (.cons (.cons (.append (.of_labelsIn_eq_nil (Straight.saveCode _ _ _ _ _).labelsIn)
    (above_fromNoYield hx)) rfl) rfl) (by omega)

theorem above_fromRethrow (hx : x.labels = .ofBase base) : Above base 5 (x.fromRethrow a ret) := by
  refine .append (fun lab hlab => ?_) ((above_fromAfter hx).mono (by omega))
  rcases labelsIn_rethrowCode _ _ lab hlab with hl | hl <;> rw [hx] at hl
  · exact ⟨5, by omega, by omega, hl⟩
  · exact ⟨6, by omega, by omega, hl⟩

theorem above_fromInvoke (hx : x.labels = .ofBase base) (hown : own.label? = none) :
    Above base 3 (x.fromInvoke a ret own) := by
  unfold Around.fromInvoke
  rw [hx]
  exact .label (.cons (.label (above_fromRethrow hx) (by omega)) hown) (by omega)

theorem above_fromCall (hx : x.labels = .ofBase base) (hown : own.label? = none) :
    Above base 1 (x.fromCall a ret own) := by
  unfold Around.fromCall
  rw [hx]
  refine .label (.append (fun lab hlab => ?_) ((above_fromInvoke hx hown).mono (by omega))) (by omega)
  have hl := labelsIn_staging x lab hlab
  rw [hx] at hl
  exact ⟨2, by omega, by omega, hl⟩

end

/-- a list cut behind its first part -/
theorem drop_add_length {α : Type} {code : List α} {n : Nat} (is js : List α)
    (h : code.drop n = is ++ js) : code.drop (n + is.length) = js := by
  rw [← List.drop_drop, h, List.drop_left]

/-- a new label of a block is found where the rest of the block starts with it and does not hold it
again -/
theorem Laid.labelPosition_drop (h : l.Laid m') (hfit : l.Fits) (hb : l.blocks[n]? = some b)
    (hx : b.around = some x) {lab : Label} (hlab : lab = x.site.resume ∨ lab ∈ x.labels.all)
    {k : Nat} {post : List Insn} (hcode : (b.code a l.ret).drop k = .label lab :: post)
    (hpost : lab ∉ labelsIn post) : labelPosition lab m'.code = some (l.start n + k) := by
  have hk : k < (b.code a l.ret).length := by
    have hlen := congrArg List.length hcode
    rw [List.length_drop, List.length_cons] at hlen
    omega
  have hcut : b.code a l.ret = (b.code a l.ret).take k ++ .label lab :: post := by
    rw [← hcode, List.take_append_drop]
  rw [h.labelPosition_block hfit hb hx hlab hcut hpost, List.length_take,
    Nat.min_eq_left (Nat.le_of_lt hk)]

/-- the parts of a block stand in these places of it -/
theorem drop_around (a : Analysis) (ret : Option Kind) (x : Around) (own : Insn) :
    ((Block.mk (some x) own).code a ret).drop 2 = x.fromResume a ret own ∧
    ((Block.mk (some x) own).code a ret).drop
      (3 + (restoreCode x.site.unpatchable x.frame x.shape).length) = x.fromCall a ret own ∧
    ((Block.mk (some x) own).code a ret).drop (x.ownAt - 1) = x.fromInvoke a ret own ∧
    ((Block.mk (some x) own).code a ret).drop (x.ownAt + 2) = x.fromRethrow a ret ∧
    ((Block.mk (some x) own).code a ret).drop x.afterAt = x.fromAfter a ret ∧
    ((Block.mk (some x) own).code a ret).drop (x.noYieldAt a ret) = x.fromNoYield := by
  generalize hcode : (Block.mk (some x) own).code a ret = code
  rw [Block.code_around] at hcode
  have h1 : code.drop 2 = x.fromResume a ret own := by
    rw [← hcode]
    rfl
  have h2 : code.drop (3 + (restoreCode x.site.unpatchable x.frame x.shape).length) =
      x.fromCall a ret own := by
    have h3 : code.drop 3 = restoreCode x.site.unpatchable x.frame x.shape ++
        x.fromCall a ret own := by
      rw [← hcode]
      rfl
    exact drop_add_length _ _ h3
  have h3 : code.drop (x.ownAt - 1) = x.fromInvoke a ret own := by
    have h3 := drop_add_length (.label x.labels.call :: x.staging) _ h2
    rw [List.length_cons] at h3
    rw [← h3]
    congr 1
    unfold Around.ownAt
    omega
  have h4 : code.drop (x.ownAt + 2) = x.fromRethrow a ret := by
    have h4 := drop_add_length [.label x.labels.invoke, own, .label x.labels.invokeEnd]
      (x.fromRethrow a ret) h3
    rw [← h4]
    congr 1
    unfold Around.ownAt
    show _ = _ + 3
    omega
  have h5 : code.drop x.afterAt = x.fromAfter a ret := drop_add_length _ _ h4
  have h6 : code.drop (x.noYieldAt a ret) = x.fromNoYield := by
    have h6 := drop_add_length (n := x.afterAt) [.label x.labels.after,
      Intrinsic.isYielding.call, .branch .eq x.labels.noYield] _ h5
    exact drop_add_length _ _ h6
  exact ⟨h1, h2, h3, h4, h5, h6⟩

theorem Laid.found (h : l.Laid m') (hfit : l.Fits) (hb : l.blocks[n]? = some b)
    (hx : b.around = some x) : x.Found a l.ret m'.code (l.start n) := by
  have hresume := h.resume_not_mem hfit hb hx
  have hlabels := h.labels_around hb hx
  obtain ⟨-, -, -, -, hown⟩ := h.site_of_around hb hx
  obtain ⟨around, own⟩ := b
  obtain rfl : around = some x := hx
  have hown : own.label? = none := by rw [show own = _ from hown]; rfl
  generalize m.nextLabel + UInt32.ofNat _ = base at hlabels
  have hall {k : Nat} (hk : k < 10) : freshLabel base k ∈ x.labels.all := by
    rw [hlabels]
    exact SiteLabels.mem_all.2 ⟨k, hk, rfl⟩
  obtain ⟨h1, h2, h3, h4, h5, h6⟩ := drop_around a l.ret x own
  have h0 : ((Block.mk (some x) own).code a l.ret).drop 0 = _ := Block.code_around a l.ret x own
  have hpos {k j : Nat} {post : List Insn} (hj : j < 10)
      (hcode : ((Block.mk (some x) own).code a l.ret).drop k = .label (freshLabel base j) :: post)
      (hpost : Above base (j + 1) post) :
      labelPosition (freshLabel base j) m'.code = some (l.start n + k) :=
    h.labelPosition_drop hfit hb rfl (.inr (hall hj)) hcode (hpost.not_mem (by omega))
  have hcall : x.site.resume ∉ labelsIn (x.fromCall a l.ret own) := by
    intro hmem
    obtain ⟨j, -, hj, heq⟩ := above_fromCall hlabels hown _ hmem
    rw [heq] at hresume
    exact hresume (hall hj)
  have hrestore := (Straight.restoreCode x.site.unpatchable x.frame x.shape).labelsIn
  unfold Around.fromResume at h0 h1
  unfold Around.fromCall at h2
  unfold Around.fromInvoke at h3
  unfold Around.fromAfter at h5
  unfold Around.fromNoYield at h6
  have h4' : (Block.code a l.ret ⟨some x, own⟩).drop (x.ownAt + 1) =
      .label x.labels.invokeEnd :: x.fromRethrow a l.ret := by
    have h4' := drop_add_length [.label x.labels.invoke, own]
      (.label x.labels.invokeEnd :: x.fromRethrow a l.ret) h3
    rw [← h4']
    congr 1
    unfold Around.ownAt
    show _ = _ + 2
    omega
  refine ⟨?_, ?_, ?_, ?_, ?_, ?_, ?_, ?_, ?_, ?_, ?_⟩
  · rw [hlabels] at h0 ⊢
    refine h.labelPosition_drop hfit hb rfl (.inr (hall (k := 0) (by omega))) h0 ?_
    rw [labelsIn_jump, labelsIn_label, labelsIn_append, hrestore, List.nil_append, List.mem_cons,
      not_or]
    exact ⟨fun heq => hresume (heq ▸ hall (k := 0) (by omega)),
      (above_fromCall hlabels hown).not_mem (by omega)⟩
  · refine h.labelPosition_drop hfit hb rfl (.inl rfl) h1 ?_
    rw [labelsIn_append, hrestore, List.nil_append]
    exact hcall
  · rw [hlabels] at h2 ⊢
    refine hpos (j := 1) (by omega) h2 (.append (fun lab hlab => ?_)
      ((above_fromInvoke hlabels hown).mono (by omega)))
    have hl := labelsIn_staging x lab hlab
    rw [hlabels] at hl
    exact ⟨2, by omega, by omega, hl⟩
  · intro hu
    have hstaging : x.staging = ([Intrinsic.exists.call, .branch .eq x.labels.staged,
        Intrinsic.beginStaging.call] ++ x.shape.window.reverse.flatMap stageValue ++
        unstageFrom [] x.shape.window) ++ [.label x.labels.staged] := by
      unfold Around.staging
      rw [if_pos hu]
      rfl
    have hdrop := drop_add_length (.label x.labels.call :: ([Intrinsic.exists.call,
        .branch .eq x.labels.staged, Intrinsic.beginStaging.call] ++
        x.shape.window.reverse.flatMap stageValue ++ unstageFrom [] x.shape.window))
      (.label x.labels.staged :: x.fromInvoke a l.ret own) (by
        rw [h2, hstaging, List.append_assoc, List.cons_append]
        rfl)
    have hlen := congrArg List.length hstaging
    rw [List.length_append, List.length_singleton] at hlen
    have hat : 3 + (restoreCode x.site.unpatchable x.frame x.shape).length +
        (.label x.labels.call :: ([Intrinsic.exists.call,
        .branch .eq x.labels.staged, Intrinsic.beginStaging.call] ++
        x.shape.window.reverse.flatMap stageValue ++ unstageFrom [] x.shape.window)).length =
        x.ownAt - 2 := by
      rw [List.length_cons]
      unfold Around.ownAt
      omega
    rw [hat] at hdrop
    rw [hlabels] at hdrop ⊢
    exact hpos (j := 2) (by omega) hdrop (above_fromInvoke hlabels hown)
  · rw [hlabels] at h3 ⊢
    exact hpos (j := 3) (by omega) h3 (.cons (.label (above_fromRethrow hlabels) (by omega)) hown)
  · rw [hlabels] at h4' ⊢
    exact hpos (j := 4) (by omega) h4' (above_fromRethrow hlabels)
  · intro hu
    have hrethrow : x.fromRethrow a l.ret = .jump x.labels.after :: .label x.labels.handler ::
        ([Intrinsic.exists.call, .branch .eq x.labels.rethrow, Intrinsic.endStaging.call,
          .label x.labels.rethrow, .throw] ++ x.fromAfter a l.ret) := by
      unfold Around.fromRethrow rethrowCode
      rw [if_pos hu]
      rfl
    have hdrop := drop_add_length [.jump x.labels.after] _ (h4.trans hrethrow)
    rw [hlabels] at hdrop ⊢
    refine hpos (j := 5) (by omega) hdrop (.cons (.cons (.cons (.label (.cons
      ((above_fromAfter hlabels).mono (by omega)) rfl) (by omega)) rfl) rfl) rfl)
  · intro hu
    have hrethrow : x.fromRethrow a l.ret = [.jump x.labels.after, .label x.labels.handler,
        Intrinsic.exists.call, .branch .eq x.labels.rethrow, Intrinsic.endStaging.call] ++
        (.label x.labels.rethrow :: .throw :: x.fromAfter a l.ret) := by
      unfold Around.fromRethrow rethrowCode
      rw [if_pos hu]
      rfl
    have hdrop := drop_add_length _ _ (h4.trans hrethrow)
    rw [hlabels] at hdrop ⊢
    exact hpos (j := 6) (by omega) hdrop (.cons (above_fromAfter hlabels) rfl)
  · rw [hlabels] at h5 ⊢
    exact hpos (j := 7) (by omega) h5 (.cons (.cons (.append
      (.of_labelsIn_eq_nil (Straight.saveCode _ _ _ _ _).labelsIn) (above_fromNoYield hlabels)) rfl) rfl)
  · rw [hlabels] at h6 ⊢
    refine hpos (j := 8) (by omega) h6 fun lab hlab => ?_
    rw [labelsIn_ending, List.mem_singleton, hlabels] at hlab
    exact ⟨9, by omega, by omega, hlab⟩
  · have hending : ∃ is, x.ending = is ++ [.label x.labels.post] := by
      unfold Around.ending
      split
      · exact ⟨[Intrinsic.exists.call, .branch .eq x.labels.post, Intrinsic.endStaging.call], rfl⟩
      · exact ⟨[], rfl⟩
    obtain ⟨is, his⟩ := hending
    have hdrop := drop_add_length (.label x.labels.noYield :: is)
      [.label x.labels.post] (by rw [h6, his]; rfl)
    have hat : x.noYieldAt a l.ret + (.label x.labels.noYield :: is).length =
        x.noYieldAt a l.ret + x.ending.length := by
      rw [his, List.length_append, List.length_cons]
      rfl
    rw [hat] at hdrop
    rw [hlabels] at hdrop ⊢
    exact hpos (j := 9) (by omega) hdrop fun lab hlab => absurd hlab (by simp [labelsIn_nil])

/-! ## the labels of the method and of the prologue -/

/-- the code in front of the place where nothing is saved for an activation -/
def entrance (l : Layout a m) : List Insn :=
  [Intrinsic.exists.call, .branch .eq l.labels.body, Intrinsic.popState.call, .dup,
    .branch .lt l.labels.noState] ++ dispatchCode l.sites l.labels ++
  (match l.labels.invalid with
    | some invalid => invalidCode a.method.text l.ret l.sites invalid
    | none => [])

theorem prologue_eq (l : Layout a m) :
    l.prologue = l.entrance ++ [.label l.labels.noState, .pop, .label l.labels.body] := rfl

theorem labelsIn_dispatchCode (sites : List Site) (p : PrologueLabels) :
    labelsIn (dispatchCode sites p) = [] := by
  unfold dispatchCode
  split <;> rfl

/-- the labels of the prologue have the first of the new numbers -/
theorem place_of_mem_entrance {lab : Label} (hlab : lab ∈ labelsIn l.entrance) :
    ∃ k < labelsBeforeSites l.sites, lab = l.fresh k ∧ k ≠ l.sites.length ∧
      k ≠ l.sites.length + 1 := by
  unfold entrance at hlab
  rw [labelsIn_append, labelsIn_append, labelsIn_dispatchCode, List.append_nil, List.mem_append]
    at hlab
  have hlabels : l.labels.invalid = if mayMisdispatch l.sites then
    some (l.fresh (l.sites.length + 2)) else none := rfl
  rcases hlab with hlab | hlab
  · exact absurd hlab (by
      rw [show labelsIn _ = [] from rfl]
      simp)
  · by_cases hmay : mayMisdispatch l.sites = true
    · rw [hlabels, if_pos hmay] at hlab
      have hbefore : labelsBeforeSites l.sites = l.sites.length + 3 := by
        unfold labelsBeforeSites
        rw [if_pos hmay]
      unfold invalidCode at hlab
      rw [labelsIn_append, labelsIn_append, (Straight.defaultReturn _).labelsIn, List.append_nil,
        labelsIn_label, List.cons_append, List.mem_cons, List.mem_append] at hlab
      rcases hlab with rfl | hlab | hlab
      · exact ⟨l.sites.length + 2, by omega, rfl, by omega, by omega⟩
      · rw [mem_labelsIn, List.mem_map] at hlab
        obtain ⟨s, hs, hl⟩ := hlab
        obtain ⟨hs, -⟩ := List.mem_filter.1 hs
        obtain ⟨_, _, _, _, _, hdescribes⟩ := sitesFrom_sound hs
        obtain ⟨hindex, -⟩ := index_lt_newLabels hs
        refine ⟨s.index, by omega, ?_, by omega, by omega⟩
        rw [← Insn.label.inj hl, hdescribes.resume]
        rfl
      · exact absurd hlab (by
          rw [show labelsIn _ = [] from rfl]
          simp)
    · rw [hlabels, if_neg hmay] at hlab
      exact absurd hlab (by simp [labelsIn_nil])

theorem place_of_mem_prologue {lab : Label} (hlab : lab ∈ labelsIn l.prologue) :
    ∃ k < labelsBeforeSites l.sites, lab = l.fresh k := by
  have hbefore := labelsBeforeSites_pos l.sites
  rw [prologue_eq, labelsIn_append, List.mem_append] at hlab
  rcases hlab with hlab | hlab
  · obtain ⟨k, hk, heq, -⟩ := place_of_mem_entrance hlab
    exact ⟨k, hk, heq⟩
  · rw [show labelsIn _ = [l.fresh (l.sites.length + 1), l.fresh l.sites.length] from rfl] at hlab
    rcases List.mem_cons.1 hlab with rfl | hlab
    · exact ⟨_, by omega, rfl⟩
    · exact ⟨_, by omega, List.mem_singleton.1 hlab⟩

/-- the labels of the prologue do not stand in the blocks -/
theorem Laid.fresh_not_mem_blocks (h : l.Laid m') (hfit : l.Fits) {k : Nat}
    (hlow : l.sites.length ≤ k) (hhigh : k < labelsBeforeSites l.sites) :
    l.fresh k ∉ labelsIn (l.blocks.flatMap (Block.code a l.ret)) := by
  intro hmem
  have hcount := h.wovenCount_le 0
  have hnew : newLabels l.sites = labelsBeforeSites l.sites +
      10 * l.sites.countP fun s => s.frame.isSome := rfl
  rcases h.place_of_mem_drop 0 hmem with hl | ⟨s, hs, -, -, hl⟩ | ⟨j, hj, hl⟩
  · exact hfit.fresh_not_mem (by omega) hl
  · obtain ⟨hindex, hsites⟩ := index_lt_newLabels hs
    have heq := hfit.fresh_inj (by omega) (by omega) hl
    omega
  · have heq := hfit.fresh_inj (by omega) (by omega) hl
    omega

/-- where an activation goes on that starts from the beginning -/
theorem Laid.labelPosition_body (h : l.Laid m') (hfit : l.Fits) :
    labelPosition l.labels.body m'.code = some (l.entrance.length + 2) := by
  have hbefore := labelsBeforeSites_pos l.sites
  have hcode : m'.code = (l.entrance ++ [.label l.labels.noState, .pop]) ++
      .label l.labels.body :: l.blocks.flatMap (Block.code a l.ret) := by
    rw [h.code_eq, code, prologue_eq]
    simp
  have hnot : l.labels.body ∉ labelsIn (l.blocks.flatMap (Block.code a l.ret)) :=
    h.fresh_not_mem_blocks hfit (Nat.le_refl _) (by omega)
  rw [hcode, labelPosition_last hnot, List.length_append]
  rfl

/-- where an activation goes on for which nothing is saved -/
theorem Laid.labelPosition_noState (h : l.Laid m') (hfit : l.Fits) :
    labelPosition l.labels.noState m'.code = some l.entrance.length := by
  have hbefore := labelsBeforeSites_pos l.sites
  have hnew : newLabels l.sites = labelsBeforeSites l.sites +
      10 * l.sites.countP fun s => s.frame.isSome := rfl
  have hcode : m'.code = l.entrance ++ .label l.labels.noState ::
      .pop :: .label l.labels.body :: l.blocks.flatMap (Block.code a l.ret) := by
    rw [h.code_eq, code, prologue_eq]
    simp
  rw [hcode, labelPosition_last]
  rw [show labelsIn (Insn.pop :: .label l.labels.body :: l.blocks.flatMap (Block.code a l.ret)) =
    l.labels.body :: labelsIn (l.blocks.flatMap (Block.code a l.ret)) from rfl, List.mem_cons, not_or]
  refine ⟨fun heq => ?_, h.fresh_not_mem_blocks hfit (by omega) (by omega)⟩
  have := hfit.fresh_inj (i := l.sites.length + 1) (j := l.sites.length) (by omega) (by omega) heq
  omega

theorem start_zero (l : Layout a m) : l.start 0 = l.entrance.length + 3 := by
  unfold start
  rw [prologue_eq, List.length_append]
  rfl

/-- among blocks whose injected labels are others, a label stands with its instruction -/
theorem labelPosition_blocks {ret : Option Kind} {bs : List Block} {lab : Label}
    (hinjected : ∀ b ∈ bs, ∀ x, b.around = some x → lab ∉ labelsIn (b.code a ret))
    (hown : ∀ b ∈ bs, ∀ x, b.around = some x → b.own.label? = none) :
    labelPosition lab (bs.flatMap (Block.code a ret)) =
      (labelPosition lab (bs.map Block.own)).map fun n =>
        ((bs.take n).flatMap (Block.code a ret)).length := by
  induction bs with
  | nil => rfl
  | cons b bs ih =>
    rw [List.flatMap_cons, labelPosition_append, List.map_cons, labelPosition,
      ih (fun b hb => hinjected b (List.mem_cons_of_mem _ hb))
        fun b hb => hown b (List.mem_cons_of_mem _ hb)]
    cases labelPosition lab (bs.map Block.own) with
    | some n =>
      dsimp only [Option.map_some]
      rw [List.take_succ_cons, List.flatMap_cons, List.length_append]
    | none =>
      dsimp only [Option.map_none]
      obtain ⟨around, own⟩ := b
      cases around with
      | none =>
        show labelPosition lab [own] = _
        rw [labelPosition, labelPosition_nil]
        dsimp only
        split <;> rfl
      | some x =>
        rw [labelPosition_eq_none (hinjected _ List.mem_cons_self x rfl),
          if_neg (by rw [hown _ List.mem_cons_self x rfl]; simp)]
        rfl

/-- **The labels of the method** stand in front of their instructions as before -/
theorem Laid.labelPosition_own (h : l.Laid m') (hfit : l.Fits) {lab : Label}
    (hlab : lab ∈ m.labels) :
    labelPosition lab m'.code = (labelPosition lab m.code).map l.start := by
  have hprologue : lab ∉ labelsIn l.prologue := by
    intro hmem
    obtain ⟨k, hk, rfl⟩ := place_of_mem_prologue hmem
    exact hfit.fresh_not_mem (by unfold newLabels; omega) hlab
  have hown : ∀ b ∈ l.blocks, ∀ x, b.around = some x → b.own.label? = none := by
    intro b hb x hx
    obtain ⟨n, hn⟩ := List.mem_iff_getElem?.1 hb
    obtain ⟨-, -, -, -, hinvoke⟩ := h.site_of_around hn hx
    rw [hinvoke]
    rfl
  have hinjected : ∀ b ∈ l.blocks, ∀ x, b.around = some x → lab ∉ labelsIn (b.code a l.ret) := by
    intro b hb x hx hmem
    obtain ⟨n, hn⟩ := List.mem_iff_getElem?.1 hb
    rcases Block.labelsIn_code hmem with hl | ⟨y, hy, hl⟩
    · rw [hown b hb x hx] at hl
      exact absurd hl (by simp)
    · obtain ⟨hs, -, -, hresume, -⟩ := h.site_of_around hn hy
      obtain ⟨hindex, hsites⟩ := index_lt_newLabels hs
      have hcount := h.wovenCount_le (n + 1)
      have hsplit := wovenCount_split hn
      rw [hy, Option.isSome_some, if_pos rfl] at hsplit
      have hnew : newLabels l.sites = labelsBeforeSites l.sites +
          10 * l.sites.countP fun s => s.frame.isSome := rfl
      rcases hl with rfl | hl
      · rw [hresume] at hlab
        exact hfit.fresh_not_mem (by omega) hlab
      · obtain ⟨k, hk, rfl⟩ := h.labels_place hn hy hl
        exact hfit.fresh_not_mem (by omega) hlab
  rw [h.code_eq, code, labelPosition_append, labelPosition_blocks hinjected hown, h.blocks.own,
    labelPosition_eq_none hprologue]
  cases labelPosition lab m.code with
  | none => rfl
  | some n => rfl

end Layout
end Resumable
