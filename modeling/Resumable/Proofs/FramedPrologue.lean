import Resumable.Proofs.FramedBlocks

/-!
# The frames of the prologue

The prologue works on the frame at the start of the method, with the number of a site on top of it until
the site is found.  A number without a reachable site leads to labels that stand together, where a default
value is returned.

* `Layout.framedPrologue` : the prologue with its frames;
* `Layout.lostLabels`, `Layout.Laid.labelPosition_lost` : where numbers without a reachable site lead;
* `Layout.flows_framedPrologue` : the prologue flows.
-/

namespace Resumable

/-- labels that stand one after another are found where they stand -/
theorem labelPosition_labels {code pre post : List Insn} {ls : List Label} {lab : Label} {j : Nat}
    (hcode : code = pre ++ (ls.map Insn.label ++ post)) (hnodup : ls.Nodup)
    (hj : ls[j]? = some lab) (hpost : lab ∉ labelsIn post) :
    labelPosition lab code = some (pre.length + j) := by
  obtain ⟨hlt, rfl⟩ := List.getElem?_eq_some_iff.1 hj
  have hsplit : ls = ls.take j ++ ls[j] :: ls.drop (j + 1) := by
    rw [← List.drop_eq_getElem_cons hlt, List.take_append_drop]
  have hrest : ls[j] ∉ ls.drop (j + 1) := by
    rw [hsplit] at hnodup
    exact (List.nodup_cons.1 (List.nodup_append.1 hnodup).2.1).1
  have hall : code = (pre ++ (ls.take j).map Insn.label) ++
      .label ls[j] :: ((ls.drop (j + 1)).map Insn.label ++ post) := by
    have hmap : ls.map Insn.label =
        (ls.take j).map Insn.label ++ .label ls[j] :: (ls.drop (j + 1)).map Insn.label := by
      rw [← List.map_cons, ← List.map_append, ← hsplit]
    rw [hcode, hmap]
    simp only [List.append_assoc, List.cons_append]
  have hlabels : labelsIn ((ls.drop (j + 1)).map Insn.label) = ls.drop (j + 1) := by
    unfold labelsIn
    rw [List.filterMap_map, show Insn.label? ∘ Insn.label = some from rfl, List.filterMap_some]
  rw [hall, labelPosition_last]
  · rw [List.length_append, List.length_map, List.length_take, Nat.min_eq_left (Nat.le_of_lt hlt)]
  · rw [labelsIn_append, List.mem_append, not_or, hlabels]
    exact ⟨hrest, hpost⟩

namespace Frame

theorem Runs.labels (f : Frame) (ls : List Label) : f.Runs (ls.map Insn.label) f := by
  induction ls with
  | nil => exact .nil f
  | cons lab ls ih => exact .cons rfl rfl ih

/-- labels that stand one after another have one frame -/
theorem getElem?_through_labels {f : Frame} {ls : List Label} {lab : Label} {j : Nat}
    (hj : ls[j]? = some lab) (is : List Insn) :
    (f.through (ls.map Insn.label ++ is))[j]? = some (some f, .label lab) := by
  induction ls generalizing j with
  | nil => exact absurd hj (by simp)
  | cons l ls ih =>
    cases j with
    | zero =>
      obtain rfl : l = lab := by simpa using hj
      rfl
    | succ j => exact ih hj

end Frame

namespace Layout

section
variable {a : Analysis} {m m' : Method} (l : Layout a m) (entry : Frame)

/-- labels that a number without a reachable site leads to -/
def lostLabels : List Label :=
  l.labels.invalid.elim [] fun invalid =>
    invalid :: (l.sites.filter fun s => s.frame.isNone).map Site.resume

/-- what is done there -/
def lostCode : List Insn :=
  l.labels.invalid.elim [] fun _ =>
    [.stringConst a.method.text, Intrinsic.invalidDispatch.call] ++ defaultReturn l.ret

/-- the prologue with its frames -/
def framedPrologue : FramedCode :=
  entry.through [Intrinsic.exists.call, .branch .eq l.labels.body, Intrinsic.popState.call, .dup,
    .branch .lt l.labels.noState] ++
  ((entry.push .int).through (dispatchCode l.sites l.labels) ++
  (entry.through (l.lostLabels.map Insn.label ++ l.lostCode) ++
  ((entry.push .int).through [.label l.labels.noState, .pop] ++
  entry.through [.label l.labels.body])))

theorem entrance_eq : l.entrance = [Intrinsic.exists.call, .branch .eq l.labels.body,
    Intrinsic.popState.call, .dup, .branch .lt l.labels.noState] ++
    (dispatchCode l.sites l.labels ++ (l.lostLabels.map Insn.label ++ l.lostCode)) := by
  unfold entrance lostLabels lostCode
  cases l.labels.invalid with
  | none => rfl
  | some invalid =>
    unfold invalidCode
    simp [Function.comp_def]

theorem map_snd_framedPrologue : (l.framedPrologue entry).map Prod.snd = l.prologue := by
  unfold framedPrologue
  rw [prologue_eq, entrance_eq]
  simp only [List.map_append, Frame.map_snd_through, List.append_assoc, List.cons_append,
    List.nil_append]

/-- the frames at the labels of the prologue -/
theorem framedPrologue_labels :
    (∀ lab j, l.lostLabels[j]? = some lab → (l.framedPrologue entry)[
      5 + (dispatchCode l.sites l.labels).length + j]? = some (some entry, .label lab)) ∧
    (l.framedPrologue entry)[l.entrance.length]? =
      some (some (entry.push .int), .label l.labels.noState) ∧
    (l.framedPrologue entry)[l.entrance.length + 2]? = some (some entry, .label l.labels.body) := by
  have hdispatch : (l.framedPrologue entry).drop 5 =
      (entry.push .int).through (dispatchCode l.sites l.labels) ++
        (entry.through (l.lostLabels.map Insn.label ++ l.lostCode) ++
          ((entry.push .int).through [.label l.labels.noState, .pop] ++
            entry.through [.label l.labels.body])) := rfl
  have hlost := drop_add_length _ _ hdispatch
  have hnoState := drop_add_length _ _ hlost
  have hlength := congrArg List.length (entrance_eq l)
  simp only [List.length_append, List.length_cons, List.length_nil] at hlength
  simp only [Frame.length_through, List.length_append] at hlost hnoState
  have hend : (l.framedPrologue entry).drop l.entrance.length =
      (entry.push .int).through [.label l.labels.noState, .pop] ++
        entry.through [.label l.labels.body] := by
    rw [show l.entrance.length = 5 + (dispatchCode l.sites l.labels).length +
      ((l.lostLabels.map Insn.label).length + l.lostCode.length) by omega]
    exact hnoState
  refine ⟨fun lab j hj => ?_, Around.getElem?_of_drop hend, ?_⟩
  · have hat := Frame.getElem?_through_labels (f := entry) hj l.lostCode
    have hlt := (List.getElem?_eq_some_iff.1 hat).1
    rw [← List.getElem?_drop, hlost, List.getElem?_append_left hlt]
    exact hat
  · rw [← List.getElem?_drop, hend]
    rfl

end

/-! ## lost sites -/

section
variable {a : Analysis} {m m' : Method} {l : Layout a m}

theorem mem_lostLabels {lab : Label} (h : lab ∈ l.lostLabels) :
    lab = l.fresh (l.sites.length + 2) ∧ mayMisdispatch l.sites = true ∨
      ∃ s ∈ l.sites, s.frame = none ∧ lab = l.fresh s.index := by
  have hlabels : l.labels.invalid = if mayMisdispatch l.sites then
    some (l.fresh (l.sites.length + 2)) else none := rfl
  unfold lostLabels at h
  rw [hlabels] at h
  by_cases hmay : mayMisdispatch l.sites = true
  · rw [if_pos hmay] at h
    rcases List.mem_cons.1 h with rfl | h
    · exact .inl ⟨rfl, hmay⟩
    · obtain ⟨s, hs, rfl⟩ := List.mem_map.1 h
      obtain ⟨hs, hnone⟩ := List.mem_filter.1 hs
      obtain ⟨_, _, _, _, _, hdescribes⟩ := sitesFrom_sound hs
      exact .inr ⟨s, hs, Option.isNone_iff_eq_none.1 hnone, hdescribes.resume⟩
  · rw [if_neg hmay] at h
    exact absurd h (by simp)

theorem nodup_lostLabels (hcount : newLabels l.sites ≤ 2 ^ 32) : l.lostLabels.Nodup := by
  have hlabels : l.labels.invalid = if mayMisdispatch l.sites then
    some (l.fresh (l.sites.length + 2)) else none := rfl
  unfold lostLabels
  rw [hlabels]
  by_cases hmay : mayMisdispatch l.sites = true
  · rw [if_pos hmay]
    have hbefore : l.sites.length + 3 ≤ newLabels l.sites := by
      unfold newLabels labelsBeforeSites
      rw [if_pos hmay]
      omega
    have hresume {s : Site} (hs : s ∈ l.sites) : s.resume = l.fresh s.index := by
      obtain ⟨_, _, _, _, _, hdescribes⟩ := sitesFrom_sound hs
      exact hdescribes.resume
    refine List.nodup_cons.2 ⟨fun hmem => ?_, ?_⟩
    · obtain ⟨s, hs, heq⟩ := List.mem_map.1 hmem
      obtain ⟨hs, -⟩ := List.mem_filter.1 hs
      obtain ⟨hindex, -⟩ := index_lt_newLabels hs
      rw [hresume hs] at heq
      have := l.fresh_inj hcount (by omega) (by omega) heq
      omega
    · refine List.pairwise_map.2 (List.Pairwise.imp_of_mem (fun {s t} hs ht hst heq => ?_)
        (sitesFrom_pairwise.filter _))
      obtain ⟨hs, -⟩ := List.mem_filter.1 hs
      obtain ⟨ht, -⟩ := List.mem_filter.1 ht
      obtain ⟨hs', -⟩ := index_lt_newLabels (l := l) hs
      obtain ⟨ht', -⟩ := index_lt_newLabels (l := l) ht
      rw [hresume hs, hresume ht] at heq
      have := l.fresh_inj hcount (by omega) (by omega) heq
      omega
  · rw [if_neg hmay]
    exact .nil

/-- where a site that nothing reaches is entered again stands no block -/
theorem Laid.lost_not_mem_blocks (h : l.Laid m') (hfit : l.Fits) {lab : Label}
    (hlab : lab ∈ l.lostLabels) :
    lab ∉ labelsIn (l.blocks.flatMap (Block.code a l.ret)) := by
  rcases mem_lostLabels hlab with ⟨rfl, hmay⟩ | ⟨s, hs, hnone, rfl⟩
  · refine h.fresh_not_mem_blocks hfit (by omega) ?_
    unfold labelsBeforeSites
    rw [if_pos hmay]
    omega
  · intro hmem
    have hcount := h.wovenCount_le 0
    have hnew : newLabels l.sites = labelsBeforeSites l.sites +
        10 * l.sites.countP fun s => s.frame.isSome := rfl
    have hbefore := labelsBeforeSites_pos l.sites
    obtain ⟨hindex, -⟩ := index_lt_newLabels hs
    rcases h.place_of_mem_drop 0 hmem with hl | ⟨t, ht, -, hf, hl⟩ | ⟨j, hj, hl⟩
    · exact hfit.fresh_not_mem (by omega) hl
    · obtain ⟨hindex', -⟩ := index_lt_newLabels ht
      have heq := hfit.fresh_inj (by omega) (by omega) hl
      obtain rfl := eq_of_index sitesFrom_pairwise hs ht heq
      rw [hnone] at hf
      exact absurd hf (by simp)
    · have heq := hfit.fresh_inj (by omega) (by omega) hl
      omega

/-- **Lost labels** are found where they stand -/
theorem Laid.labelPosition_lost (h : l.Laid m') (hfit : l.Fits) {lab : Label} {j : Nat}
    (hj : l.lostLabels[j]? = some lab) :
    labelPosition lab m'.code = some (5 + (dispatchCode l.sites l.labels).length + j) := by
  have hmem := List.mem_of_getElem? hj
  have hcode : m'.code = ([Intrinsic.exists.call, .branch .eq l.labels.body,
      Intrinsic.popState.call, .dup, .branch .lt l.labels.noState] ++
      dispatchCode l.sites l.labels) ++ (l.lostLabels.map Insn.label ++ (l.lostCode ++
        ([.label l.labels.noState, .pop, .label l.labels.body] ++
          l.blocks.flatMap (Block.code a l.ret)))) := by
    rw [h.code_eq, code, prologue_eq, entrance_eq]
    simp only [List.append_assoc]
  have hlost : labelsIn l.lostCode = [] := by
    unfold lostCode
    cases l.labels.invalid with
    | none => rfl
    | some _ => exact (Straight.defaultReturn l.ret).labelsIn
  rw [labelPosition_labels hcode (nodup_lostLabels hfit.count) hj, List.length_append]
  · rfl
  · rw [labelsIn_append, labelsIn_append, hlost, List.nil_append, List.mem_append, not_or]
    refine ⟨fun hnew => ?_, h.lost_not_mem_blocks hfit hmem⟩
    obtain ⟨hindex, hsites⟩ : (∀ s ∈ l.sites, s.index < l.sites.length) ∧
        l.sites.length + 2 ≤ newLabels l.sites := by
      have hbefore := labelsBeforeSites_pos l.sites
      refine ⟨fun s hs => (index_lt_newLabels hs).1, ?_⟩
      unfold newLabels
      omega
    -- the two labels behind have numbers of their own
    have hother {k : Nat} (hk : k < newLabels l.sites) (hlab : lab = l.fresh k)
        (hbody : k ≠ l.sites.length) (hnoState : k ≠ l.sites.length + 1) : False := by
      rw [show labelsIn _ = [l.fresh (l.sites.length + 1), l.fresh l.sites.length] from rfl, hlab]
        at hnew
      rcases List.mem_cons.1 hnew with heq | hnew
      · exact hnoState (hfit.fresh_inj hk (by omega) heq)
      · exact hbody (hfit.fresh_inj hk (by omega) (List.mem_singleton.1 hnew))
    rcases mem_lostLabels hmem with ⟨hlab, hmay⟩ | ⟨s, hs, -, hlab⟩
    · refine hother ?_ hlab (by omega) (by omega)
      unfold newLabels labelsBeforeSites
      rw [if_pos hmay]
      omega
    · have := hindex s hs
      exact hother (by omega) hlab (by omega) (by omega)

/-! ## the prologue flows -/

/-- the labels that the prologue leads to are reached with the frames that stand there -/
structure PrologueAccepted (l : Layout a m) (entry : Frame) (accepts : Label → Frame → Prop) :
    Prop where
  body : accepts l.labels.body entry
  noState : accepts l.labels.noState (entry.push .int)
  invalid : ∀ invalid, l.labels.invalid = some invalid → accepts invalid entry
  resume : ∀ s ∈ l.sites, accepts s.resume entry

open FramedCode

variable {entry : Frame} {p : Program} {accepts : Label → Frame → Prop} {next : Frame → Prop}

theorem flows_dispatchCode (hl : l.PrologueAccepted entry accepts) :
    Flows p accepts next ((entry.push .int).through (dispatchCode l.sites l.labels)) := by
  have hstop {i : Insn} {f : Frame} (hi : i.fallsThrough = false) :
      ([] : List Insn) = [] → i.fallsThrough = true → next f :=
    fun _ h => absurd h (by simp [hi])
  unfold dispatchCode
  split
  · rename_i only hsites
    refine .step (g := entry) (Frame.apply_pop_push rfl) (Around.no_targets rfl) (by simp)
      (.step (g := entry) rfl (fun lab hlab => ?_) (hstop rfl) trivial)
    rw [List.mem_singleton.1 hlab]
    exact hl.resume only (by rw [hsites]; exact List.mem_singleton_self _)
  · rename_i hinvalid _
    refine .step (g := entry) rfl (fun lab hlab => ?_) (hstop rfl) trivial
    rcases List.mem_cons.1 hlab with rfl | hlab
    · exact hl.invalid _ hinvalid
    · obtain ⟨s, hs, rfl⟩ := List.mem_map.1 hlab
      exact hl.resume s hs
  · refine .step (g := entry.push .int) rfl (fun lab hlab => ?_) (hstop rfl) trivial
    rw [List.mem_singleton.1 hlab]
    exact hl.noState

theorem flows_lost (l : Layout a m) (entry : Frame) :
    Flows p accepts next (entry.through (l.lostLabels.map Insn.label ++ l.lostCode)) := by
  unfold lostLabels lostCode
  cases l.labels.invalid with
  | none => trivial
  | some _ =>
    have hreport : entry.Runs [.stringConst a.method.text, Intrinsic.invalidDispatch.call] entry :=
      .cons rfl rfl (.one rfl rfl)
    have hreturn : defaultReturn l.ret ≠ [] := by cases l.ret <;> simp [defaultReturn]
    exact .straight (.labels entry _) (by simp) (.straight hreport
      (fun hnil => absurd hnil hreturn) (Around.flows_defaultReturn entry _))

/-- **The prologue flows** to the first block -/
theorem flows_framedPrologue (hl : l.PrologueAccepted entry accepts) (hnext : next entry) :
    Flows p accepts next (l.framedPrologue entry) := by
  unfold framedPrologue
  have hbranch {c : Cond} {lab : Label} {f : Frame} (hlab : accepts lab f) :
      ∀ lab' ∈ (Insn.branch c lab).targets, accepts lab' f := by
    intro lab' hlab'
    rw [List.mem_singleton.1 hlab']
    exact hlab
  refine .append ?_ (.append (flows_dispatchCode hl) (.append (flows_lost l entry)
    (.append ?_ (Around.flows_label hnext))))
  · refine .step (g := entry.push .int) rfl (Around.no_targets rfl) (by simp) ?_
    refine .step (g := entry) rfl (hbranch hl.body) (by simp) ?_
    refine .step (g := entry.push .int) rfl (Around.no_targets rfl) (by simp) ?_
    refine .step (g := (entry.push .int).push .int) rfl (Around.no_targets rfl) (by simp) ?_
    refine .step (g := entry.push .int) rfl (hbranch hl.noState) (fun _ _ => ?_) trivial
    rw [enters_append]
    refine enters_through fun hnil => ?_
    exact absurd hnil (by unfold dispatchCode; split <;> simp)
  · refine .step (g := entry.push .int) rfl (Around.no_targets rfl) (by simp) ?_
    exact .step (g := entry) (Frame.apply_pop_push rfl) (Around.no_targets rfl)
      (fun _ _ => enters_through (by simp)) trivial

end

end Layout
end Resumable
