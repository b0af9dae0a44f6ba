import Resumable.Proofs.Clipping
import Resumable.Proofs.Passing

/-!
# Handlers of woven methods

What the method's own code throws is caught where it was caught before: clipping takes away no place
of the method, and the handlers of single calls protect nothing but their calls.  What such a call
throws is caught first by its own handler, and from where it is thrown again by the handler that the
call had before.

* `Layout.Laid.protects_iff` : a region of the method protects the same instructions as before;
* `Layout.Lays.findHandler_own`, `Layout.Lays.findHandler_rethrow` : the method's handlers;
* `Layout.Lays.findHandler_site` : the handler of a call.
-/

namespace Resumable

/-- the operands of the call are staged -/
def Block.stages (b : Block) : Bool :=
  match b.around with
  | none => false
  | some x => x.site.unpatchable

/-- regions and handlers are given by labels that stand in the code -/
def Method.TableDefined (m : Method) : Prop :=
  ∀ t ∈ m.tryCatches, Defines m.code t.start ∧ Defines m.code t.stop ∧ Defines m.code t.handler

namespace Layout

variable {a : Analysis} {m m' : Method} {l : Layout a m} {n k q : Nat} {b : Block} {x : Around}

/-! ## regions -/

theorem mem_labels_of_table {t : TryCatch} (ht : t ∈ m.tryCatches) :
    t.start ∈ m.labels ∧ t.stop ∈ m.labels ∧ t.handler ∈ m.labels := by
  have hmem {lab : Label} (hlab : lab ∈ [t.start, t.stop, t.handler]) : lab ∈ m.labels :=
    List.mem_append_left _ (List.mem_append_right _ (List.mem_flatMap.2 ⟨t, ht, hlab⟩))
  exact ⟨hmem (by simp), hmem (by simp), hmem (by simp)⟩

/-- **A region of the method** protects the blocks of the instructions that it protected -/
theorem Laid.protects_iff (h : l.Laid m') (hfit : l.Fits) {t : TryCatch} (ht : t ∈ m.tryCatches)
    (hq : l.Within n q) : t.Protects m'.code q ↔ t.Protects m.code n := by
  obtain ⟨hstart, hstop, -⟩ := mem_labels_of_table ht
  unfold TryCatch.Protects
  rw [h.labelPosition_own hfit hstart, h.labelPosition_own hfit hstop]
  constructor
  · rintro ⟨_, _, hs, he, h1, h2⟩
    obtain ⟨start, hstart, rfl⟩ := Option.map_eq_some_iff.1 hs
    obtain ⟨stop, hstop, rfl⟩ := Option.map_eq_some_iff.1 he
    exact ⟨start, stop, hstart, hstop, hq.le_iff.1 h1, hq.lt_iff.1 h2⟩
  · rintro ⟨start, stop, hs, he, h1, h2⟩
    exact ⟨_, _, Option.map_eq_some_iff.2 ⟨start, hs, rfl⟩, Option.map_eq_some_iff.2 ⟨stop, he, rfl⟩,
      hq.le_iff.2 h1, hq.lt_iff.2 h2⟩

/-- the excluded ranges are the injected code in front of a call and behind it -/
theorem Laid.excluded_ok (h : l.Laid m') (hfit : l.Fits) {excluded : List Region}
    (hex : l.exclusions.mapM (exclusionRegion m'.code) = .ok excluded) :
    ∀ ex ∈ excluded, ex.Ends (Marked m'.code) ∧ ∃ k b x, l.blocks[k]? = some b ∧
      b.around = some x ∧ (ex = ⟨l.start k, l.start k + (x.ownAt - 1)⟩ ∨
        ex = ⟨l.start k + x.afterAt, l.start k + (x.noYieldAt a l.ret + x.ending.length)⟩) := by
  intro ex hmem
  obtain ⟨e, he, hok⟩ := (Flow.mapM_ok hex).2 ex hmem
  obtain ⟨b, hb, he⟩ := List.mem_flatMap.1 he
  obtain ⟨k, hk⟩ := List.mem_iff_getElem?.1 hb
  unfold Block.exclusions at he
  split at he
  · exact absurd he (by simp)
  · rename_i x hx
    have hfound := h.found hfit hk hx
    have hposition {lab : Label} {n : Nat} (hlab : labelPosition lab m'.code = some n) :
        regionPosition m'.code lab = .ok n := by
      unfold regionPosition
      rw [hlab]
    unfold exclusionRegion at hok
    rcases List.mem_cons.1 he with rfl | he
    · rw [hposition hfound.pre, hposition hfound.invoke] at hok
      obtain rfl : (⟨_, _⟩ : Region) = ex := Except.ok.inj hok
      exact ⟨⟨⟨_, hfound.pre⟩, _, hfound.invoke⟩, k, b, x, hk, hx, .inl rfl⟩
    · obtain rfl := List.mem_singleton.1 he
      rw [hposition hfound.after, hposition hfound.post] at hok
      obtain rfl : (⟨_, _⟩ : Region) = ex := Except.ok.inj hok
      exact ⟨⟨⟨_, hfound.after⟩, _, hfound.post⟩, k, b, x, hk, hx, .inr rfl⟩

/-- the part of a block around its instruction that is not excluded -/
def Open (l : Layout a m) (n : Nat) (b : Block) (q : Nat) : Prop :=
  ∀ x, b.around = some x → l.start n + (x.ownAt - 1) ≤ q ∧ q < l.start n + x.afterAt

theorem Laid.outside (h : l.Laid m') (hfit : l.Fits) (hb : l.blocks[n]? = some b)
    (hq : l.Within n q) (hopen : l.Open n b q) {excluded : List Region}
    (hex : l.exclusions.mapM (exclusionRegion m'.code) = .ok excluded) : Outside excluded q := by
  intro ex hmem hhas
  obtain ⟨-, k, b', x, hk, hx, heq⟩ := h.excluded_ok hfit hex ex hmem
  obtain ⟨-, hnext⟩ := h.stand hk hx
  have hat : x.afterAt ≤ x.noYieldAt a l.ret ∧ x.ownAt + 2 ≤ x.afterAt := by
    unfold Around.noYieldAt Around.afterAt
    omega
  obtain ⟨h1, h2⟩ := hhas
  have hin : l.Within k q := by
    rcases heq with rfl | rfl <;> dsimp only at h1 h2 <;> exact ⟨by omega, by omega⟩
  obtain rfl := hq.inj hin
  obtain rfl : b' = b := Option.some.inj (hk.symm.trans hb)
  obtain ⟨h3, h4⟩ := hopen x hx
  rcases heq with rfl | rfl <;> dsimp only at h1 h2 <;> omega

/-- the handler of a call protects the call -/
theorem Laid.siteHandler (h : l.Laid m') (hfit : l.Fits) {e : TryCatch} (he : e ∈ l.handlers) :
    ∃ k b x, l.blocks[k]? = some b ∧ b.around = some x ∧ x.site.unpatchable = true ∧
      (Defines m'.code e.start ∧ Defines m'.code e.stop) ∧ e.catchType = none ∧
      (∀ q, e.Protects m'.code q ↔
        l.start k + (x.ownAt - 1) ≤ q ∧ q < l.start k + (x.ownAt + 1)) ∧
      labelPosition e.handler m'.code = some (l.start k + (x.ownAt + 3)) := by
  obtain ⟨b, hb, he⟩ := List.mem_flatMap.1 he
  obtain ⟨k, hk⟩ := List.mem_iff_getElem?.1 hb
  unfold Block.handlers at he
  split at he
  · exact absurd he (by simp)
  · rename_i x hx
    have hfound := h.found hfit hk hx
    unfold siteHandlers at he
    split at he
    · rename_i hu
      obtain rfl := List.mem_singleton.1 he
      refine ⟨k, b, x, hk, hx, hu, ⟨⟨_, hfound.invoke⟩, _, hfound.invokeEnd⟩, rfl, fun q => ?_,
        hfound.handler hu⟩
      unfold TryCatch.Protects
      rw [hfound.invoke, hfound.invokeEnd]
      constructor
      · rintro ⟨_, _, hs, he, hq⟩
        obtain rfl := Option.some.inj hs
        obtain rfl := Option.some.inj he
        exact hq
      · exact fun hq => ⟨_, _, rfl, rfl, hq⟩
    · exact absurd he (by simp)

/-! ## what is found -/

section
variable {pr pr' : Program} {type : String}

/-- the method's handlers, at a place that no call has a handler for -/
theorem Lays.findHandler_open (h : l.Lays m') (hfit : l.Fits) (htable : m.TableDefined)
    (hpr : ∀ a b, pr'.isAssignable a b = pr.isAssignable a b) (hb : l.blocks[n]? = some b)
    (hq : l.Within n q) (hopen : l.Open n b q) (hoccupied : Occupied m'.code q)
    (hsite : ∀ x, b.around = some x → x.site.unpatchable = true → l.start n + (x.ownAt + 1) ≤ q) :
    findHandler pr' m'.code q type m'.tryCatches =
      (findHandler pr m.code n type m.tryCatches).map (Option.map l.start) := by
  obtain ⟨table, htab, heq⟩ := h.table
  rw [← h.code_eq] at htab
  unfold splitRegions at htab
  obtain ⟨excluded, hex, htab⟩ := Effect.bind_eq_ok htab
  have hcatches : m'.tryCatches = l.handlers ++ table := by rw [heq]
  rw [hcatches, findHandler_entries_miss]
  · refine findHandler_split hpr htab (fun ex hmem => (h.excluded_ok hfit hex ex hmem).1)
      ⟨hoccupied, h.outside hfit hb hq hopen hex, fun t ht => ?_, fun t ht => ?_,
        fun t ht => h.protects_iff hfit ht hq⟩
    · exact ⟨(htable t ht).1, (htable t ht).2.1⟩
    · obtain ⟨-, -, n, hn⟩ := htable t ht
      refine ⟨n, hn, ?_⟩
      rw [h.labelPosition_own hfit (mem_labels_of_table ht).2.2, hn]
      rfl
  · intro e he
    obtain ⟨k, b, x, -, -, -, hdefined, -⟩ := h.siteHandler hfit he
    exact hdefined
  · rintro e he ⟨hprotects, -⟩
    obtain ⟨k, b', x, hk, hx, hu, -, -, hiff, -⟩ := h.siteHandler hfit he
    obtain ⟨h1, h2⟩ := (hiff q).1 hprotects
    obtain ⟨-, hnext⟩ := h.stand hk hx
    have hat : x.afterAt ≤ x.noYieldAt a l.ret ∧ x.ownAt + 2 ≤ x.afterAt := by
      unfold Around.noYieldAt Around.afterAt
      omega
    have hin : l.Within k q := ⟨by omega, by omega⟩
    obtain rfl := hq.inj hin
    obtain rfl : b' = b := Option.some.inj (hk.symm.trans hb)
    have := hsite x hx hu
    omega

/-- **What the method's own code throws** is caught where it was -/
theorem Lays.findHandler_own (h : l.Lays m') (hfit : l.Fits) (htable : m.TableDefined)
    (hpr : ∀ a b, pr'.isAssignable a b = pr.isAssignable a b) (hb : l.blocks[n]? = some b)
    (hown : b.own.isLabel = false) (hstages : b.stages = false) :
    findHandler pr' m'.code (l.start n + b.ownAt) type m'.tryCatches =
      (findHandler pr m.code n type m.tryCatches).map (Option.map l.start) := by
  obtain ⟨hcode, hin⟩ := h.holds_own hb
  refine h.findHandler_open hfit htable hpr hb hin (fun x hx => ?_) ⟨_, hcode, hown⟩
    fun x hx hu => ?_
  · have hat : b.ownAt = x.ownAt := by
      unfold Block.ownAt
      rw [hx]
    have : x.ownAt + 2 ≤ x.afterAt := by
      unfold Around.afterAt
      omega
    omega
  · unfold Block.stages at hstages
    rw [hx] at hstages
    exact absurd (hu.symm.trans hstages) (by simp)

/-- **What a call has thrown** is caught, when it is thrown again, where it was before -/
theorem Lays.findHandler_rethrow (h : l.Lays m') (hfit : l.Fits) (htable : m.TableDefined)
    (hpr : ∀ a b, pr'.isAssignable a b = pr.isAssignable a b) (hb : l.blocks[n]? = some b)
    (hx : b.around = some x) (hu : x.site.unpatchable = true) :
    findHandler pr' m'.code (l.start n + (x.ownAt + 8)) type m'.tryCatches =
      (findHandler pr m.code n type m.tryCatches).map (Option.map l.start) := by
  obtain ⟨hstand, hnext⟩ := h.stand hb hx
  have hlen : x.afterAt = x.ownAt + 9 := by
    unfold Around.afterAt rethrowCode
    rw [if_pos hu]
    rfl
  have hno : x.afterAt ≤ x.noYieldAt a l.ret := by
    unfold Around.noYieldAt
    omega
  have hrethrow := hstand.rethrow
  unfold Around.fromRethrow rethrowCode at hrethrow
  rw [if_pos hu] at hrethrow
  have hcode : m'.code[l.start n + (x.ownAt + 8)]? = some .throw := by
    have hi := hrethrow.left.getElem?_add (k := 6) (by simp [endStagingCode])
    rw [← Nat.add_assoc] at hi ⊢
    exact hi
  refine h.findHandler_open hfit htable hpr hb ⟨by omega, by omega⟩ (fun y hy => ?_)
    ⟨_, hcode, rfl⟩ fun y hy _ => ?_
  · obtain rfl : y = x := Option.some.inj (hy.symm.trans hx)
    omega
  · obtain rfl : y = x := Option.some.inj (hy.symm.trans hx)
    omega

/-- **The handler of a call** whose callee is not woven comes first -/
theorem Lays.findHandler_site (h : l.Lays m') (hfit : l.Fits) (hb : l.blocks[n]? = some b)
    (hx : b.around = some x) (hu : x.site.unpatchable = true) :
    findHandler pr' m'.code (l.start n + x.ownAt) type m'.tryCatches =
      .ok (some (l.start n + (x.ownAt + 3))) := by
  obtain ⟨table, -, heq⟩ := h.table
  have hcatches : m'.tryCatches = l.handlers ++ table := by rw [heq]
  have hfound := h.found hfit hb hx
  have hat : 5 ≤ x.ownAt := by
    unfold Around.ownAt
    omega
  rw [hcatches]
  refine findHandler_entries_hit (fun e he => ?_) (fun e he hprotects => ?_)
    ⟨⟨x.labels.invoke, x.labels.invokeEnd, x.labels.handler, none⟩, ?_, ?_, rfl⟩
  · obtain ⟨k, b, x, -, -, -, hdefined, -⟩ := h.siteHandler hfit he
    exact hdefined
  · obtain ⟨k, b', y, hk, hy, -, -, -, hiff, hhandler⟩ := h.siteHandler hfit he
    obtain ⟨h1, h2⟩ := (hiff _).1 hprotects
    obtain ⟨-, hnext⟩ := h.stand hk hy
    obtain ⟨-, hnext'⟩ := h.stand hb hx
    have hlen (z : Around) : z.afterAt ≤ z.noYieldAt a l.ret ∧ z.ownAt + 2 ≤ z.afterAt := by
      unfold Around.noYieldAt Around.afterAt
      omega
    have hz := hlen y
    have hz' := hlen x
    have hin : l.Within k (l.start n + x.ownAt) := ⟨by omega, by omega⟩
    have hin' : l.Within n (l.start n + x.ownAt) := ⟨by omega, by omega⟩
    obtain rfl := hin.inj hin'
    obtain rfl : b' = b := Option.some.inj (hk.symm.trans hb)
    obtain rfl : y = x := Option.some.inj (hy.symm.trans hx)
    exact hhandler
  · refine List.mem_flatMap.2 ⟨b, List.mem_of_getElem? hb, ?_⟩
    unfold Block.handlers siteHandlers
    rw [hx]
    simp [hu]
  · exact ⟨_, _, hfound.invoke, hfound.invokeEnd, by omega, by omega⟩

end

end Layout
end Resumable
