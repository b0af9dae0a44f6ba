import Mathlib.Algebra.Group.Nat.Defs
import Resumable.Proofs.Saving

/-!
# Staging

The operands of a call into code that is not woven are copied into a staging frame before the call.
They are moved aside from the top down and pushed back from the bottom up, each one found by its
depth among the staged values of its kind.  Afterwards the frame is dropped, or it is moved into
storage, from where the operands come back as they were.

* `Coroutine.opening` : a coroutine with one more staging frame;
* `Takes.stageCode` : the operands end up where they were, and in a new frame;
* `DepthsFit` : no operand lies deeper than a depth can say;
* `Coroutine.endStaging_opening`, `Coroutine.commitStaging_opening` : the two ends of a frame.
-/

namespace Resumable

/-! ## small numbers -/

theorem toNat_toInt_ofNat {n : Nat} (h : n < 2 ^ 31) : (Int32.ofNat n).toInt.toNat = n := by
  have hmod : (n : Int).bmod Int32.size = n := by
    unfold Int32.size
    apply Int.bmod_eq_of_le <;> omega
  rw [Int32.toInt_ofNat', hmod, Int.toNat_natCast]

theorem not_ofNat_neg {n : Nat} (h : n < 2 ^ 31) : ¬ Int32.ofNat n < 0 := by
  have hmod : (n : Int).bmod Int32.size = n := by
    unfold Int32.size
    apply Int.bmod_eq_of_le <;> omega
  rw [Int32.lt_iff_toInt_lt, Int32.toInt_ofNat', hmod]
  simp

/-! ## frames of staged values -/

namespace Coroutine

variable {β κ : Type}

/-- the coroutine with a new staging frame that holds the values -/
def opening (c : Coroutine β κ) (vs : List Value) : Coroutine β κ :=
  { c with floors := c.staging.depths :: c.floors, staging := c.staging.putAll vs }

theorem stage_opening {c : Coroutine β κ} {vs : List Value} {v : Value} {k : Kind}
    (hv : v.kind? = some k) : (c.opening vs).stage v = (.ok (), c.opening (vs ++ [v])) := by
  simp only [stage, opening, Storage.push?_eq_put hv, Storage.putAll_concat]

/-- the staged values of a kind are found from the top of the frame -/
theorem peekStaged_opening {c : Coroutine β κ} {vs : List Value} {v : Value} {k : Kind} {n : Nat}
    (h : (vs.filter fun v => v.kind? = some k).reverse[n]? = some v) :
    (c.opening vs).peekStaged k n = (.ok v, c.opening vs) := by
  have hstack : (((c.staging.putAll vs).above c.staging.depths).stack k)[n]? = some v := by
    rw [Storage.above_putAll, Storage.stack_putAll, Storage.stack_empty, List.append_nil, h]
  simp only [peekStaged, opening, hstack]

/-- a frame that is dropped leaves nothing behind -/
theorem endStaging_opening (c : Coroutine β κ) (vs : List Value) :
    (c.opening vs).endStaging = (.ok (), c) := by
  show (Except.ok (), { c with staging := (c.staging.putAll vs).below c.staging.depths }) = _
  rw [Storage.below_putAll]

/-- a frame that is committed leaves its values on top of the storage -/
theorem commitStaging_opening (c : Coroutine β κ) (vs : List Value) :
    (c.opening vs).commitStaging = (.ok (), c.stores (c.storage.putAll vs) false) := by
  show (Except.ok (), { c with
    storage := ((c.staging.putAll vs).above c.staging.depths).append c.storage
    staging := (c.staging.putAll vs).below c.staging.depths
    companionOnTop := false }) = _
  rw [Storage.above_putAll, Storage.below_putAll, ← Storage.putAll_eq_append]
  rfl

end Coroutine

/-! ## depths -/

/-- as many values of a kind are staged as are counted for the depth -/
theorem length_keptOf_filter {es : List (Category × Value)} (he : Operands es) (k : Kind) :
    ((keptOf es).filter fun v => v.kind? = some k).length =
      (es.map Prod.fst).countP (isStored k) := by
  induction es with
  | nil => rfl
  | cons e es ih =>
    obtain ⟨k', hk, hv⟩ := he e List.mem_cons_self
    rw [keptOf_cons, List.filter_append, List.length_append,
      ih fun f hf => he f (List.mem_cons_of_mem _ hf), List.map_cons, List.countP_cons]
    obtain ⟨category, v⟩ := e
    by_cases hn : category = .null
    · subst hn
      rw [keptOf_single_null]
      simp [isStored]
    · rw [keptOf_single_of_kept (Category.isKept_of_kind? hk hn)]
      by_cases hkk : k' = k
      · subst hkk
        simp only at hk hv
        simp [isStored, hk, hv, hn]
        omega
      · simp only at hk hv
        simp [isStored, hk, hv, hkk]

/-- the depth of every staged operand is a number of 31 bits -/
def DepthsFit (cs : List Category) : Prop := ∀ k, cs.countP (isStored k) ≤ 2 ^ 31

theorem DepthsFit.of_length {cs : List Category} (h : cs.length ≤ 2 ^ 31) : DepthsFit cs :=
  fun _ => Nat.le_trans List.countP_le_length h

namespace Takes

variable {w : World} {h : Heap} {c : Coroutine Call Call} {locals stack : List Value}

/-- one operand moved aside -/
theorem stageValue {e : Category × Value} {k : Kind} {vs : List Value} (hw : w.Supplies)
    (hk : e.1.kind? = some k) (hv : e.2.kind? = some k) :
    Takes w h (Resumable.stageValue e.1) ⟨c.opening vs, locals, e.2 :: stack⟩
      ⟨c.opening (vs ++ keptOf [e]), locals, stack⟩ := by
  obtain ⟨category, v⟩ := e
  by_cases hn : category = .null
  · subst hn
    rw [keptOf_single_null, List.append_nil]
    exact pop
  · rw [keptOf_single_of_kept (Category.isKept_of_kind? hk hn)]
    simp only [Resumable.stageValue, hk, if_neg hn]
    exact call [v] (r := none) hw rfl rfl rfl fun m hm _ =>
      Intrinsic.run_stage hm (Coroutine.stage_opening hv)

/-- operands moved aside, from the top down -/
theorem stageOperands {es : List (Category × Value)} {vs : List Value} (hw : w.Supplies)
    (he : Operands es) :
    Takes w h ((es.map Prod.fst).flatMap Resumable.stageValue)
      ⟨c.opening vs, locals, es.map Prod.snd ++ stack⟩
      ⟨c.opening (vs ++ keptOf es), locals, stack⟩ := by
  induction es generalizing vs with
  | nil =>
    rw [keptOf_nil, List.append_nil]
    exact nil w h _
  | cons e es ih =>
    obtain ⟨k, hk, hv⟩ := he e List.mem_cons_self
    rw [keptOf_cons, ← List.append_assoc]
    exact append (stageValue hw hk hv) (ih fun f hf => he f (List.mem_cons_of_mem _ hf))

/-- one staged operand pushed back, after those before it -/
theorem unstageValue {before after : List (Category × Value)} {e : Category × Value}
    (hw : w.Supplies) (he : Admitted w.program h (before ++ e :: after))
    (hdepth : ∀ k, isStored k e.1 = true → (before.map Prod.fst).countP (isStored k) < 2 ^ 31) :
    Takes w h (Resumable.unstageValue (before.map Prod.fst) e.1)
      ⟨c.opening (keptOf (before ++ e :: after).reverse), locals, stack⟩
      ⟨c.opening (keptOf (before ++ e :: after).reverse), locals, e.2 :: stack⟩ := by
  obtain ⟨⟨k, hk⟩, ha⟩ := he e (by simp)
  obtain ⟨category, v⟩ := e
  by_cases hn : category = .null
  · subst hn
    have hv : v = .null := ha
    subst hv
    exact nullConst w h _
  · have hv : v.kind? = some k := ha.kind? hk
    have hbefore : Operands before := fun f hf => he.operands f (by simp [hf])
    have hcount := length_keptOf_filter hbefore k
    have hlt : (before.map Prod.fst).countP (isStored k) < 2 ^ 31 :=
      hdepth k (by simp only at hk; simp [isStored, hk, hn])
    simp only [Resumable.unstageValue, hk, if_neg hn, Kind.peekCode]
    generalize hd : (before.map Prod.fst).countP (isStored k) = depth at hcount hlt ⊢
    -- the values of the kind in the frame, the first operand uppermost
    have hfound : ((keptOf (before ++ (category, v) :: after).reverse).filter
        fun v => v.kind? = some k).reverse[depth]? = some v := by
      rw [keptOf_reverse, List.filter_reverse, List.reverse_reverse, keptOf_append, keptOf_cons,
        keptOf_single_of_kept (Category.isKept_of_kind? hk hn), List.filter_append, ← hcount,
        List.getElem?_append_right (Nat.le_refl _), Nat.sub_self, List.singleton_append,
        List.filter_cons_of_pos (by simpa using hv)]
      rfl
    have hpeek : Takes w h [(Intrinsic.peekStaged k).call]
        ⟨c.opening (keptOf (before ++ (category, v) :: after).reverse), locals,
          .int (Int32.ofNat depth) :: stack⟩
        ⟨c.opening (keptOf (before ++ (category, v) :: after).reverse), locals, v :: stack⟩ := by
      refine call [.int (Int32.ofNat depth)] (r := some v) hw rfl rfl rfl fun m hm _ => ?_
      refine Intrinsic.run_peekStaged hm (not_ofNat_neg hlt) ?_
      rw [toNat_toInt_ofNat hlt]
      exact Coroutine.peekStaged_opening hfound
    refine append (append (intConst w h _ ⟨_, locals, stack⟩) hpeek) ?_
    refine castCode hv ?_
    intro type x hc hx
    subst hc hx
    exact ha.assignable

/-- Staged operands pushed back, from the bottom up, after those before them.  The frame holds the
operands behind them as well. -/
theorem unstageFrom (stack : List Value) (before after : List (Category × Value))
    {es : List (Category × Value)} (hw : w.Supplies)
    (he : Admitted w.program h (before ++ (es ++ after)))
    (hfit : DepthsFit ((before ++ es).map Prod.fst)) :
    Takes w h (Resumable.unstageFrom (before.map Prod.fst) (es.map Prod.fst))
      ⟨c.opening (keptOf (before ++ (es ++ after)).reverse), locals, stack⟩
      ⟨c.opening (keptOf (before ++ (es ++ after)).reverse), locals,
        (es.map Prod.snd).reverse ++ stack⟩ := by
  induction es generalizing before stack with
  | nil => exact nil w h _
  | cons e es ih =>
    have hdepth : ∀ k, isStored k e.1 = true →
        (before.map Prod.fst).countP (isStored k) < 2 ^ 31 := by
      intro k hk
      have hle := hfit k
      rw [List.map_append, List.map_cons, List.countP_append, List.countP_cons, if_pos hk] at hle
      omega
    have h1 : Takes w h (Resumable.unstageValue (before.map Prod.fst) e.1)
        ⟨c.opening (keptOf (before ++ e :: (es ++ after)).reverse), locals, stack⟩
        ⟨c.opening (keptOf (before ++ e :: (es ++ after)).reverse), locals, e.2 :: stack⟩ :=
      unstageValue hw he hdepth
    have hassoc (fs : List (Category × Value)) : before ++ e :: fs = (before ++ [e]) ++ fs := by
      rw [List.append_assoc, List.singleton_append]
    rw [List.cons_append, hassoc] at he ⊢
    rw [hassoc] at hfit h1
    have h2 := ih (e.2 :: stack) _ he hfit
    rw [List.map_append] at h2
    have hstack : ((e :: es).map Prod.snd).reverse ++ stack =
        (es.map Prod.snd).reverse ++ e.2 :: stack := by
      rw [List.map_cons, List.reverse_cons, List.append_assoc, List.singleton_append]
    rw [hstack]
    exact append h1 h2

/-- a new frame is opened, and the operands are moved into it -/
theorem stageAside {es : List (Category × Value)} {staged : Label} (hw : w.Supplies)
    (he : Operands es) :
    Takes w h ([Intrinsic.exists.call, .branch .eq staged, Intrinsic.beginStaging.call] ++
        (es.map Prod.fst).reverse.flatMap Resumable.stageValue)
      ⟨c, locals, (es.map Prod.snd).reverse ++ stack⟩
      ⟨c.opening (keptOf es.reverse), locals, stack⟩ := by
  have hexists : Takes w h [Intrinsic.exists.call]
      ⟨c, locals, (es.map Prod.snd).reverse ++ stack⟩
      ⟨c, locals, .ofBool true :: ((es.map Prod.snd).reverse ++ stack)⟩ := existsCall hw
  have hbegin : Takes w h [Intrinsic.beginStaging.call]
      ⟨c, locals, (es.map Prod.snd).reverse ++ stack⟩
      ⟨c.opening [], locals, (es.map Prod.snd).reverse ++ stack⟩ :=
    call [] (r := none) hw rfl rfl rfl fun m hm _ => Intrinsic.run_beginStaging hm
  have haside : Takes w h ((es.map Prod.fst).reverse.flatMap Resumable.stageValue)
      ⟨c.opening [], locals, (es.map Prod.snd).reverse ++ stack⟩
      ⟨c.opening (keptOf es.reverse), locals, stack⟩ := by
    rw [← List.map_reverse, ← List.map_reverse]
    exact stageOperands hw fun e hmem => he e (List.mem_reverse.1 hmem)
  exact append (cons hexists (cons (branch_next rfl) hbegin)) haside

/-- **Staging**: the operands of a call are copied into a new frame and stay where they are -/
theorem stageCode {es : List (Category × Value)} {staged : Label} (hw : w.Supplies)
    (he : Admitted w.program h es) (hfit : DepthsFit (es.map Prod.fst)) :
    Takes w h (Resumable.stageCode (es.map Prod.fst) staged)
      ⟨c, locals, (es.map Prod.snd).reverse ++ stack⟩
      ⟨c.opening (keptOf es.reverse), locals, (es.map Prod.snd).reverse ++ stack⟩ := by
  have hback : Takes w h (Resumable.unstageFrom [] (es.map Prod.fst))
      ⟨c.opening (keptOf es.reverse), locals, stack⟩
      ⟨c.opening (keptOf es.reverse), locals, (es.map Prod.snd).reverse ++ stack⟩ := by
    have hall : Takes w h (Resumable.unstageFrom [] (es.map Prod.fst))
        ⟨c.opening (keptOf (es ++ []).reverse), locals, stack⟩
        ⟨c.opening (keptOf (es ++ []).reverse), locals, (es.map Prod.snd).reverse ++ stack⟩ :=
      unstageFrom stack [] [] hw (by rw [List.append_nil]; exact he) hfit
    rw [List.append_nil] at hall
    exact hall
  exact append (append (stageAside hw he.operands) hback) (label w h _ _)

end Takes
end Resumable
