import Resumable.Proofs.Found

/-!
# Places in woven code

Each instruction of a method stands somewhere within its block, and the blocks stand one behind the other.
The parts of the code around a call stand in front of the call and behind it.

* `Layout.Stand`, `Layout.Laid.stand` : the parts of a block;
* `Block.ownAt`, `Layout.Laid.holds_own` : the place of the instruction;
* `Layout.Within` : the block that a place lies in;
* `Layout.Between` : the places of injected code.
-/

namespace Resumable

/-- where the instruction stands in its block -/
def Block.ownAt (b : Block) : Nat :=
  match b.around with
  | none => 0
  | some x => x.ownAt

theorem Block.ownAt_some {b : Block} {y : Around} (hy : b.around = some y) : b.ownAt = y.ownAt := by
  unfold Block.ownAt
  rw [hy]

/-- where the parts of the code around a call stand, one behind the other -/
theorem Around.places (y : Around) (a : Analysis) (ret : Option Kind) :
    y.ownAt = 5 + (restoreCode y.site.unpatchable y.frame y.shape).length + y.staging.length ∧
      y.ownAt + 2 ≤ y.afterAt ∧ y.afterAt + 3 ≤ y.noYieldAt a ret ∧ 1 ≤ y.ending.length ∧
      (y.site.unpatchable = true → y.afterAt = y.ownAt + 9 ∧ y.ending.length = 4) := by
  refine ⟨rfl, Nat.le_add_right _ _, Nat.le_add_right _ _, ?_, fun hu => ⟨?_, ?_⟩⟩
  · unfold ending
    split <;> exact Nat.le_add_left 1 _
  · unfold afterAt rethrowCode
    rw [if_pos hu]
    rfl
  · unfold ending
    rw [if_pos hu]
    rfl

namespace Layout

variable {a : Analysis} {m m' : Method} {l : Layout a m} {n k q : Nat} {b : Block} {x y : Around}

/-! ## the parts of a block -/

/-- the parts of a block stand in these places of the code -/
structure Stand (y : Around) (a : Analysis) (ret : Option Kind) (own : Insn) (code : List Insn)
    (start : Nat) : Prop where
  pre : Holds code start [.label y.labels.pre, .jump y.labels.call]
  resume : Holds code (start + 2) (y.fromResume a ret own)
  call : Holds code (start + (3 + (restoreCode y.site.unpatchable y.frame y.shape).length))
    (y.fromCall a ret own)
  invoke : Holds code (start + (y.ownAt - 1)) (y.fromInvoke a ret own)
  rethrow : Holds code (start + (y.ownAt + 2)) (y.fromRethrow a ret)
  after : Holds code (start + y.afterAt) (y.fromAfter a ret)
  noYield : Holds code (start + y.noYieldAt a ret) y.fromNoYield

theorem Laid.stand (h : l.Laid m') (hb : l.blocks[n]? = some b) (hy : b.around = some y) :
    Stand y a l.ret b.own m'.code (l.start n) ∧
      l.start (n + 1) = l.start n + (y.noYieldAt a l.ret + 1 + y.ending.length) := by
  have hholds := h.holds hb
  have hnext := start_succ hb
  obtain ⟨around, own⟩ := b
  obtain rfl : around = some y := hy
  obtain ⟨h1, h2, h3, h4, h5, h6⟩ := drop_around a l.ret y own
  have hlen : ((Block.mk (some y) own).code a l.ret).length =
      y.noYieldAt a l.ret + 1 + y.ending.length := by
    have hcut := congrArg List.length h6
    rw [List.length_drop] at hcut
    unfold Around.fromNoYield at hcut
    rw [List.length_cons] at hcut
    omega
  have hat : y.afterAt ≤ y.noYieldAt a l.ret ∧ y.ownAt + 2 ≤ y.afterAt ∧
      3 + (restoreCode y.site.unpatchable y.frame y.shape).length ≤ y.ownAt ∧ 5 ≤ y.ownAt := by
    unfold Around.noYieldAt Around.afterAt Around.ownAt
    omega
  refine ⟨⟨?_, hholds.of_drop h1 (by omega), hholds.of_drop h2 (by omega),
    hholds.of_drop h3 (by omega), hholds.of_drop h4 (by omega), hholds.of_drop h5 (by omega),
    hholds.of_drop h6 (by omega)⟩, by rw [hnext, hlen]⟩
  rw [Block.code_around] at hholds
  exact hholds.take 2

/-! ## places of blocks -/

theorem start_mono (l : Layout a m) {i j : Nat} (h : i ≤ j) : l.start i ≤ l.start j := by
  have hsplit : l.blocks.take j = l.blocks.take i ++ (l.blocks.drop i).take (j - i) := by
    rw [← List.take_add, Nat.add_sub_cancel' h]
  rw [start, start, hsplit, List.flatMap_append, List.length_append]
  omega

/-- a place lies in the block of a position -/
def Within (l : Layout a m) (n q : Nat) : Prop := l.start n ≤ q ∧ q < l.start (n + 1)

theorem Within.le_iff (h : l.Within n q) : l.start k ≤ q ↔ k ≤ n := by
  obtain ⟨h1, h2⟩ := h
  constructor
  · intro hk
    rcases Nat.lt_or_ge n k with hlt | hle
    · have := l.start_mono (show n + 1 ≤ k by omega)
      omega
    · exact hle
  · intro hk
    have := l.start_mono hk
    omega

theorem Within.lt_iff (h : l.Within n q) : q < l.start k ↔ n < k := by
  have := h.le_iff (k := k)
  omega

theorem Within.inj (h : l.Within n q) (h' : l.Within k q) : n = k := by
  have h1 := h.le_iff.1 h'.1
  have h2 := h'.le_iff.1 h.1
  omega

/-- the instruction of a block stands in it -/
theorem Laid.holds_own (h : l.Laid m') (hb : l.blocks[n]? = some b) :
    m'.code[l.start n + b.ownAt]? = some b.own ∧ l.Within n (l.start n + b.ownAt) := by
  obtain ⟨around, own⟩ := b
  cases around with
  | none =>
    have hholds := h.holds hb
    have hnext := start_succ hb
    have hlen : (Block.code a l.ret ⟨none, own⟩).length = 1 := rfl
    exact ⟨hholds.head, by show _ ≤ l.start n + 0; omega, by show l.start n + 0 < _; omega⟩
  | some x =>
    obtain ⟨hstand, hnext⟩ := h.stand hb rfl
    have hinvoke := hstand.invoke.tail.head
    have hat : x.afterAt ≤ x.noYieldAt a l.ret ∧ x.ownAt + 2 ≤ x.afterAt ∧ 5 ≤ x.ownAt := by
      unfold Around.noYieldAt Around.afterAt Around.ownAt
      omega
    rw [show l.start n + (x.ownAt - 1) + 1 = l.start n + x.ownAt by omega] at hinvoke
    exact ⟨hinvoke, by show _ ≤ l.start n + x.ownAt; omega, by show l.start n + x.ownAt < _; omega⟩

/-! ## injected code -/

/-- no instruction of the method stands at the place -/
def Between (l : Layout a m) (q : Nat) : Prop :=
  ∀ (n : Nat) (b : Block), l.blocks[n]? = some b → q ≠ l.start n + b.ownAt

/-- a place of a block is one of injected code unless the instruction stands there -/
theorem Laid.between (h : l.Laid m') (hq : l.Within n q) (hb : l.blocks[n]? = some b)
    (hne : q ≠ l.start n + b.ownAt) : l.Between q := by
  rintro k b' hk rfl
  obtain rfl := hq.inj (h.holds_own hk).2
  obtain rfl : b' = b := Option.some.inj (hk.symm.trans hb)
  exact hne rfl

/-- the prologue is injected code -/
theorem between_of_lt_start (h : q < l.start 0) : l.Between q := by
  rintro k b hk rfl
  have := l.start_mono (Nat.zero_le k)
  omega

/-- so is what stands around a call -/
theorem Laid.between_around (h : l.Laid m') (hb : l.blocks[n]? = some b) (hy : b.around = some y) {j : Nat}
    (hlt : j < y.noYieldAt a l.ret + 1 + y.ending.length) (hne : j ≠ y.ownAt) : l.Between (l.start n + j) := by
  have hnext := (h.stand hb hy).2
  exact h.between ⟨by omega, by omega⟩ hb (by rw [Block.ownAt_some hy]; omega)

end Layout
end Resumable
