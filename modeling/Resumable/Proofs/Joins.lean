import Resumable.Proofs.Ancestors
import Resumable.Proofs.Framed

/-!
# The order of frames

Where superclasses are an order, joins of categories and of frames belong to an order as well: null is below
every reference, a reference below those to types above its own, and a local of which nothing is known above
all others.  A join is above both sides, and it changes nothing exactly if the other side was below already.

* `Category.Under`, `Category.LocalUnder` : the order of operands and of locals;
* `Frame.Under`, `Frame.under_trans` : the order of frames;
* `Frame.under_merge` : a join is an upper bound;
* `Frame.absorbs_iff` : what a frame absorbs is what is below it.
-/

namespace Resumable

/-! ## categories -/

namespace Category

/-- one operand is below another -/
inductive Under (p : Program) : Category → Category → Prop
  | refl (c : Category) : Under p c c
  | null (t : String) : Under p .null (.ref t)
  | ref {s t : String} (h : p.Under s t) : Under p (.ref s) (.ref t)

/-- one local is below another: above an empty one is nothing else -/
def LocalUnder (p : Program) (c d : Category) : Prop := d = .empty ∨ c.Under p d

section
variable {p : Program} {c d e : Category} {s t : String}

theorem ref_under_ref : (Category.ref s).Under p (.ref t) ↔ p.Under s t := by
  constructor
  · intro h
    cases h with
    | refl => exact .refl p s
    | ref h => exact h
  · exact Under.ref

theorem under_trans (hp : p.Layered) (h : c.Under p d) (h' : d.Under p e) : c.Under p e := by
  cases h with
  | refl => exact h'
  | null t =>
    cases h' with
    | refl => exact .null t
    | ref => exact .null _
  | ref h =>
    cases h' with
    | refl => exact .ref h
    | ref h' => exact .ref (hp.under_trans h h')

theorem localUnder_refl (p : Program) (c : Category) : c.LocalUnder p c := .inr (.refl c)

theorem localUnder_trans (hp : p.Layered) (h : c.LocalUnder p d) (h' : d.LocalUnder p e) :
    c.LocalUnder p e := by
  rcases h' with rfl | h'
  · exact .inl rfl
  · rcases h with rfl | h
    · cases h' with
      | refl => exact .inl rfl
    · exact .inr (under_trans hp h h')

/-- **A join** of two categories is above both -/
theorem under_merge (h : mergeCategory p c d = some e) : c.Under p e ∧ d.Under p e := by
  unfold mergeCategory at h
  split at h
  · rename_i heq
    obtain rfl := Option.some.inj h
    rw [← heq]
    exact ⟨.refl c, .refl c⟩
  · split at h
    · rw [← Option.some.inj h]
      exact ⟨.null _, .refl _⟩
    · rw [← Option.some.inj h]
      exact ⟨.refl _, .null _⟩
    · rw [← Option.some.inj h]
      obtain ⟨hs, ht⟩ := Program.Layered.under_common p _ _
      exact ⟨.ref hs, .ref ht⟩
    · exact absurd h (by simp)

/-- a join gives the category that was there exactly if the other one is below it -/
theorem merge_eq_left_iff (hp : p.Layered) : mergeCategory p d c = some d ↔ c.Under p d := by
  constructor
  · intro h
    exact (under_merge h).2
  · intro h
    cases h with
    | refl => exact mergeCategory_self p c
    | null t => rfl
    | @ref s t h =>
      have hcommon : p.commonSupertype t s = t := hp.common_eq_iff.2 h
      by_cases hne : Category.ref t = .ref s
      · rw [← hne]
        exact mergeCategory_self p _
      · show (if Category.ref t = .ref s then _ else some (Category.ref (p.commonSupertype t s))) = _
        rw [if_neg hne, hcommon]

/-- the join of two locals is above both -/
theorem localUnder_merge (p : Program) (c d : Category) :
    c.LocalUnder p ((mergeCategory p c d).getD .empty) ∧
      d.LocalUnder p ((mergeCategory p c d).getD .empty) := by
  cases h : mergeCategory p c d with
  | none => exact ⟨.inl rfl, .inl rfl⟩
  | some e =>
    obtain ⟨hc, hd⟩ := under_merge h
    exact ⟨.inr hc, .inr hd⟩

theorem merge_local_eq_left_iff (hp : p.Layered) :
    (mergeCategory p d c).getD .empty = d ↔ c.LocalUnder p d := by
  constructor
  · intro h
    have hunder := (localUnder_merge p d c).2
    rwa [h] at hunder
  · intro h
    rcases h with rfl | h
    · by_cases hc : Category.empty = c
      · rw [← hc, mergeCategory_self]
        rfl
      · have hnone : mergeCategory p .empty c = none := by
          unfold mergeCategory
          rw [if_neg hc]
        rw [hnone]
        rfl
    · rw [(merge_eq_left_iff hp).2 h]
      rfl

end

end Category

/-! ## frames -/

namespace Frame

/-- one frame is below another, slot by slot -/
structure Under (p : Program) (f g : Frame) : Prop where
  locals : List.Forall₂ (Category.LocalUnder p) f.locals g.locals
  stack : List.Forall₂ (Category.Under p) f.stack g.stack

section
variable {p : Program} {f g e : Frame}

theorem Under.refl (p : Program) (f : Frame) : f.Under p f :=
  ⟨List.forall₂_same.2 fun c _ => Category.localUnder_refl p c, List.forall₂_same.2 fun c _ => .refl c⟩

/-- a relation of lists, entry by entry, is transitive if it is one of entries -/
theorem forall₂_trans {α : Type} {R : α → α → Prop} (htrans : ∀ a b c, R a b → R b c → R a c) {as bs cs : List α}
    (h : List.Forall₂ R as bs) (h' : List.Forall₂ R bs cs) : List.Forall₂ R as cs := by
  induction h generalizing cs with
  | nil => exact h'
  | cons hab _ ih =>
    cases h' with
    | cons hbc h' => exact .cons (htrans _ _ _ hab hbc) (ih h')

theorem under_trans (hp : p.Layered) (h : f.Under p g) (h' : g.Under p e) : f.Under p e := by
  have hlocals (a b c : Category) : a.LocalUnder p b → b.LocalUnder p c → a.LocalUnder p c :=
    Category.localUnder_trans hp
  have hstack (a b c : Category) : a.Under p b → b.Under p c → a.Under p c := Category.under_trans hp
  exact ⟨forall₂_trans hlocals h.locals h'.locals, forall₂_trans hstack h.stack h'.stack⟩

theorem under_mergeStack {cs ds es : List Category} (hlen : cs.length = ds.length)
    (h : mergeStack p cs ds = .ok es) :
    List.Forall₂ (Category.Under p) cs es ∧ List.Forall₂ (Category.Under p) ds es := by
  induction cs generalizing ds es with
  | nil =>
    obtain rfl : ds = [] := List.length_eq_zero_iff.1 hlen.symm
    obtain rfl : [] = es := by simpa [mergeStack] using h
    exact ⟨.nil, .nil⟩
  | cons c cs ih =>
    cases ds with
    | nil => exact absurd hlen (by simp)
    | cons d ds =>
      rw [mergeStack] at h
      obtain ⟨rest, hrest, h⟩ := Effect.bind_eq_ok h
      obtain ⟨hcs, hds⟩ := ih (by simpa using hlen) hrest
      cases hm : mergeCategory p c d with
      | none =>
        rw [hm] at h
        exact absurd h (by simp)
      | some e =>
        rw [hm] at h
        obtain rfl : e :: rest = es := by simpa using h
        obtain ⟨hc, hd⟩ := Category.under_merge hm
        exact ⟨.cons hc hcs, .cons hd hds⟩

theorem under_mergeLocals {cs ds : List Category} (hlen : cs.length = ds.length) :
    List.Forall₂ (Category.LocalUnder p) cs (mergeLocals p cs ds) ∧
      List.Forall₂ (Category.LocalUnder p) ds (mergeLocals p cs ds) := by
  induction cs generalizing ds with
  | nil =>
    obtain rfl : ds = [] := List.length_eq_zero_iff.1 hlen.symm
    exact ⟨.nil, .nil⟩
  | cons c cs ih =>
    cases ds with
    | nil => exact absurd hlen (by simp)
    | cons d ds =>
      have hlen : cs.length = ds.length := by simpa using hlen
      obtain ⟨hcs, hds⟩ := ih hlen
      obtain ⟨hc, hd⟩ := Category.localUnder_merge p c d
      rw [mergeLocals]
      exact ⟨.cons hc hcs, .cons hd hds⟩

/-- **A join** of two frames with as many locals is above both -/
theorem under_merge (hlen : f.locals.length = g.locals.length) (h : f.merge p g = .ok e) :
    f.Under p e ∧ g.Under p e := by
  unfold merge at h
  split at h
  · rename_i hheight
    obtain ⟨stack, hstack, h⟩ := Effect.bind_eq_ok h
    obtain rfl := Except.ok.inj h
    obtain ⟨hf, hg⟩ := under_mergeStack hheight hstack
    obtain ⟨hf', hg'⟩ := under_mergeLocals (p := p) hlen
    exact ⟨⟨hf', hf⟩, ⟨hg', hg⟩⟩
  · exact absurd h (by simp)

theorem mergeStack_under (hp : p.Layered) {cs ds : List Category} (h : List.Forall₂ (Category.Under p) cs ds) :
    mergeStack p ds cs = .ok ds := by
  induction h with
  | nil => rfl
  | cons hcd _ ih =>
    rw [mergeStack, ih, (Category.merge_eq_left_iff hp).2 hcd]
    rfl

theorem mergeLocals_under (hp : p.Layered) {cs ds : List Category}
    (h : List.Forall₂ (Category.LocalUnder p) cs ds) : mergeLocals p ds cs = ds := by
  induction h with
  | nil => rfl
  | cons hcd _ ih => rw [mergeLocals, ih, (Category.merge_local_eq_left_iff hp).2 hcd]

/-- **What a frame absorbs** is what is below it -/
theorem absorbs_iff (hp : p.Layered) (hlen : f.locals.length = g.locals.length) :
    f.Absorbs p g ↔ g.Under p f := by
  constructor
  · intro h
    exact (under_merge hlen h).2
  · intro h
    show f.merge p g = .ok f
    unfold merge
    rw [if_pos h.stack.length_eq.symm, mergeStack_under hp h.stack, mergeLocals_under hp h.locals]
    rfl

end

end Frame
end Resumable
