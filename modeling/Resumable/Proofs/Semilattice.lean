import Resumable.Proofs.Joins

/-!
# Joins are least upper bounds

What two paths leave is joined in the order in which the paths are looked at, and the outcome does not depend
on that order: a join is the least upper bound in an order, and whatever has an upper bound has a join, so of
several things that are joined one by one either every bracketing gives their least upper bound or none gives
anything.  This holds of types, of operands, of locals and of whole frames.  The two rules for what does not fit
together fit in: of locals nothing is known then, which is above everything, and operands have no upper bound.

* `PartialJoin` : an operation that gives least upper bounds where there are upper bounds;
* `OrderFree`, `PartialJoin.orderFree` : order and brackets do not matter to it;
* `Frame.Beneath` : the order of frames, whose numbers of locals may differ;
* `Frame.partialJoin`, `Frame.absorbs_iff_beneath` : the joins of frames, and what a frame absorbs;
* `Program.Layered.joins_order_free` : types and frames are joined in any order.
-/

namespace Resumable

/-! ## partial joins -/

/-- An operation that gives least upper bounds in an order, and gives one wherever there is an upper bound. -/
structure PartialJoin {α : Type} (R : α → α → Prop) (join : α → α → Option α) : Prop where
  refl : ∀ a, R a a
  trans : ∀ {a b c}, R a b → R b c → R a c
  antisymm : ∀ {a b}, R a b → R b a → a = b
  upper : ∀ {a b e}, join a b = some e → R a e ∧ R b e
  least : ∀ {a b u}, R a u → R b u → ∃ e, join a b = some e ∧ R e u

/-- An operation to which neither the order nor the brackets matter, also where it gives nothing. -/
structure OrderFree {α : Type} (join : α → α → Option α) : Prop where
  self : ∀ a, join a a = some a
  comm : ∀ a b, join a b = join b a
  assoc : ∀ a b c, ((join a b).bind fun d => join d c) = (join b c).bind fun d => join a d

namespace PartialJoin

section
variable {α : Type} {R : α → α → Prop} {join : α → α → Option α} {a b c e u : α}

/-- a join is below every upper bound -/
theorem below (h : PartialJoin R join) (hjoin : join a b = some e) (ha : R a u) (hb : R b u) : R e u := by
  obtain ⟨e', hjoin', hle⟩ := h.least ha hb
  rw [hjoin] at hjoin'
  rwa [Option.some.inj hjoin']

/-- **A join** is the least upper bound -/
theorem eq_some_iff (h : PartialJoin R join) :
    join a b = some e ↔ R a e ∧ R b e ∧ ∀ u, R a u → R b u → R e u := by
  constructor
  · intro hjoin
    obtain ⟨ha, hb⟩ := h.upper hjoin
    exact ⟨ha, hb, fun u => h.below hjoin⟩
  · rintro ⟨ha, hb, hleast⟩
    obtain ⟨e', hjoin, hle⟩ := h.least ha hb
    obtain ⟨ha', hb'⟩ := h.upper hjoin
    rw [hjoin, h.antisymm hle (hleast e' ha' hb')]

/-- what is below is absorbed, and nothing else is -/
theorem eq_left_iff (h : PartialJoin R join) : join a b = some a ↔ R b a := by
  constructor
  · intro hjoin
    exact (h.upper hjoin).2
  · intro hba
    exact h.eq_some_iff.2 ⟨h.refl a, hba, fun u ha _ => ha⟩

theorem comm (h : PartialJoin R join) (a b : α) : join a b = join b a := by
  refine Option.ext fun e => ?_
  rw [h.eq_some_iff, h.eq_some_iff]
  constructor
  · rintro ⟨ha, hb, hleast⟩
    exact ⟨hb, ha, fun u hbu hau => hleast u hau hbu⟩
  · rintro ⟨hb, ha, hleast⟩
    exact ⟨ha, hb, fun u hau hbu => hleast u hbu hau⟩

/-- joining a third thing in gives the least upper bound of all three -/
theorem bind_eq_some_iff (h : PartialJoin R join) :
    ((join a b).bind fun d => join d c) = some e ↔
      R a e ∧ R b e ∧ R c e ∧ ∀ u, R a u → R b u → R c u → R e u := by
  constructor
  · intro hjoins
    obtain ⟨d, hd, he⟩ := Option.bind_eq_some_iff.1 hjoins
    obtain ⟨had, hbd⟩ := h.upper hd
    obtain ⟨hde, hce⟩ := h.upper he
    refine ⟨h.trans had hde, h.trans hbd hde, hce, fun u hau hbu hcu => ?_⟩
    exact h.below he (h.below hd hau hbu) hcu
  · rintro ⟨ha, hb, hc, hleast⟩
    obtain ⟨d, hd, hde⟩ := h.least ha hb
    refine Option.bind_eq_some_iff.2 ⟨d, hd, h.eq_some_iff.2 ⟨hde, hc, fun u hdu hcu => ?_⟩⟩
    obtain ⟨had, hbd⟩ := h.upper hd
    exact hleast u (h.trans had hdu) (h.trans hbd hdu) hcu

theorem assoc (h : PartialJoin R join) (a b c : α) :
    ((join a b).bind fun d => join d c) = (join b c).bind fun d => join a d := by
  have hturn : ((join b c).bind fun d => join a d) = (join b c).bind fun d => join d a :=
    Option.bind_congr fun d _ => h.comm a d
  rw [hturn]
  refine Option.ext fun e => ?_
  rw [h.bind_eq_some_iff, h.bind_eq_some_iff]
  constructor
  · rintro ⟨ha, hb, hc, hleast⟩
    exact ⟨hb, hc, ha, fun u hbu hcu hau => hleast u hau hbu hcu⟩
  · rintro ⟨hb, hc, ha, hleast⟩
    exact ⟨ha, hb, hc, fun u hau hbu hcu => hleast u hbu hcu hau⟩

/-- **Order and brackets** do not matter to least upper bounds -/
theorem orderFree (h : PartialJoin R join) : OrderFree join where
  self a := h.eq_left_iff.2 (h.refl a)
  comm := h.comm
  assoc := h.assoc

end

end PartialJoin

/-! ## types and categories -/

section
variable {p : Program}

theorem Program.Layered.partialJoin (hp : p.Layered) :
    PartialJoin p.Under fun s t => some (p.commonSupertype s t) where
  refl := .refl p
  trans := hp.under_trans
  antisymm := hp.under_antisymm
  upper := by
    intro s t e hjoin
    rw [← Option.some.inj hjoin]
    exact Program.Layered.under_common p s t
  least := by
    intro s t u hs ht
    exact ⟨_, rfl, hp.common_under hs ht⟩

namespace Category

variable {c d u : Category}

theorem merge_ref (p : Program) (s t : String) :
    mergeCategory p (.ref s) (.ref t) = some (.ref (p.commonSupertype s t)) := by
  unfold mergeCategory
  split
  · rename_i heq
    obtain rfl := Category.ref.inj heq
    rw [p.commonSupertype_self]
  · rfl

theorem under_antisymm (hp : p.Layered) (h : c.Under p d) (h' : d.Under p c) : c = d := by
  cases h with
  | refl => rfl
  | null t => cases h'
  | ref h => rw [hp.under_antisymm h (ref_under_ref.1 h')]

/-- two operands below a third one have a join below it -/
theorem merge_under (hp : p.Layered) (hc : c.Under p u) (hd : d.Under p u) :
    ∃ e, mergeCategory p c d = some e ∧ e.Under p u := by
  cases hc with
  | refl => exact ⟨c, (merge_eq_left_iff hp).2 hd, .refl c⟩
  | null t =>
    cases hd with
    | refl => exact ⟨.ref t, rfl, .refl _⟩
    | null => exact ⟨.null, rfl, .null t⟩
    | @ref s _ hs => exact ⟨.ref s, rfl, .ref hs⟩
  | @ref s t hs =>
    cases hd with
    | refl => exact ⟨_, merge_ref p s t, .ref (hp.common_under hs (.refl p t))⟩
    | null => exact ⟨.ref s, rfl, .ref hs⟩
    | @ref s' _ hs' => exact ⟨_, merge_ref p s s', .ref (hp.common_under hs hs')⟩

theorem partialJoin (hp : p.Layered) : PartialJoin (Under p) (mergeCategory p) where
  refl := .refl
  trans := under_trans hp
  antisymm := under_antisymm hp
  upper := under_merge
  least := merge_under hp

theorem localUnder_antisymm (hp : p.Layered) (h : c.LocalUnder p d) (h' : d.LocalUnder p c) : c = d := by
  rcases h with rfl | h
  · rcases h' with rfl | h'
    · rfl
    · cases h'
      rfl
  · rcases h' with rfl | h'
    · cases h
      rfl
    · exact under_antisymm hp h h'

/-- the join of two locals is below every upper bound -/
theorem merge_localUnder (hp : p.Layered) (hc : c.LocalUnder p u) (hd : d.LocalUnder p u) :
    ((mergeCategory p c d).getD .empty).LocalUnder p u := by
  rcases hc with rfl | hc
  · exact .inl rfl
  · rcases hd with rfl | hd
    · exact .inl rfl
    · obtain ⟨e, he, hunder⟩ := merge_under hp hc hd
      rw [he]
      exact .inr hunder

/-- nothing else is above an empty local -/
theorem eq_empty_of_localUnder (h : Category.empty.LocalUnder p d) : d = .empty := by
  rcases h with rfl | h
  · rfl
  · cases h
    rfl

end Category

/-! ## frames -/

namespace Frame

/-- One list of locals is below another: slot by slot, and where there are more slots in the other one, nothing
is known of them. -/
inductive LocalsBeneath (p : Program) : List Category → List Category → Prop
  | nil : LocalsBeneath p [] []
  | beyond {ds : List Category} (rest : LocalsBeneath p [] ds) : LocalsBeneath p [] (.empty :: ds)
  | cons {c d : Category} {cs ds : List Category} (first : c.LocalUnder p d) (rest : LocalsBeneath p cs ds) :
    LocalsBeneath p (c :: cs) (d :: ds)

/-- one frame is below another, which may have more locals -/
structure Beneath (p : Program) (f g : Frame) : Prop where
  locals : LocalsBeneath p f.locals g.locals
  stack : List.Forall₂ (Category.Under p) f.stack g.stack

namespace LocalsBeneath

variable {cs ds es us : List Category}

theorem refl (p : Program) (cs : List Category) : LocalsBeneath p cs cs := by
  induction cs with
  | nil => exact .nil
  | cons c cs ih => exact .cons (Category.localUnder_refl p c) ih

theorem trans (hp : p.Layered) (h : LocalsBeneath p cs ds) (h' : LocalsBeneath p ds es) : LocalsBeneath p cs es := by
  induction h generalizing es with
  | nil => exact h'
  | beyond _ ih =>
    cases h' with
    | cons first rest =>
      rw [Category.eq_empty_of_localUnder first]
      exact .beyond (ih rest)
  | cons hcd _ ih =>
    cases h' with
    | cons first rest => exact .cons (Category.localUnder_trans hp hcd first) (ih rest)

theorem length_le (h : LocalsBeneath p cs ds) : cs.length ≤ ds.length := by
  induction h with
  | nil => exact Nat.le_refl _
  | beyond _ _ => exact Nat.zero_le _
  | cons _ _ ih => exact Nat.succ_le_succ ih

theorem antisymm (hp : p.Layered) (h : LocalsBeneath p cs ds) (h' : LocalsBeneath p ds cs) : cs = ds := by
  induction h with
  | nil => rfl
  | beyond _ _ => cases h'
  | cons hcd _ ih =>
    cases h' with
    | cons first rest => rw [Category.localUnder_antisymm hp hcd first, ih rest]

/-- slots of which nothing is known are above missing ones -/
theorem empties (p : Program) (cs : List Category) : LocalsBeneath p [] (cs.map fun _ => .empty) := by
  induction cs with
  | nil => exact .nil
  | cons _ _ ih => exact .beyond ih

theorem map_empty (p : Program) (cs : List Category) : LocalsBeneath p cs (cs.map fun _ => .empty) := by
  induction cs with
  | nil => exact .nil
  | cons _ _ ih => exact .cons (.inl rfl) ih

/-- what is above missing slots is above slots of which nothing is known -/
theorem of_nil (h : LocalsBeneath p [] us) (hcs : LocalsBeneath p cs us) :
    LocalsBeneath p (cs.map fun _ => .empty) us := by
  induction hcs with
  | nil => exact .nil
  | beyond _ _ => exact h
  | cons _ _ ih =>
    cases h with
    | beyond rest => exact .cons (.inl rfl) (ih rest)

theorem merge_upper (p : Program) (cs ds : List Category) :
    LocalsBeneath p cs (mergeLocals p cs ds) ∧ LocalsBeneath p ds (mergeLocals p cs ds) := by
  induction cs generalizing ds with
  | nil =>
    rw [mergeLocals]
    exact ⟨empties p ds, map_empty p ds⟩
  | cons c cs ih =>
    cases ds with
    | nil => exact ⟨map_empty p (c :: cs), empties p (c :: cs)⟩
    | cons d ds =>
      obtain ⟨hc, hd⟩ := Category.localUnder_merge p c d
      obtain ⟨hcs, hds⟩ := ih ds
      rw [mergeLocals]
      exact ⟨.cons hc hcs, .cons hd hds⟩

theorem merge_least (hp : p.Layered) (hcs : LocalsBeneath p cs us) (hds : LocalsBeneath p ds us) :
    LocalsBeneath p (mergeLocals p cs ds) us := by
  induction cs generalizing ds us with
  | nil =>
    rw [mergeLocals]
    exact of_nil hcs hds
  | cons c cs ih =>
    cases ds with
    | nil => exact of_nil hds hcs
    | cons d ds =>
      cases hcs with
      | cons hc hcs =>
        cases hds with
        | cons hd hds =>
          rw [mergeLocals]
          exact .cons (Category.merge_localUnder hp hc hd) (ih hcs hds)

end LocalsBeneath

variable {f g e u : Frame} {cs ds us : List Category}

/-- two stacks below a third one have a join below it -/
theorem mergeStack_least (hp : p.Layered) (hcs : List.Forall₂ (Category.Under p) cs us)
    (hds : List.Forall₂ (Category.Under p) ds us) :
    ∃ es, mergeStack p cs ds = .ok es ∧ List.Forall₂ (Category.Under p) es us := by
  induction hcs generalizing ds with
  | nil =>
    cases hds
    exact ⟨[], rfl, .nil⟩
  | cons hc _ ih =>
    cases hds with
    | cons hd hds =>
      obtain ⟨es, hes, hunder⟩ := ih hds
      obtain ⟨e, he, heu⟩ := Category.merge_under hp hc hd
      refine ⟨e :: es, ?_, .cons heu hunder⟩
      rw [mergeStack, hes, he]
      rfl

theorem Beneath.refl (p : Program) (f : Frame) : f.Beneath p f :=
  ⟨.refl p f.locals, List.forall₂_same.2 fun c _ => .refl c⟩

theorem stack_trans (hp : p.Layered) (h : List.Forall₂ (Category.Under p) cs ds)
    (h' : List.Forall₂ (Category.Under p) ds us) : List.Forall₂ (Category.Under p) cs us := by
  have hstack (a b c : Category) : a.Under p b → b.Under p c → a.Under p c := Category.under_trans hp
  exact forall₂_trans hstack h h'

theorem Beneath.trans (hp : p.Layered) (h : f.Beneath p g) (h' : g.Beneath p e) : f.Beneath p e :=
  ⟨h.locals.trans hp h'.locals, stack_trans hp h.stack h'.stack⟩

theorem stack_antisymm (hp : p.Layered) (h : List.Forall₂ (Category.Under p) cs ds)
    (h' : List.Forall₂ (Category.Under p) ds cs) : cs = ds := by
  induction h with
  | nil => rfl
  | cons hcd _ ih =>
    cases h' with
    | cons hdc rest => rw [Category.under_antisymm hp hcd hdc, ih rest]

theorem Beneath.antisymm (hp : p.Layered) (h : f.Beneath p g) (h' : g.Beneath p f) : f = g := by
  have hlocals : f.locals = g.locals := h.locals.antisymm hp h'.locals
  have hstack : f.stack = g.stack := stack_antisymm hp h.stack h'.stack
  cases f
  cases g
  rw [Frame.mk.injEq]
  exact ⟨hlocals, hstack⟩

/-- **A join** of two frames is above both -/
theorem beneath_merge (h : f.merge p g = .ok e) : f.Beneath p e ∧ g.Beneath p e := by
  unfold merge at h
  split at h
  · rename_i hheight
    obtain ⟨stack, hstack, h⟩ := Effect.bind_eq_ok h
    obtain rfl := Except.ok.inj h
    obtain ⟨hf, hg⟩ := under_mergeStack hheight hstack
    obtain ⟨hf', hg'⟩ := LocalsBeneath.merge_upper p f.locals g.locals
    exact ⟨⟨hf', hf⟩, ⟨hg', hg⟩⟩
  · exact absurd h (by simp)

/-- two frames below a third one have a join below it -/
theorem merge_beneath (hp : p.Layered) (hf : f.Beneath p u) (hg : g.Beneath p u) :
    ∃ e, f.merge p g = .ok e ∧ e.Beneath p u := by
  obtain ⟨stack, hstack, hunder⟩ := mergeStack_least hp hf.stack hg.stack
  have hheight : f.stack.length = g.stack.length := hf.stack.length_eq.trans hg.stack.length_eq.symm
  refine ⟨⟨mergeLocals p f.locals g.locals, stack⟩, ?_, .merge_least hp hf.locals hg.locals, hunder⟩
  unfold merge
  rw [if_pos hheight, hstack]
  rfl

theorem toOption_merge : (f.merge p g).toOption = some e ↔ f.merge p g = .ok e := by
  cases f.merge p g with
  | error _ => simp [Except.toOption]
  | ok _ => simp [Except.toOption]

theorem partialJoin (hp : p.Layered) : PartialJoin (Beneath p) fun f g => (f.merge p g).toOption where
  refl := .refl p
  trans := .trans hp
  antisymm := Beneath.antisymm hp
  upper h := beneath_merge (toOption_merge.1 h)
  least hf hg := by
    obtain ⟨e, he, hunder⟩ := merge_beneath hp hf hg
    exact ⟨e, toOption_merge.2 he, hunder⟩

/-- what a frame absorbs is what is below it, however many locals there are -/
theorem absorbs_iff_beneath (hp : p.Layered) : f.Absorbs p g ↔ g.Beneath p f :=
  toOption_merge.symm.trans (partialJoin hp).eq_left_iff

end Frame

/-! ## any order -/

namespace Program

/-- what is to be looked at to see that no class extends an array type -/
theorem superclass_not_array (h : ∀ s ∈ p.declaredTypes, ∀ t ∈ p.superOf? s, isArrayType t = false) :
    ∀ s t, p.Extends s t → isArrayType t = false := by
  intro s t hst
  cases harray : isArrayType s with
  | false => exact h s (mem_declaredTypes harray hst) t hst
  | true =>
    have hroot : some objectType = some t := (superOf?_array harray).symm.trans hst
    rw [← Option.some.inj hroot]
    decide

/-- what is below in the order of types may be used for what is above -/
theorem Layered.assignable_of_under (hp : p.Layered) (hflat : ∀ s t, p.Extends s t → isArrayType t = false)
    {s t : String} (h : p.Under s t) : p.isAssignable s t = true := by
  rcases h with rfl | rfl | ⟨-, hchain⟩
  · exact p.isAssignable_self s
  · exact p.isAssignable_object s
  · exact assignable_of_chain hp.root (fun s t _ hst => hflat s t hst) hchain

/-- **In a layered hierarchy** types and frames are joined in any order: the outcome of several joins does not
depend on order and brackets, and there is none in one order exactly if there is none in any other.  Either type
may be used for the common supertype of both. -/
theorem Layered.joins_order_free (hp : p.Layered) (hflat : ∀ s t, p.Extends s t → isArrayType t = false) :
    OrderFree (fun s t => some (p.commonSupertype s t)) ∧
      (∀ s t, p.isAssignable s (p.commonSupertype s t) = true ∧ p.isAssignable t (p.commonSupertype s t) = true) ∧
      OrderFree fun f g : Frame => (f.merge p g).toOption := by
  refine ⟨hp.partialJoin.orderFree, fun s t => ?_, (Frame.partialJoin hp).orderFree⟩
  obtain ⟨hs, ht⟩ := Layered.under_common p s t
  exact ⟨hp.assignable_of_under hflat hs, hp.assignable_of_under hflat ht⟩

/-- two classes with a common superclass below the root, one of which has a subclass -/
def forked : Program where
  classes := [("demo/A", ⟨"demo/A", some objectType, [], [], []⟩), ("demo/B", ⟨"demo/B", some "demo/A", [], [], []⟩),
    ("demo/C", ⟨"demo/C", some "demo/A", ["java/lang/Runnable"], [], []⟩),
    ("demo/D", ⟨"demo/D", some "demo/C", [], [], []⟩)]

theorem layered_forked : forked.Layered := .of_declared (by decide) (by decide +kernel)

theorem flat_forked : ∀ s t, forked.Extends s t → isArrayType t = false :=
  superclass_not_array (by decide +kernel)

theorem joins_order_free_forked :
    OrderFree (fun s t => some (forked.commonSupertype s t)) ∧
      (∀ s t, forked.isAssignable s (forked.commonSupertype s t) = true ∧
        forked.isAssignable t (forked.commonSupertype s t) = true) ∧
      OrderFree fun f g : Frame => (f.merge forked g).toOption :=
  layered_forked.joins_order_free flat_forked

/-- in one order two subclasses meet first, in the other one of them meets what is no class of the program -/
example : (forked.commonSupertype (forked.commonSupertype "demo/B" "demo/D") "other/E",
    forked.commonSupertype "demo/B" (forked.commonSupertype "demo/D" "other/E")) = (objectType, objectType) := by
  decide

end Program

end

end Resumable
