import Resumable.Proofs.Framed
import Resumable.Proofs.RoundTrip
import Resumable.Proofs.Taken

/-!
# Injected code on frames

What the pieces of injected code do to a frame.  Restoring starts from the frame at the start of the
method and ends below the frame of the call: its locals come back where they hold values, with the types
they had, and its operands too, or zeros in their places.  Staging ends in the frame that it starts in,
and saving takes all operands away and leaves the locals alone.

* `Frame.apply_push`, … : the methods that injected code calls;
* `Frame.Runs.restoreCode` : restoring;
* `Frame.Runs.stageCode` : staging;
* `Frame.Runs.savedCode` : saving.
-/

namespace Resumable
namespace Frame

section
variable {f : Frame} {c : Category} {k : Kind} {ks : List Kind}

/-! ## operands -/

theorem popKind_push (h : c.kind? = some k) : (f.push c).popKind k = .ok (c, f) := by
  unfold popKind
  rw [pop_push]
  exact if_pos h

theorem popKinds_push (h : c.kind? = some k) : (f.push c).popKinds (k :: ks) = f.popKinds ks := by
  rw [popKinds, popKind_push h]
  rfl

theorem popNarrow_push (h : c.width = 1) : (f.push c).popNarrow = .ok (c, f) := by
  unfold popNarrow
  rw [pop_push]
  exact if_pos h

theorem apply_pop_push (h : c.width = 1) : (f.push c).apply .pop = .ok f := by
  have happly : (f.push c).apply .pop = (f.push c).popNarrow >>= fun r => .ok r.2 := rfl
  rw [happly, popNarrow_push h]
  rfl

/-! ## calls -/

theorem apply_push (h : c.kind? = some k) : (f.push c).apply (Intrinsic.push k).call = .ok f := by
  have hcall : (f.push c).apply (Intrinsic.push k).call = (f.push c).popKinds [k] >>= .ok := by
    cases k <;> rfl
  rw [hcall, popKinds_push h]
  rfl

theorem apply_stage (h : c.kind? = some k) : (f.push c).apply (Intrinsic.stage k).call = .ok f := by
  have hcall : (f.push c).apply (Intrinsic.stage k).call = (f.push c).popKinds [k] >>= .ok := by
    cases k <;> rfl
  rw [hcall, popKinds_push h]
  rfl

theorem apply_pushCompanion (h : c.kind? = some .ref) :
    (f.push c).apply Intrinsic.pushCompanion.call = .ok f := by
  have hcall : (f.push c).apply Intrinsic.pushCompanion.call = (f.push c).popKinds [.ref] >>= .ok :=
    rfl
  rw [hcall, popKinds_push h]
  rfl

theorem apply_popStored (f : Frame) (k : Kind) :
    f.apply (Intrinsic.pop k).call = .ok (f.push (.ofKind k)) := by
  cases k <;> rfl

theorem apply_peekStaged (f : Frame) (k : Kind) :
    (f.push .int).apply (Intrinsic.peekStaged k).call = .ok (f.push (.ofKind k)) := by
  cases k <;> rfl

/-- the category of the zero of a kind -/
def zeroCategory : Kind → Category
  | .ref => .null
  | k => .ofKind k

/-- what stands in the place of an argument when a call is made again -/
def againCategory (unpatchable : Bool) (c : Category) : Category :=
  if unpatchable then c else (c.kind?.map zeroCategory).getD c

/-! ## single values -/

namespace Runs

/-- a value that comes back as one of its kind gets the type it had -/
theorem castCode (h : c.kind? = some k) (hnull : c ≠ .null) :
    (f.push (.ofKind k)).Runs (k.castCode c) (f.push c) := by
  cases c with
  | null => exact absurd rfl hnull
  | ref t =>
    obtain rfl : Kind.ref = k := Option.some.inj h
    by_cases ht : t = objectType
    · have hcode : Kind.castCode .ref (.ref t) = [] := if_pos ht
      rw [hcode, ht]
      exact .nil _
    · have hcode : Kind.castCode .ref (.ref t) = [.checkCast t] := if_neg ht
      rw [hcode]
      exact .one rfl rfl
  | empty | returnAddress => exact absurd h (by simp [Category.kind?])
  | int | long | float | double =>
    obtain rfl := Option.some.inj h
    exact .nil _

theorem popCode (h : c.kind? = some k) (hnull : c ≠ .null) : f.Runs (k.popCode c) (f.push c) :=
  .cons rfl (apply_popStored f k) (castCode h hnull)

theorem peekCode (n : Nat) (h : c.kind? = some k) (hnull : c ≠ .null) :
    f.Runs (k.peekCode n c) (f.push c) :=
  .cons rfl rfl (.cons rfl (apply_peekStaged f k) (castCode h hnull))

theorem restoreValue (h : c.kind? = some k) : f.Runs (restoreValue c) (f.push c) := by
  cases c with
  | null => exact .one rfl rfl
  | empty | returnAddress => exact absurd h (by simp [Category.kind?])
  | int | long | float | double | ref =>
    obtain rfl := Option.some.inj h
    exact popCode rfl (by simp)

theorem zeroInsn (f : Frame) (k : Kind) : f.Runs [k.zeroInsn] (f.push (zeroCategory k)) := by
  cases k <;> exact .one rfl rfl

theorem restoreArg (unpatchable : Bool) (h : c.kind? = some k) :
    f.Runs (restoreArg unpatchable c) (f.push (againCategory unpatchable c)) := by
  unfold Resumable.restoreArg againCategory
  split
  · exact restoreValue h
  · rw [h]
    exact zeroInsn f k

theorem saveValue (h : c.kind? = some k) : (f.push c).Runs (saveValue c) f := by
  unfold Resumable.saveValue
  rw [h]
  dsimp only
  split
  · rename_i hnull
    rw [hnull]
    exact .one rfl (apply_pop_push rfl)
  · exact .one rfl (apply_push h)

theorem stageValue (h : c.kind? = some k) : (f.push c).Runs (stageValue c) f := by
  unfold Resumable.stageValue
  rw [h]
  dsimp only
  split
  · rename_i hnull
    rw [hnull]
    exact .one rfl (apply_pop_push rfl)
  · exact .one rfl (apply_stage h)

theorem unstageValue (before : List Category) (h : c.kind? = some k) :
    f.Runs (unstageValue before c) (f.push c) := by
  unfold Resumable.unstageValue
  rw [h]
  dsimp only
  split
  · rename_i hnull
    rw [hnull]
    exact .one rfl rfl
  · rename_i hnull
    exact peekCode _ h hnull

end Runs

end

/-! ## many values -/

section
variable {ls st : List Category} {cs : List Category} {g : Category → List Insn}

/-- code that pushes a value for each category -/
theorem Runs.pushes {r : Category → Category}
    (h : ∀ c ∈ cs, ∀ f : Frame, f.Runs (g c) (f.push (r c))) :
    (⟨ls, st⟩ : Frame).Runs (cs.flatMap g) ⟨ls, (cs.map r).reverse ++ st⟩ := by
  induction cs generalizing st with
  | nil => exact .nil _
  | cons c cs ih =>
    rw [List.flatMap_cons, List.map_cons, List.reverse_cons, List.append_assoc]
    exact (h c List.mem_cons_self _).append (ih fun c hc => h c (List.mem_cons_of_mem _ hc))

/-- code that takes a value of each category -/
theorem Runs.takes (h : ∀ c ∈ cs, ∀ f : Frame, (f.push c).Runs (g c) f) :
    (⟨ls, cs ++ st⟩ : Frame).Runs (cs.flatMap g) ⟨ls, st⟩ := by
  induction cs with
  | nil => exact .nil _
  | cons c cs ih =>
    have hone : (⟨ls, c :: cs ++ st⟩ : Frame).Runs (g c) ⟨ls, cs ++ st⟩ :=
      h c List.mem_cons_self ⟨ls, cs ++ st⟩
    rw [List.flatMap_cons]
    exact hone.append (ih fun c hc => h c (List.mem_cons_of_mem _ hc))

/-- pieces of code that leave a frame as it is -/
theorem Runs.stays {α : Type} {xs : List α} {g : α → List Insn} {f : Frame}
    (h : ∀ x ∈ xs, f.Runs (g x) f) : f.Runs (xs.flatMap g) f := by
  induction xs with
  | nil => exact .nil f
  | cons x xs ih =>
    rw [List.flatMap_cons]
    exact (h x List.mem_cons_self).append (ih fun x hx => h x (List.mem_cons_of_mem _ hx))

theorem Runs.unstageFrom (before : List Category) (h : ∀ c ∈ cs, ∃ k, c.kind? = some k) :
    (⟨ls, st⟩ : Frame).Runs (unstageFrom before cs) ⟨ls, cs.reverse ++ st⟩ := by
  induction cs generalizing before st with
  | nil => exact .nil _
  | cons c cs ih =>
    obtain ⟨k, hk⟩ := h c List.mem_cons_self
    rw [Resumable.unstageFrom, List.reverse_cons, List.append_assoc]
    exact (Runs.unstageValue before hk).append (ih _ fun c hc => h c (List.mem_cons_of_mem _ hc))

end

/-! ## locals -/

/-- the slots of locals from one on -/
def slottedFrom (n : Nat) (cs : List Category) : List (UInt16 × Category) :=
  (cs.zipIdx n).map fun e => (UInt16.ofNat e.2, e.1)

theorem slotted_eq (cs : List Category) : slotted cs = slottedFrom 0 cs := rfl

theorem slottedFrom_cons (n : Nat) (c : Category) (cs : List Category) :
    slottedFrom n (c :: cs) = (UInt16.ofNat n, c) :: slottedFrom (n + 1) cs := rfl

section
variable {f g : Frame} {c : Category} {cs : List Category} {k : Kind} {n i : Nat}

theorem toNat_slot (h : n < 65536) : (UInt16.ofNat n).toNat = n := by
  rw [UInt16.toNat_ofNat']
  exact Nat.mod_eq_of_lt h

theorem width_pos (c : Category) : 0 < c.width := by cases c <;> simp [Category.width]

/-- one local comes back -/
theorem Runs.restoreLocal (hk : c.kind? = some k) (hnull : c ≠ .null) (hn : n < 65536)
    (hfits : n + c.width ≤ f.locals.length) :
    f.Runs (restoreLocal (UInt16.ofNat n) c) { f with locals := putLocal f.locals n c } := by
  have hstore : (f.push c).apply (.store k (UInt16.ofNat n)) =
      .ok { f with locals := putLocal f.locals n c } := by
    show ((f.push c).popKind k >>= fun e => e.2.setLocal (UInt16.ofNat n) e.1) = _
    rw [popKind_push hk]
    show f.setLocal (UInt16.ofNat n) c = _
    unfold setLocal
    rw [toNat_slot hn]
    exact if_pos hfits
  unfold Resumable.restoreLocal
  rw [hk]
  exact (Runs.popCode hk hnull).append (.one rfl hstore)

/-- **Locals come back** from the last to the first: what has come back stays -/
theorem Runs.restoreLocals (hwide : WideOk cs) (hnull : ∀ c ∈ cs, c ≠ .null)
    (hlength : n + cs.length = f.locals.length) (hslots : f.locals.length ≤ 65536) :
    ∃ g, f.Runs ((slottedFrom n cs).reverse.flatMap fun e => Resumable.restoreLocal e.1 e.2) g ∧
      g.stack = f.stack ∧ g.locals.length = f.locals.length ∧
      ∀ (j : Nat) (c : Category) (k : Kind), cs[j]? = some c → c.kind? = some k →
        g.locals[n + j]? = some c := by
  induction cs generalizing n with
  | nil => exact ⟨f, .nil f, rfl, rfl, fun j c k hc _ => absurd hc (by simp)⟩
  | cons c cs ih =>
    rw [List.length_cons] at hlength
    obtain ⟨g, hrun, hstack, hlen, hback⟩ := ih (n := n + 1) hwide.tail
      (fun c hc => hnull c (List.mem_cons_of_mem _ hc)) (by omega)
    rw [slottedFrom_cons, List.reverse_cons, List.flatMap_append, List.flatMap_singleton]
    have hshift {j : Nat} {d : Category} {kd : Kind} (hd : cs[j]? = some d) (hkd : d.kind? = some kd) :
        g.locals[n + (j + 1)]? = some d := by
      rw [show n + (j + 1) = n + 1 + j by omega]
      exact hback j d kd hd hkd
    cases hk : c.kind? with
    | none =>
      refine ⟨g, ?_, hstack, hlen, fun j d kd hd hkd => ?_⟩
      · unfold Resumable.restoreLocal at hrun ⊢
        rw [hk]
        exact hrun.append (.nil g)
      · cases j with
        | zero =>
          obtain rfl : c = d := by simpa using hd
          exact absurd (hk.symm.trans hkd) (by simp)
        | succ j => exact hshift hd hkd
    | some k =>
      have hbehind (h2 : c.width = 2) : ∃ d, cs[0]? = some d ∧ d.kind? = none := hwide 0 c rfl h2
      have hfits : n + c.width ≤ g.locals.length := by
        by_cases h2 : c.width = 2
        · obtain ⟨d, hd, -⟩ := hbehind h2
          have hlt := (List.getElem?_eq_some_iff.1 hd).1
          omega
        · have h1 : c.width = 1 := by cases c <;> first | rfl | exact absurd rfl h2
          omega
      have hlt : n < g.locals.length := by
        have := width_pos c
        omega
      refine ⟨_, hrun.append (Runs.restoreLocal hk (hnull c List.mem_cons_self) (by omega) hfits),
        hstack, by rw [length_putLocal]; exact hlen, fun j d kd hd hkd => ?_⟩
      cases j with
      | zero =>
        obtain rfl : c = d := by simpa using hd
        exact getElem?_putLocal_self hlt
      | succ j =>
        have hd : cs[j]? = some d := hd
        -- the slot behind a wide value holds none
        have hne : c.width = 2 → n + (j + 1) ≠ n + 1 := by
          intro h2 heq
          obtain rfl : j = 0 := by omega
          obtain ⟨e, he, hnone⟩ := hbehind h2
          obtain rfl := Option.some.inj (he.symm.trans hd)
          exact absurd (hnone.symm.trans hkd) (by simp)
        dsimp only
        rw [getElem?_putLocal_of_ne (by omega) hne]
        rcases getElem?_cleared g.locals n (n + (j + 1)) with heq | ⟨-, heq, -⟩
        · rw [heq]
          exact hshift hd hkd
        · omega

/-- one local is saved -/
theorem Runs.saveLocal (hn : n < 65536) (hc : f.locals[n]? = some c) :
    f.Runs (saveLocal (UInt16.ofNat n) c) f := by
  unfold Resumable.saveLocal
  split
  · rename_i k hk
    have hload : f.apply (.load k (UInt16.ofNat n)) = .ok (f.push c) := by
      show (f.getLocal (UInt16.ofNat n) >>= fun c => if c.kind? = some k then .ok (f.push c) else
        .error (.typeMismatch (.kind k) c)) = _
      unfold getLocal
      rw [toNat_slot hn, hc]
      exact if_pos hk
    exact .cons rfl hload (.one rfl (apply_push hk))
  · exact .nil f

/-- **Locals are saved** and stay as they are -/
theorem Runs.saveLocals (hslots : f.locals.length ≤ 65536) :
    f.Runs ((slotted f.locals).flatMap fun e => Resumable.saveLocal e.1 e.2) f := by
  refine .stays fun e he => ?_
  obtain ⟨⟨c, n⟩, hmem, rfl⟩ := List.mem_map.1 he
  have hc := List.mem_zipIdx_iff_getElem?.1 hmem
  have hlt := (List.getElem?_eq_some_iff.1 hc).1
  exact .saveLocal (by omega) hc

end

/-! ## below a frame -/

/-- a frame that can be saved: no local is only known to be null, and nothing is an address -/
structure Definite (f : Frame) : Prop where
  locals : ∀ c ∈ f.locals, c ≠ .null ∧ c ≠ .returnAddress
  stack : Category.returnAddress ∉ f.stack

section
variable {p : Program} {f g : Frame}

theorem mergeCategory_zero {c : Category} {k : Kind} (h : c.kind? = some k) :
    mergeCategory p c (zeroCategory k) = some c := by
  cases c with
  | empty | returnAddress => exact absurd h (by simp [Category.kind?])
  | _ =>
    obtain rfl := Option.some.inj h
    rfl

theorem mergeCategory_again (unpatchable : Bool) {c : Category} {k : Kind} (h : c.kind? = some k) :
    mergeCategory p c (againCategory unpatchable c) = some c := by
  unfold againCategory
  split
  · exact mergeCategory_self p c
  · rw [h]
    exact mergeCategory_zero h

theorem mergeStack_absorbs {cs ds : List Category}
    (h : List.Forall₂ (fun c d => mergeCategory p c d = some c) cs ds) :
    mergeStack p cs ds = .ok cs := by
  induction h with
  | nil => rfl
  | cons hcd _ ih =>
    rw [mergeStack, ih]
    dsimp only [bind, Except.bind]
    rw [hcd]

/-- what a frame takes for granted is so in a frame below it -/
theorem absorbs_of (hlength : f.locals.length = g.locals.length)
    (hlocals : ∀ (i : Nat) (c : Category) (k : Kind), f.locals[i]? = some c →
      c.kind? = some k → g.locals[i]? = some c)
    (hempty : ∀ c ∈ f.locals, c.kind? = none → c = .empty)
    (hstack : List.Forall₂ (fun c d => mergeCategory p c d = some c) f.stack g.stack) :
    f.Absorbs p g := by
  have hmerged : mergeLocals p f.locals g.locals = f.locals := by
    apply List.ext_getElem?
    intro i
    rw [getElem?_mergeLocals hlength]
    cases hc : f.locals[i]? with
    | none => rfl
    | some c =>
      have hlt := (List.getElem?_eq_some_iff.1 hc).1
      obtain ⟨d, hd⟩ : ∃ d, g.locals[i]? = some d :=
        ⟨_, List.getElem?_eq_getElem (hlength ▸ hlt)⟩
      rw [hd]
      show some ((mergeCategory p c d).getD .empty) = some c
      cases hk : c.kind? with
      | some k =>
        obtain rfl := Option.some.inj (hd.symm.trans (hlocals i c k hc hk))
        rw [mergeCategory_self]
        rfl
      | none =>
        obtain rfl := hempty c (List.mem_of_getElem? hc) hk
        cases d <;> rfl
  unfold Absorbs Frame.merge
  rw [if_pos hstack.length_eq, mergeStack_absorbs hstack]
  dsimp only [bind, Except.bind]
  rw [hmerged]

end

/-! ## restoring, staging, saving -/

section
variable {p : Program} {f : Frame} {s : CallShape} {n : Nat}

/-- **Restoring** ends below the frame of the call -/
theorem Runs.restoreCode (unpatchable : Bool) {entry : Frame} (hf : f.Sound n)
    (hdefinite : f.Definite) (hs : s.Cuts f) (hentry : entry.locals.length = n)
    (hstack : entry.stack = []) (hslots : n ≤ 65536) :
    ∃ g, entry.Runs (restoreCode unpatchable f s) g ∧ f.Absorbs p g := by
  have hkinds {c : Category} (hc : c ∈ s.window) : ∃ k, c.kind? = some k :=
    hs.window_kind hf.loaded c hc
  obtain ⟨⟨ls, st⟩, hlocals, hst, hlength, hback⟩ := Runs.restoreLocals (f := entry) (n := 0)
    hf.wide (fun c hc => (hdefinite.locals c hc).1) (by rw [hentry, hf.length]; omega)
    (by rw [hentry]; exact hslots)
  obtain rfl : st = [] := hst.trans hstack
  have hreceiver : ∀ c ∈ s.receiver.toList, c ∈ s.window := fun c hc =>
    CallShape.receiver_mem (Option.mem_toList.1 hc)
  have hargs : ∀ c ∈ s.args, c ∈ s.window := by
    intro c hc
    rw [← Takes.receiver_append_args]
    exact List.mem_append_right _ hc
  have hpush (cs : List Category) (hcs : ∀ c ∈ cs, ∃ k, c.kind? = some k) (st : List Category) :
      (⟨ls, st⟩ : Frame).Runs (cs.flatMap Resumable.restoreValue) ⟨ls, cs.reverse ++ st⟩ := by
    have hrun : (⟨ls, st⟩ : Frame).Runs (cs.flatMap Resumable.restoreValue)
        ⟨ls, (cs.map id).reverse ++ st⟩ := Runs.pushes fun c hc f' =>
      Runs.restoreValue (f := f') (hcs c hc).choose_spec
    rwa [List.map_id] at hrun
  have hbelow : (⟨ls, []⟩ : Frame).Runs (s.below.reverse.flatMap Resumable.restoreValue)
      ⟨ls, s.below⟩ := by
    have hrun := hpush s.below.reverse
      (fun c hc => hs.below_kind hf.loaded c (List.mem_reverse.1 hc)) []
    rwa [List.reverse_reverse, List.append_nil] at hrun
  have hpushed := hpush s.receiver.toList (fun c hc => hkinds (hreceiver c hc)) s.below
  have hmade : (⟨ls, s.receiver.toList.reverse ++ s.below⟩ : Frame).Runs
      (s.args.flatMap (Resumable.restoreArg unpatchable)) ⟨ls,
        (s.args.map (againCategory unpatchable)).reverse ++ (s.receiver.toList.reverse ++ s.below)⟩ :=
    .pushes fun c hc f' => .restoreArg unpatchable (hkinds (hargs c hc)).choose_spec
  refine ⟨⟨ls, (s.args.map (againCategory unpatchable)).reverse ++
    (s.receiver.toList.reverse ++ s.below)⟩, ((hlocals.append hbelow).append hpushed).append hmade,
    ?_⟩
  refine absorbs_of (by rw [hf.length, ← hentry]; exact hlength.symm) (fun i c k hc hk => ?_)
    (fun c hc hk => ?_) ?_
  · have hci := hback i c k hc hk
    rwa [Nat.zero_add] at hci
  · cases c with
    | empty => rfl
    | returnAddress => exact absurd rfl (hdefinite.locals _ hc).2
    | _ => exact absurd hk (by simp [Category.kind?])
  · have hsame (cs : List Category) :
        List.Forall₂ (fun c d => mergeCategory p c d = some c) cs cs :=
      List.forall₂_same.2 fun c _ => mergeCategory_self p c
    have hagain (cs : List Category) (hcs : ∀ c ∈ cs, ∃ k, c.kind? = some k) :
        List.Forall₂ (fun c d => mergeCategory p c d = some c) cs
          (cs.map (againCategory unpatchable)) := by
      rw [List.forall₂_map_right_iff]
      exact List.forall₂_same.2 fun c hc => mergeCategory_again unpatchable (hcs c hc).choose_spec
    rw [hs.stack, ← Takes.receiver_append_args, List.reverse_append, List.append_assoc,
      ← List.map_reverse]
    exact List.rel_append
      (hagain _ fun c hc => hkinds (hargs c (List.mem_reverse.1 hc)))
      (List.rel_append (hsame _) (hsame _))

/-- **Staging** puts the operands of the call back -/
theorem Runs.stageCode (hf : f.Sound n) (hs : s.Cuts f) :
    f.Runs (s.window.reverse.flatMap Resumable.stageValue ++ Resumable.unstageFrom [] s.window) f := by
  have hkinds := hs.window_kind hf.loaded
  obtain ⟨locals, stack⟩ := f
  obtain rfl : stack = s.window.reverse ++ s.below := hs.stack
  have haside : (⟨locals, s.window.reverse ++ s.below⟩ : Frame).Runs
      (s.window.reverse.flatMap Resumable.stageValue) ⟨locals, s.below⟩ :=
    .takes fun c hc f' => .stageValue (hkinds c (List.mem_reverse.1 hc)).choose_spec
  exact haside.append (.unstageFrom [] hkinds)

/-- what a call has returned is dropped -/
theorem Runs.discard (e : Frame) (ret : Option FieldType) :
    (e.pushResult ret).Runs ((ret.map FieldType.kind).map Kind.discardInsn).toList e := by
  cases ret with
  | none => exact .nil e
  | some t => cases t <;> exact .one rfl rfl

/-- the save block up to the return -/
def savedCode (a : Analysis) (site : Site) (f : Frame) (s : CallShape) : List Insn :=
  (s.result.map Kind.discardInsn).toList ++
  (if site.unpatchable then [Intrinsic.discardCompanion.call, Intrinsic.commitStaging.call]
    else []) ++
  s.below.flatMap saveValue ++
  (slotted f.locals).flatMap (fun e => saveLocal e.1 e.2) ++
  [.intConst (Int32.ofNat site.index), Intrinsic.pushState.call] ++
  companionCode a.isStatic a.rootEntry

theorem saveCode_eq (a : Analysis) (ret : Option Kind) (site : Site) (f : Frame) (s : CallShape) :
    saveCode a ret site f s = savedCode a site f s ++ defaultReturn ret := rfl

/-- the reference for whoever calls the method again -/
theorem Runs.companionCode {f : Frame} {isStatic : Bool} (rootEntry : Bool)
    (hreceiver : isStatic = false → ∃ c, f.locals[0]? = some c ∧ c.kind? = some .ref) :
    f.Runs (companionCode isStatic rootEntry) f := by
  cases isStatic with
  | true =>
    cases rootEntry with
    | false => exact .nil f
    | true => exact .cons rfl rfl (.one rfl (apply_pushCompanion (c := .null) rfl))
  | false =>
    obtain ⟨c, hc, hk⟩ := hreceiver rfl
    have hload : f.apply (.load .ref 0) = .ok (f.push c) := by
      show (f.getLocal 0 >>= fun c => if c.kind? = some .ref then .ok (f.push c) else
        .error (.typeMismatch (.kind .ref) c)) = _
      unfold getLocal
      rw [show f.locals[(0 : UInt16).toNat]? = some c from hc]
      exact if_pos hk
    exact .cons rfl hload (.one rfl (apply_pushCompanion hk))

/-- **Saving** takes all operands away -/
theorem Runs.savedCode {a : Analysis} {site : Site} {ret : Option FieldType} (hf : f.Sound n)
    (hs : s.Cuts f) (hslots : n ≤ 65536) (hresult : s.result = ret.map FieldType.kind)
    (hreceiver : a.isStatic = false → ∃ c, f.locals[0]? = some c ∧ c.kind? = some .ref) :
    ((⟨f.locals, s.below⟩ : Frame).pushResult ret).Runs (savedCode a site f s) ⟨f.locals, []⟩ := by
  have hdiscard := Runs.discard ⟨f.locals, s.below⟩ ret
  have hcommit : (⟨f.locals, s.below⟩ : Frame).Runs (if site.unpatchable then
      [Intrinsic.discardCompanion.call, Intrinsic.commitStaging.call] else [])
        ⟨f.locals, s.below⟩ := by
    split
    · exact .cons rfl rfl (.one rfl rfl)
    · exact .nil _
  have hbelow : (⟨f.locals, s.below⟩ : Frame).Runs (s.below.flatMap Resumable.saveValue)
      ⟨f.locals, []⟩ := by
    have hrun : (⟨f.locals, s.below ++ []⟩ : Frame).Runs (s.below.flatMap Resumable.saveValue)
        ⟨f.locals, []⟩ := Runs.takes fun c hc f' => .saveValue (hs.below_kind hf.loaded c hc).choose_spec
    rwa [List.append_nil] at hrun
  have hlocals := Runs.saveLocals (f := ⟨f.locals, []⟩) (by rw [hf.length]; exact hslots)
  have hstate : (⟨f.locals, []⟩ : Frame).Runs
      [.intConst (Int32.ofNat site.index), Intrinsic.pushState.call] ⟨f.locals, []⟩ :=
    .cons rfl rfl (.one rfl rfl)
  have hcompanion : (⟨f.locals, []⟩ : Frame).Runs _ _ := .companionCode a.rootEntry hreceiver
  unfold Frame.savedCode
  rw [hresult]
  exact ((((hdiscard.append hcommit).append hbelow).append hlocals).append hstate).append hcompanion

end

end Frame
end Resumable
