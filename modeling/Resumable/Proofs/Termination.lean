import Mathlib.Algebra.GroupWithZero.Nat
import Resumable.Proofs.Ancestors
import Resumable.Proofs.Heights
import Resumable.Proofs.Joins

/-!
# The work list gets empty

A join may take a type to another one, and further joins may take that on.  The common supertype is looked up
in one direction only, so in a hierarchy with cycles this may lead back; where it does not, a type has a rank
that falls with every move.

Where joins of types never lead back, a frame that changes gets lighter: a local gets lost or a reference gets a
type of lower rank.  An instruction that gets its first frame cost more before than any frame weighs.  So
each step of the work list takes the weight of all frames and of what is pending down by one.

* `Program.Moves`, `Program.Settling` : a join takes one type to another, and joins never lead back;
* `Program.rank`, `Program.rank_lt`, `Program.rank_le` : how many types joins may still lead to;
* `Program.Rooted.settling` : hierarchies without cycles below the root;
* `Category.weight`, `Frame.weight`, `Frame.merge_weight` : weights fall where joins change something;
* `Flow.Halts` : the work list gets empty, or fails, after so many steps;
* `Flow.load`, `Flow.Bounded`, `Flow.step_load` : the weight of a state falls with every step;
* `Flow.halts_start` : how many steps it takes.
-/

namespace Resumable

namespace Program

variable {p : Program} {s t u : String}

/-- a join takes one type to another -/
def Moves (p : Program) (s t : String) : Prop := ∃ u, p.commonSupertype s u = t ∧ t ≠ s

/-- joins never lead back to a type -/
def Settling (p : Program) : Prop := ∀ s, ¬ Relation.TransGen p.Moves s s

theorem mem_superNames_chain (h : t ∈ p.superclassChain s) : t = s ∨ t ∈ p.superNames :=
  mem_of_chain (T := fun t => t = s ∨ t ∈ p.superNames) (fun _ _ _ hw => .inr (mem_superNames hw)) (.inl rfl) t h

theorem object_mem_superNames (p : Program) : objectType ∈ p.superNames := by
  unfold superNames
  exact List.mem_append_left _ List.mem_cons_self

/-- joins lead to superclasses -/
theorem Moves.mem (h : p.Moves s t) : t ∈ p.superNames := by
  obtain ⟨u, hu, hne⟩ := h
  unfold commonSupertype at hu
  split at hu
  · exact absurd hu.symm hne
  · split at hu
    · rw [← hu]
      exact p.object_mem_superNames
    · dsimp only at hu
      cases hfind : (p.superclassChain u).find? fun v => v ∈ p.superclassChain s with
      | none =>
        rw [hfind] at hu
        rw [← hu]
        exact p.object_mem_superNames
      | some v =>
        rw [hfind] at hu
        obtain rfl : v = t := hu
        have hv : v ∈ p.superclassChain s := by simpa using List.find?_some hfind
        exact (mem_superNames_chain hv).resolve_left hne

/-! ## ranks -/

open Classical in
/-- how many types joins may lead to -/
noncomputable def rank (p : Program) (s : String) : Nat :=
  (p.superNames.toFinset.filter fun t => Relation.TransGen p.Moves s t).card

theorem rank_le (p : Program) (s : String) : p.rank s ≤ p.superNames.length := by
  classical
  exact (Finset.card_filter_le _ _).trans (List.toFinset_card_le _)

/-- the rank falls where joins lead -/
theorem Settling.rank_lt (hp : p.Settling) (h : p.Moves s t) : p.rank t < p.rank s := by
  classical
  refine Finset.card_lt_card ((Finset.ssubset_iff_of_subset fun u hu => ?_).2 ⟨t, ?_, fun ht => ?_⟩)
  · rw [Finset.mem_filter] at hu ⊢
    exact ⟨hu.1, Relation.TransGen.head h hu.2⟩
  · rw [Finset.mem_filter, List.mem_toFinset]
    exact ⟨h.mem, .single h⟩
  · exact hp t (Finset.mem_filter.1 ht).2

/-- **Without cycles** below the root joins lead to types that are less high -/
theorem Rooted.settling (hp : p.Rooted) : p.Settling := by
  have hlower {s t : String} (h : Relation.TransGen p.Moves s t) : p.height t < p.height s := by
    have hmove {s t : String} (h : p.Moves s t) : p.height t < p.height s := by
      obtain ⟨u, rfl, hne⟩ := h
      exact hp.height_common_lt hne
    induction h with
    | single h => exact hmove h
    | tail _ h ih => exact (hmove h).trans ih
  intro s hs
  exact Nat.lt_irrefl _ (hlower hs)

end Program

/-! ## weights -/

namespace Category

/-- how often joins may still change a category -/
noncomputable def weight (p : Program) : Category → Nat
  | .empty => 0
  | .null => p.superNames.length + 2
  | .ref t => p.rank t + 1
  | _ => 1

section
variable {p : Program} {c d e : Category}

theorem weight_le (p : Program) (c : Category) : c.weight p ≤ p.superNames.length + 2 := by
  cases c with
  | ref t =>
    have hrank := p.rank_le t
    show p.rank t + 1 ≤ _
    omega
  | null => exact Nat.le_refl _
  | empty => exact Nat.zero_le _
  | _ =>
    show 1 ≤ _
    omega

theorem weight_pos (h : c ≠ .empty) : 0 < c.weight p := by
  cases c with
  | empty => exact absurd rfl h
  | _ => exact Nat.succ_pos _

/-- one category is another one, or is lighter -/
def Lighter (p : Program) (c e : Category) : Prop := e = c ∨ e.weight p < c.weight p

theorem merge_lighter (hp : p.Settling) (h : mergeCategory p c d = some e) : c.Lighter p e := by
  unfold mergeCategory at h
  split at h
  · exact .inl (Option.some.inj h).symm
  · split at h
    · rename_i t _
      rw [← Option.some.inj h]
      have hrank := p.rank_le t
      refine .inr ?_
      show p.rank t + 1 < p.superNames.length + 2
      omega
    · exact .inl (Option.some.inj h).symm
    · rename_i s t _
      rw [← Option.some.inj h]
      by_cases hs : p.commonSupertype s t = s
      · rw [hs]
        exact .inl rfl
      · have hrank := hp.rank_lt ⟨t, rfl, hs⟩
        exact .inr (Nat.succ_lt_succ hrank)
    · exact absurd h (by simp)

theorem merge_local_lighter (hp : p.Settling) (c d : Category) :
    c.Lighter p ((mergeCategory p c d).getD .empty) := by
  cases h : mergeCategory p c d with
  | some e => exact merge_lighter hp h
  | none =>
    show c.Lighter p .empty
    by_cases hc : c = .empty
    · exact .inl hc.symm
    · exact .inr (weight_pos hc)

end

end Category

namespace Frame

/-- the weight of all slots -/
noncomputable def weight (p : Program) (f : Frame) : Nat :=
  (f.locals.map (Category.weight p)).sum + (f.stack.map (Category.weight p)).sum

section
variable {p : Program} {f g e : Frame}

theorem sum_weight_le (p : Program) (cs : List Category) :
    (cs.map (Category.weight p)).sum ≤ cs.length * (p.superNames.length + 2) := by
  induction cs with
  | nil => exact Nat.zero_le _
  | cons c cs ih =>
    have hc := c.weight_le p
    rw [List.map_cons, List.sum_cons, List.length_cons, Nat.succ_mul]
    omega

theorem weight_le (p : Program) (f : Frame) :
    f.weight p ≤ (f.locals.length + f.stack.length) * (p.superNames.length + 2) := by
  have hlocals := sum_weight_le p f.locals
  have hstack := sum_weight_le p f.stack
  rw [Nat.add_mul]
  exact Nat.add_le_add hlocals hstack

/-- lists of categories that get lighter one by one -/
theorem lighter_sum {cs es : List Category} (h : List.Forall₂ (Category.Lighter p) cs es) :
    es = cs ∨ (es.map (Category.weight p)).sum < (cs.map (Category.weight p)).sum := by
  induction h with
  | nil => exact .inl rfl
  | cons hc _ ih =>
    simp only [List.map_cons, List.sum_cons]
    rcases hc with rfl | hc
    · rcases ih with rfl | ih
      · exact .inl rfl
      · exact .inr (by omega)
    · rcases ih with rfl | ih
      · exact .inr (by omega)
      · exact .inr (by omega)

theorem mergeStack_lighter (hp : p.Settling) {cs ds es : List Category} (hlen : cs.length = ds.length)
    (h : mergeStack p cs ds = .ok es) : List.Forall₂ (Category.Lighter p) cs es := by
  induction cs generalizing ds es with
  | nil =>
    obtain rfl : [] = es := by simpa [mergeStack] using h
    exact .nil
  | cons c cs ih =>
    cases ds with
    | nil => exact absurd hlen (by simp)
    | cons d ds =>
      rw [mergeStack] at h
      obtain ⟨rest, hrest, h⟩ := Effect.bind_eq_ok h
      cases hm : mergeCategory p c d with
      | none =>
        rw [hm] at h
        exact absurd h (by simp)
      | some e =>
        rw [hm] at h
        obtain rfl : e :: rest = es := by simpa using h
        exact .cons (Category.merge_lighter hp hm) (ih (by simpa using hlen) hrest)

theorem mergeLocals_lighter (hp : p.Settling) {cs ds : List Category} (hlen : cs.length = ds.length) :
    List.Forall₂ (Category.Lighter p) cs (mergeLocals p cs ds) := by
  induction cs generalizing ds with
  | nil =>
    obtain rfl : ds = [] := List.length_eq_zero_iff.1 hlen.symm
    exact .nil
  | cons c cs ih =>
    cases ds with
    | nil => exact absurd hlen (by simp)
    | cons d ds =>
      rw [mergeLocals]
      exact .cons (Category.merge_local_lighter hp c d) (ih (by simpa using hlen))

/-- **A join** changes nothing, or makes a frame lighter -/
theorem merge_weight (hp : p.Settling) (hlen : f.locals.length = g.locals.length) (h : f.merge p g = .ok e) :
    e = f ∨ e.weight p < f.weight p := by
  unfold merge at h
  split at h
  · rename_i hheight
    obtain ⟨stack, hstack, h⟩ := Effect.bind_eq_ok h
    obtain rfl := Except.ok.inj h
    have hstack := lighter_sum (mergeStack_lighter hp hheight hstack)
    have hlocals := lighter_sum (mergeLocals_lighter hp hlen)
    rcases hlocals with hlocals | hlocals
    · rcases hstack with hstack | hstack
      · rw [hlocals, hstack]
        exact .inl rfl
      · refine .inr ?_
        unfold weight
        dsimp only
        rw [hlocals]
        omega
    · refine .inr ?_
      unfold weight
      dsimp only
      rcases hstack with rfl | hstack
      · omega
      · omega
  · exact absurd h (by simp)

/-- a join is as high as the frame that was there -/
theorem merge_height (h : f.merge p g = .ok e) : e.stack.length = f.stack.length := by
  unfold merge at h
  split at h
  · rename_i hheight
    obtain ⟨stack, hstack, h⟩ := Effect.bind_eq_ok h
    obtain rfl := Except.ok.inj h
    exact (under_mergeStack hheight hstack).1.length_eq.symm
  · exact absurd h (by simp)

end

end Frame

/-! ## sums over all instructions -/

namespace Flow

/-- a sum over the frames found so far and those not found -/
def total (cost : Option Frame → Nat) (frames : List (Option Frame)) : Nat := (frames.map cost).sum

theorem total_set (cost : Option Frame → Nat) {frames : List (Option Frame)} {i : Nat} {o : Option Frame}
    (h : frames[i]? = some o) (x : Option Frame) :
    total cost (frames.set i x) + cost o = total cost frames + cost x := by
  induction frames generalizing i with
  | nil => exact absurd h (by simp)
  | cons y frames ih =>
    cases i with
    | zero =>
      obtain rfl : y = o := by simpa using h
      show cost x + total cost frames + cost y = cost y + total cost frames + cost x
      omega
    | succ i =>
      have htail := ih (i := i) (by simpa using h)
      show cost y + total cost (frames.set i x) + cost o = cost y + total cost frames + cost x
      omega

/-- how many instructions have a frame -/
def present : List (Option Frame) → Nat := total fun o => if o.isSome then 1 else 0

theorem present_le (frames : List (Option Frame)) : present frames ≤ frames.length := by
  induction frames with
  | nil => exact Nat.le_refl _
  | cons o frames ih =>
    have ho : (if o.isSome then 1 else 0) ≤ 1 := by split <;> omega
    show (if o.isSome then 1 else 0) + present frames ≤ frames.length + 1
    omega

/-! ## the load of a state -/

/-- **The work list ends**: it gets empty, or a step fails, within so many steps -/
inductive Halts (b : Body) : Nat → State → Prop
  | done {n : Nat} {s : State} (h : s.pending = []) : Halts b n s
  | failed {n : Nat} {s : State} {e : Located} (h : step b s = .error e) : Halts b (n + 1) s
  | step {n : Nat} {s t : State} (h : step b s = .ok t) (ht : Halts b n t) : Halts b (n + 1) s

/-- more than any frame of the method weighs -/
def absentCost (b : Body) (entry : Frame) : Nat :=
  1 + (entry.locals.length + entry.stack.length + 2 * b.code.length + 1) * (b.program.superNames.length + 2)

theorem settlingBound_eq (b : Body) (entry : Frame) :
    settlingBound b entry = b.code.length * absentCost b entry := rfl

/-- the weight of what an instruction has, or may still get -/
noncomputable def cost (b : Body) (entry : Frame) : Option Frame → Nat
  | none => absentCost b entry
  | some f => f.weight b.program

/-- what is left to do -/
noncomputable def load (b : Body) (entry : Frame) (s : State) : Nat :=
  total (cost b entry) s.frames + s.pending.length

/-- how high the stack may be if so many instructions have a frame -/
def ceiling (entry : Frame) (n : Nat) : Nat := entry.stack.length + 1 + 2 * n

/-- frames have as many locals as the entry frame, and the stack gets higher only when an instruction gets its
first frame -/
structure Bounded (b : Body) (entry : Frame) (s : State) : Prop where
  length : s.frames.length = b.code.length
  locals : AllFrames (fun f => f.locals.length = entry.locals.length) s.frames
  height : AllFrames (fun f => f.stack.length ≤ ceiling entry (present s.frames)) s.frames

section
variable {b : Body} {entry : Frame} {s t : State} {e : Edge} {es : List Edge}

theorem AllFrames.mono {S T : Frame → Prop} {frames : List (Option Frame)} (h : AllFrames S frames)
    (himp : ∀ f, S f → T f) : AllFrames T frames := fun i f hf => himp f (h i f hf)

theorem ceiling_mono {m n : Nat} (h : m ≤ n) : ceiling entry m ≤ ceiling entry n := by
  unfold ceiling
  omega

/-- no frame weighs as much as an instruction without one -/
theorem weight_lt_absentCost {f : Frame} (hlocals : f.locals.length = entry.locals.length)
    (hheight : f.stack.length ≤ ceiling entry b.code.length) : f.weight b.program < absentCost b entry := by
  have hweight := f.weight_le b.program
  have hslots : f.locals.length + f.stack.length ≤
      entry.locals.length + entry.stack.length + 2 * b.code.length + 1 := by
    unfold ceiling at hheight
    omega
  have hmul := Nat.mul_le_mul_right (b.program.superNames.length + 2) hslots
  unfold absentCost
  omega

theorem length_pending_arrive (s : State) (i : Nat) (f : Frame) :
    (arrive s i f).pending.length ≤ s.pending.length + 1 := by
  show (if i ∈ s.pending then s.pending else s.pending ++ [i]).length ≤ _
  split
  · exact Nat.le_succ _
  · rw [List.length_append]
    exact Nat.le_refl _

/-- a lighter frame in the place of another one -/
theorem load_arrive {i : Nat} {o : Option Frame} {f : Frame} (ho : s.frames[i]? = some o)
    (hlt : f.weight b.program < cost b entry o) : load b entry (arrive s i f) ≤ load b entry s := by
  have hset := total_set (cost b entry) ho (some f)
  have hpending := length_pending_arrive s i f
  have hcost : cost b entry (some f) = f.weight b.program := rfl
  unfold load
  have hframes : (arrive s i f).frames = s.frames.set i (some f) := rfl
  rw [hframes]
  omega

/-- **An edge** that leads into the code and does not carry too high a stack -/
theorem flow_load (hp : b.program.Settling) (hs : Bounded b entry s) (hlt : e.1 < s.frames.length)
    (hlocals : e.2.locals.length = entry.locals.length) {n : Nat} (hn : n ≤ present s.frames)
    (hheight : e.2.stack.length ≤ ceiling entry (n + 1)) (h : flow b s e = .ok t) :
    Bounded b entry t ∧ present s.frames ≤ present t.frames ∧ load b entry t ≤ load b entry s := by
  have hone (o : Option Frame) : (if o.isSome then 1 else 0) ≤ 1 := by split <;> omega
  rcases flow_cases h with ⟨old, -, -, rfl⟩ | ⟨old, g, hold, hmerge, hne, rfl⟩ | ⟨hnone, rfl⟩
  · exact ⟨hs, Nat.le_refl _, Nat.le_refl _⟩
  · have hlen : old.locals.length = e.2.locals.length := (hs.locals _ _ hold).trans hlocals.symm
    have hlighter := (Frame.merge_weight hp hlen hmerge).resolve_left hne
    have hg : g.locals.length = entry.locals.length :=
      (Frame.under_merge hlen hmerge).1.locals.length_eq.symm.trans (hs.locals _ _ hold)
    have hpresent : present (arrive s e.1 g).frames = present s.frames := by
      have hset := total_set (fun o => if o.isSome then 1 else 0) hold (some g)
      exact Nat.add_right_cancel hset
    refine ⟨⟨?_, hs.locals.arrive hg, ?_⟩, hpresent.ge, load_arrive hold hlighter⟩
    · exact List.length_set.trans hs.length
    · rw [hpresent]
      refine hs.height.arrive ?_
      rw [Frame.merge_height hmerge]
      exact hs.height _ _ hold
  · have hold : s.frames[e.1]? = some none := by
      cases ho : s.frames[e.1] with
      | none => rw [List.getElem?_eq_getElem hlt, ho]
      | some f => exact absurd (by rw [List.getElem?_eq_getElem hlt, ho]) (hnone f)
    have hpresent : present (arrive s e.1 e.2).frames = present s.frames + 1 := by
      have hset := total_set (fun o => if o.isSome then 1 else 0) hold (some e.2)
      exact hset
    have hfew : present (arrive s e.1 e.2).frames ≤ b.code.length := by
      have hle := present_le (arrive s e.1 e.2).frames
      rwa [show (arrive s e.1 e.2).frames.length = b.code.length from List.length_set.trans hs.length] at hle
    have hroom : e.2.stack.length ≤ ceiling entry (present (arrive s e.1 e.2).frames) := by
      rw [hpresent]
      exact hheight.trans (ceiling_mono (Nat.succ_le_succ hn))
    refine ⟨⟨?_, hs.locals.arrive hlocals, ?_⟩, by omega, load_arrive hold ?_⟩
    · exact List.length_set.trans hs.length
    · refine AllFrames.arrive (hs.height.mono fun f hf => hf.trans ?_) hroom
      exact ceiling_mono (by omega)
    · exact weight_lt_absentCost hlocals (hroom.trans (ceiling_mono hfew))

theorem flowAll_load (hp : b.program.Settling) (hs : Bounded b entry s) {n : Nat} (hn : n ≤ present s.frames)
    (hes : ∀ e ∈ es, e.1 < b.code.length ∧ e.2.locals.length = entry.locals.length ∧
      e.2.stack.length ≤ ceiling entry (n + 1)) (h : flowAll b s es = .ok t) :
    Bounded b entry t ∧ load b entry t ≤ load b entry s := by
  induction es generalizing s with
  | nil =>
    obtain rfl : s = t := by simpa [flowAll] using h
    exact ⟨hs, Nat.le_refl _⟩
  | cons e es ih =>
    rw [flowAll] at h
    obtain ⟨s', hs', h⟩ := Effect.bind_eq_ok h
    obtain ⟨hlt, hlocals, hheight⟩ := hes e List.mem_cons_self
    obtain ⟨hbounded, hpresent, hload⟩ := flow_load hp hs (by rw [hs.length]; exact hlt) hlocals hn hheight hs'
    obtain ⟨hbounded', hload'⟩ :=
      ih hbounded (hn.trans hpresent) (fun e' he' => hes e' (List.mem_cons_of_mem _ he')) h
    exact ⟨hbounded', hload'.trans hload⟩

/-- **A step** takes something off the load -/
theorem step_load (hp : b.program.Settling) (htargets : ∀ h ∈ b.handlers, h.target < b.code.length)
    (hs : Bounded b entry s) (hpending : s.pending ≠ []) (h : step b s = .ok t) :
    Bounded b entry t ∧ load b entry t < load b entry s := by
  rcases step_cases h with ⟨hnil, -⟩ | ⟨i, rest, hcons, ⟨-, rfl⟩ | ⟨insn, before, es, hinsn, hbefore, hes, h⟩⟩
  · exact absurd hnil hpending
  · refine ⟨⟨hs.length, hs.locals, hs.height⟩, ?_⟩
    unfold load
    rw [hcons, List.length_cons]
    exact Nat.lt_succ_self _
  · obtain ⟨after, hout⟩ := edges_ok hes
    have hedges : ∀ e ∈ es, e.1 < b.code.length ∧ e.2.locals.length = entry.locals.length ∧
        e.2.stack.length ≤ ceiling entry (present s.frames + 1) := by
      intro e he
      have hlocals := hs.locals i before hbefore
      have hheight := hs.height i before hbefore
      rcases hout.only e he with ⟨h', hh, rfl⟩ | ⟨hlt, heq⟩
      · refine ⟨htargets h' hh, hlocals, ?_⟩
        show 1 ≤ entry.stack.length + 1 + 2 * (present s.frames + 1)
        omega
      · have hafter := Frame.height_apply hout.applied
        refine ⟨hlt, ?_, ?_⟩
        · rw [heq, Frame.length_apply hout.applied]
          exact hlocals
        · rw [heq]
          unfold ceiling at hheight ⊢
          omega
    obtain ⟨hbounded, hload⟩ := flowAll_load (s := { s with pending := rest }) hp
      ⟨hs.length, hs.locals, hs.height⟩ (Nat.le_refl _) hedges h
    refine ⟨hbounded, Nat.lt_of_le_of_lt hload ?_⟩
    unfold load
    rw [hcons, List.length_cons]
    exact Nat.lt_succ_self _

theorem halts_of_load (hp : b.program.Settling) (htargets : ∀ h ∈ b.handlers, h.target < b.code.length)
    (hs : Bounded b entry s) {n : Nat} (hn : load b entry s ≤ n) : Halts b n s := by
  induction n generalizing s with
  | zero =>
    have hpending : s.pending.length ≤ 0 := (Nat.le_add_left _ _).trans hn
    exact .done (List.length_eq_zero_iff.1 (Nat.le_zero.1 hpending))
  | succ n ih =>
    by_cases hpending : s.pending = []
    · exact .done hpending
    · cases hstep : step b s with
      | error e => exact .failed hstep
      | ok t =>
        obtain ⟨hbounded, hload⟩ := step_load hp htargets hs hpending hstep
        exact .step hstep (ih hbounded (by omega))

end

/-! ## the frames of a method -/

section
variable {b : Body} {entry : Frame}

theorem total_replicate (cost : Option Frame → Nat) (n : Nat) (o : Option Frame) :
    total cost (List.replicate n o) = n * cost o := by
  unfold total
  rw [List.map_replicate, List.sum_replicate_nat]

theorem bounded_start (hne : b.code ≠ []) : Bounded b entry (start b.code entry) := by
  refine ⟨length_start hne, fun i f hf => ?_, fun i f hf => ?_⟩
  · rw [(getElem?_start hf).2]
  · rw [(getElem?_start hf).2]
    unfold ceiling
    omega

theorem load_start (hne : b.code ≠ []) : load b entry (start b.code entry) ≤ settlingBound b entry := by
  obtain ⟨n, hn⟩ : ∃ n, b.code.length = n + 1 := ⟨b.code.length - 1, by
    have hpos := List.length_pos_iff.2 hne
    omega⟩
  have hweight : entry.weight b.program < absentCost b entry := weight_lt_absentCost rfl (by
    unfold ceiling
    omega)
  have htotal : total (cost b entry) (start b.code entry).frames =
      entry.weight b.program + n * absentCost b entry := by
    show cost b entry (some entry) + total (cost b entry) (List.replicate (b.code.length - 1) none) = _
    rw [total_replicate, hn]
    rfl
  unfold load
  rw [htotal, settlingBound_eq, hn, Nat.succ_mul]
  show entry.weight b.program + n * absentCost b entry + 1 ≤ _
  omega

/-- **Where joins never lead back** the work list of a method ends -/
theorem halts_start (hp : b.program.Settling) (htargets : ∀ h ∈ b.handlers, h.target < b.code.length)
    (hne : b.code ≠ []) : Halts b (settlingBound b entry) (start b.code entry) :=
  halts_of_load hp htargets (bounded_start hne) (load_start hne)

end

end Flow
end Resumable
