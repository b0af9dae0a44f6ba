import Resumable.Proofs.Settled

/-!
# Frames assigned to code

Code is a well-formed stack program if a frame can be assigned to each instruction that is reached: the
instruction can stand there, and what flows out of it is below the frame it arrives at.  Code with such
frames is put together from pieces, each of which is looked at on its own.

* `Frame.Absorbs`, `Flow.Below` : what it is to be below a frame;
* `Flow.Assigned`, `Method.Framed` : frames assigned to the code and the exception table of a method;
* `Frame.through` : the frames of straight code;
* `FramedCode.Flows` : what is asked of a piece of code with frames;
* `Flow.Assigned.of_flows` : from pieces to the whole;
* `Flow.Assigned.of_checks` : frames that are computed.
-/

namespace Resumable

namespace Frame

/-- joining the other frame in changes nothing -/
def Absorbs (p : Program) (f g : Frame) : Prop := f.merge p g = .ok f

theorem Absorbs.refl (p : Program) (f : Frame) : f.Absorbs p f := merge_self p f

instance (p : Program) (f g : Frame) : Decidable (f.Absorbs p g) :=
  inferInstanceAs (Decidable (f.merge p g = .ok f))

end Frame

namespace Flow

/-- what flows along an edge is below the frame of its target -/
def Below (p : Program) (frames : List (Option Frame)) (e : Edge) : Prop :=
  ∃ f, frames[e.1]? = some (some f) ∧ f.Absorbs p e.2

/-- Frames assigned to code: the entry is below the first one, and everything that flows out of an
instruction, which can stand in its frame, is below the frame of where it arrives. -/
structure Assigned (b : Body) (entry : Frame) (frames : List (Option Frame)) : Prop where
  length : frames.length = b.code.length
  sound : AllSound entry.locals.length frames
  entry : Below b.program frames (0, entry)
  closed : ∀ i insn f, b.code[i]? = some insn → frames[i]? = some (some f) →
    ∃ es, edges b i insn f = .ok es ∧ ∀ e ∈ es, Below b.program frames e

end Flow

/-- frames assigned to the code and the exception table of a method -/
def Method.Framed (m : Method) (p : Program) (entry : Frame) (frames : List (Option Frame)) : Prop :=
  ∃ handlers, m.tryCatches.mapM (Flow.handler m.code) = .ok handlers ∧
    Flow.Assigned ⟨m.code, handlers, p⟩ entry frames

/-! ## straight code -/

namespace Frame

/-- the frame behind an instruction; one that cannot stand here changes nothing -/
def next (f : Frame) (i : Insn) : Frame :=
  match f.apply i with
  | .ok g => g
  | .error _ => f

/-- straight code, which jumps nowhere, goes from one frame to another -/
inductive Runs : Frame → List Insn → Frame → Prop
  | nil (f : Frame) : Runs f [] f
  | cons {f g e : Frame} {i : Insn} {is : List Insn} (targets : i.targets = [])
      (applied : f.apply i = .ok g) (rest : Runs g is e) : Runs f (i :: is) e

/-- straight code with the frame before each instruction -/
def through (f : Frame) : List Insn → List (Option Frame × Insn)
  | [] => []
  | i :: is => (some f, i) :: (f.next i).through is

section
variable {f g e : Frame} {i : Insn} {is js : List Insn} {n : Nat}

theorem next_eq (h : f.apply i = .ok g) : f.next i = g := by
  unfold next
  rw [h]

theorem Runs.one (ht : i.targets = []) (h : f.apply i = .ok g) : f.Runs [i] g :=
  .cons ht h (.nil g)

theorem Runs.append (h : f.Runs is g) (h' : g.Runs js e) : f.Runs (is ++ js) e := by
  induction h with
  | nil => exact h'
  | cons ht ha _ ih => exact .cons ht ha (ih h')

theorem map_snd_through (f : Frame) (is : List Insn) : (f.through is).map Prod.snd = is := by
  induction is generalizing f with
  | nil => rfl
  | cons i is ih => rw [through, List.map_cons, ih]

@[simp] theorem length_through (f : Frame) (is : List Insn) : (f.through is).length = is.length := by
  rw [← List.length_map (f := Prod.snd), map_snd_through]

/-- the frames of straight code are sound if the first one is -/
theorem Sound.through (hf : f.Sound n) : ∀ e ∈ f.through is, ∀ g, e.1 = some g → g.Sound n := by
  induction is generalizing f with
  | nil => exact fun e he => absurd he (by simp [Frame.through])
  | cons i is ih =>
    intro e he g hg
    rcases List.mem_cons.1 he with rfl | he
    · rw [← Option.some.inj hg]
      exact hf
    · refine ih ?_ e he g hg
      cases h : f.apply i with
      | ok f' =>
        rw [next_eq h]
        exact hf.apply h
      | error _ =>
        unfold next
        rw [h]
        exact hf

/-- straight code without stores keeps the locals -/
theorem locals_through (hi : ∀ i ∈ is, ∀ k slot, i ≠ .store k slot) :
    ∀ e ∈ f.through is, ∀ g, e.1 = some g → g.locals = f.locals := by
  induction is generalizing f with
  | nil => exact fun e he => absurd he (by simp [Frame.through])
  | cons i is ih =>
    intro e he g hg
    rcases List.mem_cons.1 he with rfl | he
    · rw [← Option.some.inj hg]
    · rw [ih (fun i hmem => hi i (List.mem_cons_of_mem _ hmem)) e he g hg]
      unfold next
      split
      · rename_i f' h
        exact (Keeps.of_apply (hi i List.mem_cons_self) h).locals
      · rfl

end

end Frame

/-! ## pieces of code with frames -/

/-- code with the frame before each instruction that is reached -/
abbrev FramedCode := List (Option Frame × Insn)

namespace FramedCode

/-- a frame may go on into code with frames, behind which some frames may go on -/
def Enters (p : Program) (next : Frame → Prop) : FramedCode → Frame → Prop
  | [], f => next f
  | e :: _, f => ∃ g, e.1 = some g ∧ g.Absorbs p f

/-- Each instruction of a piece can stand in its frame, and what flows out of it is accepted: by labels,
by the rest of the piece, or by what follows it. -/
def Flows (p : Program) (accepts : Label → Frame → Prop) (next : Frame → Prop) : FramedCode → Prop
  | [] => True
  | e :: rest => (∀ f, e.1 = some f → ∃ g, f.apply e.2 = .ok g ∧ (∀ l ∈ e.2.targets, accepts l g) ∧
      (e.2.fallsThrough = true → Enters p next rest g)) ∧ Flows p accepts next rest

section
variable {p : Program} {accepts : Label → Frame → Prop} {next : Frame → Prop} {fc d : FramedCode}
  {f g : Frame} {i : Insn} {is js : List Insn} {n : Nat}

theorem enters_append (fc d : FramedCode) (f : Frame) :
    Enters p next (fc ++ d) f ↔ Enters p (Enters p next d) fc f := by
  cases fc <;> exact Iff.rfl

/-- straight code is entered with its own frame -/
theorem enters_through (h : is = [] → next f) : Enters p next (f.through is) f := by
  cases is with
  | nil => exact h rfl
  | cons i is => exact ⟨f, rfl, .refl p f⟩

theorem Flows.append (hc : Flows p accepts (Enters p next d) fc) (hd : Flows p accepts next d) :
    Flows p accepts next (fc ++ d) := by
  induction fc with
  | nil => exact hd
  | cons e fc ih =>
    obtain ⟨he, hc⟩ := hc
    refine ⟨fun f hf => ?_, ih hc⟩
    obtain ⟨g, hg, htargets, hnext⟩ := he f hf
    exact ⟨g, hg, htargets, fun hfalls => (enters_append fc d g).2 (hnext hfalls)⟩

theorem Flows.get (hc : Flows p accepts next fc) (h : fc[n]? = some (some f, i)) :
    ∃ g, f.apply i = .ok g ∧ (∀ l ∈ i.targets, accepts l g) ∧
      (i.fallsThrough = true → Enters p next (fc.drop (n + 1)) g) := by
  induction fc generalizing n with
  | nil => exact absurd h (by simp)
  | cons e fc ih =>
    obtain ⟨he, hc⟩ := hc
    cases n with
    | zero =>
      obtain rfl : e = (some f, i) := by simpa using h
      exact he f rfl
    | succ n => exact ih hc h

/-- an instruction of straight code -/
theorem Flows.step (h : f.apply i = .ok g) (htargets : ∀ l ∈ i.targets, accepts l g)
    (hnext : is = [] → i.fallsThrough = true → next g) (hrest : Flows p accepts next (g.through is)) :
    Flows p accepts next (f.through (i :: is)) := by
  rw [Frame.through, Frame.next_eq h]
  refine ⟨fun f' hf' => ?_, hrest⟩
  obtain rfl := Option.some.inj hf'
  exact ⟨g, h, htargets, fun hfalls => enters_through fun hnil => hnext hnil hfalls⟩

theorem Flows.of_runs (h : f.Runs is g) (hnext : next g) : Flows p accepts next (f.through is) := by
  induction h with
  | nil => trivial
  | cons ht ha hrun ih =>
    refine .step ha (by rw [ht]; simp) (fun hnil _ => ?_) (ih hnext)
    subst hnil
    cases hrun with
    | nil => exact hnext

/-- straight code in front of other code -/
theorem Flows.straight (h : f.Runs is g) (hnext : js = [] → next g)
    (hrest : Flows p accepts next (g.through js)) :
    Flows p accepts next (f.through (is ++ js)) := by
  induction h with
  | nil => exact hrest
  | cons ht ha hrun ih =>
    refine .step ha (by rw [ht]; simp) (fun hnil _ => ?_) (ih hnext hrest)
    obtain ⟨rfl, rfl⟩ := List.append_eq_nil_iff.1 hnil
    cases hrun with
    | nil => exact hnext rfl

end

end FramedCode

/-! ## from pieces to the whole -/

namespace Flow

theorem jumpEdges_of {b : Body} {i : Nat} {after : Frame} {ls : List Label}
    (h : ∀ l ∈ ls, ∃ n, labelPosition l b.code = some n) :
    ∃ es, jumpEdges b i after ls = .ok es ∧
      ∀ e ∈ es, ∃ l ∈ ls, ∃ n, labelPosition l b.code = some n ∧ e = (n, after) := by
  induction ls with
  | nil => exact ⟨[], rfl, fun e he => absurd he (by simp)⟩
  | cons l ls ih =>
    obtain ⟨n, hn⟩ := h l List.mem_cons_self
    obtain ⟨es, hes, hall⟩ := ih fun l hl => h l (List.mem_cons_of_mem _ hl)
    refine ⟨(n, after) :: es, ?_, fun e he => ?_⟩
    · rw [jumpEdges, hn]
      dsimp only
      rw [hes]
      rfl
    · rcases List.mem_cons.1 he with rfl | he
      · exact ⟨l, List.mem_cons_self, n, hn, rfl⟩
      · obtain ⟨l', hl', hedge⟩ := hall e he
        exact ⟨l', List.mem_cons_of_mem _ hl', hedge⟩

/-- what flows out of an instruction that can stand in its frame -/
theorem edges_of {b : Body} {i : Nat} {insn : Insn} {before after : Frame}
    (happly : before.apply insn = .ok after)
    (hjumps : ∀ l ∈ insn.targets, ∃ n, labelPosition l b.code = some n)
    (hnext : insn.fallsThrough = true → i + 1 < b.code.length) :
    ∃ es, edges b i insn before = .ok es ∧ ∀ e ∈ es,
      (∃ h ∈ b.handlers, h.start ≤ i ∧ i < h.stop ∧ e = (h.target, ⟨before.locals, [h.caught]⟩)) ∨
      (∃ l ∈ insn.targets, ∃ n, labelPosition l b.code = some n ∧ e = (n, after)) ∨
      (insn.fallsThrough = true ∧ e = (i + 1, after)) := by
  obtain ⟨jumps, hjumps, hjall⟩ : ∃ jumps, jumpEdges b i after insn.targets = .ok jumps ∧ ∀ e ∈ jumps,
      ∃ l ∈ insn.targets, ∃ n, labelPosition l b.code = some n ∧ e = (n, after) := jumpEdges_of hjumps
  obtain ⟨nexts, hnexts, hnall⟩ : ∃ nexts, nextEdges b i insn after = .ok nexts ∧
      ∀ e ∈ nexts, insn.fallsThrough = true ∧ e = (i + 1, after) := by
    unfold nextEdges
    by_cases hfalls : insn.fallsThrough = true
    · rw [if_pos hfalls, if_pos (hnext hfalls)]
      exact ⟨_, rfl, fun e he => ⟨hfalls, List.mem_singleton.1 he⟩⟩
    · rw [if_neg hfalls]
      exact ⟨_, rfl, fun e he => absurd he (by simp)⟩
  refine ⟨handlerEdges b i before ++ jumps ++ nexts, ?_, fun e he => ?_⟩
  · unfold edges
    rw [happly]
    dsimp only [bind, Except.bind]
    rw [hjumps]
    dsimp only
    rw [hnexts]
  · rcases List.mem_append.1 he with he | he
    · rcases List.mem_append.1 he with he | he
      · obtain ⟨h, hh, rfl⟩ := List.mem_map.1 he
        obtain ⟨hh, hin⟩ := List.mem_filter.1 hh
        simp only [Bool.and_eq_true, decide_eq_true_eq] at hin
        exact .inl ⟨h, hh, hin.1, hin.2, rfl⟩
      · exact .inr (.inl (hjall e he))
    · exact .inr (.inr (hnall e he))

/-- **Frames are assigned** to code that flows instruction by instruction, and to its handlers -/
theorem Assigned.of_flows {b : Body} {entry : Frame} {fc : FramedCode}
    (hcode : fc.map Prod.snd = b.code)
    (hsound : ∀ e ∈ fc, ∀ f, e.1 = some f → f.Sound entry.locals.length)
    (hentry : Below b.program (fc.map Prod.fst) (0, entry))
    (hflows : ∀ i f insn, fc[i]? = some (some f, insn) → ∃ g, f.apply insn = .ok g ∧
      (∀ l ∈ insn.targets, ∃ n, labelPosition l b.code = some n ∧
        Below b.program (fc.map Prod.fst) (n, g)) ∧
      (insn.fallsThrough = true → Below b.program (fc.map Prod.fst) (i + 1, g)))
    (hhandlers : ∀ i f insn, fc[i]? = some (some f, insn) → ∀ h ∈ b.handlers, h.start ≤ i →
      i < h.stop → Below b.program (fc.map Prod.fst) (h.target, ⟨f.locals, [h.caught]⟩)) :
    Assigned b entry (fc.map Prod.fst) := by
  have hlength : (fc.map Prod.fst).length = b.code.length := by
    rw [← hcode, List.length_map, List.length_map]
  refine ⟨hlength, fun i f hf => ?_, hentry, fun i insn f hinsn hf => ?_⟩
  · rw [List.getElem?_map] at hf
    obtain ⟨e, he, hfst⟩ := Option.map_eq_some_iff.1 hf
    exact hsound e (List.mem_of_getElem? he) f hfst
  · rw [← hcode, List.getElem?_map] at hinsn
    rw [List.getElem?_map] at hf
    obtain ⟨e, he, rfl⟩ := Option.map_eq_some_iff.1 hinsn
    rw [he] at hf
    have hat : fc[i]? = some (some f, e.2) := by rw [he, ← Option.some.inj hf]
    obtain ⟨g, happly, htargets, hnext⟩ := hflows i f e.2 hat
    obtain ⟨es, hes, hall⟩ := edges_of (b := b) (i := i) happly
      (fun l hl => by
        obtain ⟨n, hn, -⟩ := htargets l hl
        exact ⟨n, hn⟩)
      fun hfalls => by
        obtain ⟨f', hf', -⟩ := hnext hfalls
        rw [← hlength]
        exact (List.getElem?_eq_some_iff.1 hf').1
    refine ⟨es, hes, fun e' he' => ?_⟩
    rcases hall e' he' with ⟨h, hh, hstart, hstop, rfl⟩ | ⟨l, hl, n, hn, rfl⟩ | ⟨hfalls, rfl⟩
    · exact hhandlers i f e.2 hat h hh hstart hstop
    · obtain ⟨n', hn', hbelow⟩ := htargets l hl
      obtain rfl : n' = n := Option.some.inj (hn'.symm.trans hn)
      exact hbelow
    · exact hnext hfalls

/-! ## frames that are checked -/

/-- joining tells whether a frame is below another one -/
instance (p : Program) (frames : List (Option Frame)) (e : Edge) : Decidable (Below p frames e) :=
  decidable_of_iff ((frames[e.1]?.join.any fun f => decide (f.Absorbs p e.2)) = true) <| by
    rw [Option.any_eq_true]
    exact ⟨fun ⟨f, hf, h⟩ => ⟨f, Option.join_eq_some_iff.1 hf, of_decide_eq_true h⟩,
      fun ⟨f, hf, h⟩ => ⟨f, Option.join_eq_some_iff.2 hf, decide_eq_true h⟩⟩

/-- an instruction can stand in its frame, and what flows out of it is below the frames there -/
def closedAt (b : Body) (frames : List (Option Frame)) (i : Nat) (insn : Insn) (f : Frame) : Bool :=
  match edges b i insn f with
  | .ok es => es.all fun e => decide (Below b.program frames e)
  | .error _ => false

/-- frames that are checked one by one are closed -/
theorem closed_of_checks {b : Body} {frames : List (Option Frame)}
    (h : ∀ e ∈ (frames.zip b.code).zipIdx, ∀ f ∈ e.1.1, closedAt b frames e.2 e.1.2 f) {i : Nat} {insn : Insn}
    {f : Frame} (hinsn : b.code[i]? = some insn) (hf : frames[i]? = some (some f)) :
    ∃ es, edges b i insn f = .ok es ∧ ∀ e ∈ es, Below b.program frames e := by
  have hzip : ((some f, insn), i) ∈ (frames.zip b.code).zipIdx :=
    List.mem_zipIdx_iff_getElem?.2 (List.getElem?_zip_eq_some.2 ⟨hf, hinsn⟩)
  have hcheck := h _ hzip f rfl
  unfold closedAt at hcheck
  split at hcheck
  · rename_i es hes
    exact ⟨es, hes, fun e he => of_decide_eq_true (List.all_eq_true.1 hcheck e he)⟩
  · exact absurd hcheck (by simp)

end Flow
end Resumable
