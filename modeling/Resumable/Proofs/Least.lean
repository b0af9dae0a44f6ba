import Resumable.Proofs.Monotone
import Resumable.Proofs.Solution

/-!
# When the frames are the least solution

The flow equations of a method may have many solutions.  The work list finds the least one, whatever order it
looks at instructions in, as far as instructions leave lower frames of lower ones; what it finds is above it
where it has once loaded a reference from an array that was only known to be null, or one that holds numbers.
The element is then taken for something that stays in the frame behind, also when the array turns out to be of a
better type.  So the frames are below a solution exactly if the solution has the same there.

* `Flow.edges_cases` : what flows out of an instruction;
* `Flow.LooksAt`, `Flow.Looked` : an instruction is looked at with a frame;
* `Flow.LoadsInto` : a solution has what an odd array is taken to hold;
* `Flow.run_below`, `Flow.LooksAt.arrived` : both directions, along the work list;
* `Flow.frames_below_iff` : the frames of a method.
-/

namespace Resumable
namespace Flow

/-! ## edges -/

section
variable {b : Body} {i : Nat} {insn : Insn} {before after : Frame} {es : List Edge} {e : Edge}

theorem mem_jumpEdges {ls : List Label} (h : jumpEdges b i after ls = .ok es) (he : e ∈ es) :
    ∃ l ∈ ls, labelPosition l b.code = some e.1 ∧ e.2 = after := by
  induction ls generalizing es with
  | nil =>
    obtain rfl : [] = es := by simpa [jumpEdges] using h
    exact absurd he (by simp)
  | cons l ls ih =>
    rw [jumpEdges] at h
    split at h
    · rename_i n hn
      obtain ⟨rest, hrest, h⟩ := Effect.bind_eq_ok h
      obtain rfl := Except.ok.inj h
      rcases List.mem_cons.1 he with rfl | he
      · exact ⟨l, List.mem_cons_self, hn, rfl⟩
      · obtain ⟨l', hl', hedge⟩ := ih hrest he
        exact ⟨l', List.mem_cons_of_mem _ hl', hedge⟩
    · exact absurd h (by simp)

theorem mem_nextEdges (h : nextEdges b i insn after = .ok es) (he : e ∈ es) :
    insn.fallsThrough = true ∧ e = (i + 1, after) := by
  unfold nextEdges at h
  split at h
  · rename_i hfalls
    split at h
    · obtain rfl := Except.ok.inj h
      exact ⟨hfalls, List.mem_singleton.1 he⟩
    · exact absurd h (by simp)
  · obtain rfl := Except.ok.inj h
    exact absurd he (by simp)

/-- **What flows out of an instruction** goes to a handler, to a jump target or to the next instruction -/
theorem edges_cases (h : edges b i insn before = .ok es) (he : e ∈ es) :
    (∃ x ∈ b.handlers, x.start ≤ i ∧ i < x.stop ∧ e = (x.target, ⟨before.locals, [x.caught]⟩)) ∨
    ∃ after, before.apply insn = .ok after ∧
      ((∃ l ∈ insn.targets, labelPosition l b.code = some e.1 ∧ e.2 = after) ∨
        insn.fallsThrough = true ∧ e = (i + 1, after)) := by
  obtain ⟨after, happly, h⟩ : ∃ after, before.apply insn = .ok after ∧
      (jumpEdges b i after insn.targets >>= fun jumps => nextEdges b i insn after >>= fun next =>
        .ok (handlerEdges b i before ++ jumps ++ next)) = Except.ok es := by
    unfold edges at h
    cases happly : before.apply insn with
    | error e =>
      rw [happly] at h
      exact absurd h (by simp [bind, Except.bind])
    | ok after =>
      rw [happly] at h
      exact ⟨after, rfl, h⟩
  obtain ⟨jumps, hjumps, h⟩ := Effect.bind_eq_ok h
  obtain ⟨next, hnext, h⟩ := Effect.bind_eq_ok h
  obtain rfl := Except.ok.inj h
  rcases List.mem_append.1 he with he | he
  · rcases List.mem_append.1 he with he | he
    · obtain ⟨x, hx, rfl⟩ := List.mem_map.1 he
      obtain ⟨hmem, hrange⟩ := List.mem_filter.1 hx
      obtain ⟨hstart, hstop⟩ : x.start ≤ i ∧ i < x.stop := by simpa using hrange
      exact .inl ⟨x, hmem, hstart, hstop, rfl⟩
    · exact .inr ⟨after, happly, .inl (mem_jumpEdges hjumps he)⟩
  · exact .inr ⟨after, happly, .inr (mem_nextEdges hnext he)⟩

end

/-! ## what the work list looks at -/

/-- from some state on the work list looks at an instruction with a frame -/
inductive LooksAt (b : Body) : State → Nat → Frame → Prop
  | here {s : State} {i : Nat} {rest : List Nat} {f : Frame} (hpending : s.pending = i :: rest)
    (hframe : s.frames[i]? = some (some f)) : LooksAt b s i f
  | later {s t : State} {i : Nat} {f : Frame} (hstep : step b s = .ok t) (h : LooksAt b t i f) : LooksAt b s i f

/-- the work list of a method looks at an instruction with a frame -/
def Looked (p : Program) (code : List Insn) (table : List TryCatch) (entry : Frame) (i : Nat) (f : Frame) : Prop :=
  ∃ handlers, table.mapM (handler code) = .ok handlers ∧ LooksAt ⟨code, handlers, p⟩ (start code entry) i f

/-- If an instruction loads a reference from an odd array, the frame assigned behind it has on top exactly what
the element is taken for. -/
def LoadsInto (code : List Insn) (assigned : List (Option Frame)) (i : Nat) (f : Frame) : Prop :=
  code[i]? = some (.arrayLoad .ref) → ∀ c, f.stack[1]? = some c → c.Odd →
    ∀ g, assigned[i + 1]? = some (some g) → g.stack.head? = some (Frame.componentOf c .ref)

/-- every frame found is below the one assigned -/
def AllBelow (p : Program) (frames assigned : List (Option Frame)) : Prop :=
  ∀ i f, frames[i]? = some (some f) → Below p assigned (i, f)

section
variable {p : Program} {code : List Insn} {table : List TryCatch} {entry : Frame} {assigned : List (Option Frame)}
  {handlers : List Handler} {s t : State} {e : Edge} {es : List Edge} {i : Nat} {f g : Frame}

theorem below_trans (hp : p.Layered) (h : f.Beneath p g) (hbelow : Below p assigned (i, g)) :
    Below p assigned (i, f) := by
  obtain ⟨u, hu, habsorbs⟩ := hbelow
  exact ⟨u, hu, (Frame.absorbs_iff_beneath hp).2 (h.trans hp ((Frame.absorbs_iff_beneath hp).1 habsorbs))⟩

/-! ## frames stay below a solution -/

/-- what an instruction leaves is below the frame assigned behind it -/
theorem next_below (hp : p.Layered) (hflat : ∀ s t, p.Extends s t → isArrayType t = false) {insn : Insn}
    {f' g' : Frame} (hinsn : code[i]? = some insn) (hfg : f.Beneath p g) (hf : f.apply insn = .ok f')
    (hg : g.apply insn = .ok g') (hload : LoadsInto code assigned i f) (hbelow : Below p assigned (i + 1, g')) :
    Below p assigned (i + 1, f') := by
  by_cases hodd : ∃ c, insn = .arrayLoad .ref ∧ f.stack[1]? = some c ∧ c.Odd
  · obtain ⟨c, rfl, hc, hodd⟩ := hodd
    obtain ⟨u, hu, habsorbs⟩ := hbelow
    have hbeneath := (Frame.absorbs_iff_beneath hp).1 habsorbs
    refine ⟨u, hu, (Frame.absorbs_iff_beneath hp).2 ?_⟩
    obtain ⟨n, c', rest, hfs, rfl⟩ := Frame.apply_arrayLoad hf
    obtain ⟨m, d, rest', hgs, rfl⟩ := Frame.apply_arrayLoad hg
    obtain rfl : c' = c := by simpa [hfs] using hc
    have hstack := hfg.stack
    rw [hfs, hgs] at hstack
    have hrest := (List.forall₂_cons.1 (List.forall₂_cons.1 hstack).2).2
    -- the operand on top is the one that is there, and everything else is lower as in `g`
    obtain ⟨top, below, htop⟩ : ∃ top below, u.stack = top :: below := by
      cases hu' : u.stack with
      | nil => exact absurd hbeneath.stack (by rw [hu']; simp)
      | cons top below => exact ⟨top, below, rfl⟩
    have hpushed : top = Frame.componentOf c' .ref := by
      have hhead := hload hinsn c' (by rw [hfs]; rfl) hodd u hu
      rw [htop] at hhead
      exact Option.some.inj hhead
    have hunder := hbeneath.stack
    rw [htop] at hunder
    refine ⟨hfg.locals.trans hp hbeneath.locals, ?_⟩
    rw [htop, hpushed]
    exact .cons (.refl _) (Frame.stack_trans hp hrest (List.forall₂_cons.1 hunder).2)
  · refine below_trans hp (Frame.apply_beneath hfg hf hg fun c d hload' hc hd => ?_) hbelow
    subst hload'
    obtain ⟨n, c', rest, hfs, -⟩ := Frame.apply_arrayLoad hf
    obtain ⟨m, d', rest', hgs, -⟩ := Frame.apply_arrayLoad hg
    obtain rfl : c' = c := by simpa [hfs] using hc
    obtain rfl : d' = d := by simpa [hgs] using hd
    have hstack := hfg.stack
    rw [hfs, hgs] at hstack
    have hcd := (List.forall₂_cons.1 (List.forall₂_cons.1 hstack).2).1
    exact Frame.componentOf_under hflat hcd fun h => hodd ⟨c', rfl, hc, h⟩

/-- **What flows out of an instruction** in a frame below the assigned one is below what is assigned -/
theorem edges_below (hp : p.Layered) (hflat : ∀ s t, p.Extends s t → isArrayType t = false)
    (hG : Solution p code table entry assigned) (hhandlers : table.mapM (handler code) = .ok handlers) {insn : Insn}
    (hinsn : code[i]? = some insn) (hbelow : Below p assigned (i, f)) (hload : LoadsInto code assigned i f)
    (hes : edges ⟨code, handlers, p⟩ i insn f = .ok es) : ∀ e ∈ es, Below p assigned e := by
  intro e he
  obtain ⟨g, hg, habsorbs⟩ := hbelow
  have hfg := (Frame.absorbs_iff_beneath hp).1 habsorbs
  obtain ⟨g', hg', hjumps, hnext⟩ := hG.flows i insn g hinsn hg
  rcases edges_cases hes he with ⟨x, hx, hstart, hstop, rfl⟩ | ⟨f', hf', hedge⟩
  · obtain ⟨r, hr, hx⟩ := (mapM_ok hhandlers).2 x hx
    obtain ⟨hxstart, hxstop, hxtarget, -⟩ := handler_ok hx
    obtain ⟨start, stop, target, hregion, hcaught⟩ := hG.caught r hr
    obtain rfl := Option.some.inj (hxstart.symm.trans hregion.start)
    obtain rfl := Option.some.inj (hxstop.symm.trans hregion.stop)
    obtain rfl := Option.some.inj (hxtarget.symm.trans hregion.target)
    have hlocals : (⟨f.locals, [x.caught]⟩ : Frame).Beneath p ⟨g.locals, [x.caught]⟩ :=
      ⟨hfg.locals, .cons (.refl _) .nil⟩
    refine below_trans hp hlocals ?_
    rw [handler_caught hx]
    exact hcaught i g hg hstart hstop
  · rcases hedge with ⟨l, hl, hn, rfl⟩ | ⟨hfalls, rfl⟩
    · obtain ⟨n, hn', hbelow⟩ := hjumps l hl
      obtain rfl := Option.some.inj (hn.symm.trans hn')
      refine below_trans hp (Frame.apply_beneath hfg hf' hg' fun c d hinsn' => ?_) hbelow
      -- a load jumps nowhere
      subst hinsn'
      exact absurd hl (by simp [Insn.targets])
    · exact next_below hp hflat hinsn hfg hf' hg' hload (hnext hfalls).2

theorem allBelow_arrive (hs : AllBelow p s.frames assigned) (hf : Below p assigned (i, f)) :
    AllBelow p (arrive s i f).frames assigned := by
  intro j g hg
  have hget : ((s.frames.set i (some f))[j]?) = some (some g) := hg
  rw [List.getElem?_set] at hget
  split at hget
  · rename_i hij
    subst hij
    split at hget
    · obtain rfl : f = g := by simpa using hget
      exact hf
    · exact absurd hget (by simp)
  · exact hs j g hget

theorem flow_below (hp : p.Layered) (hs : AllBelow p s.frames assigned) (he : Below p assigned e)
    (h : flow ⟨code, handlers, p⟩ s e = .ok t) : AllBelow p t.frames assigned := by
  rcases flow_cases h with ⟨old, -, -, rfl⟩ | ⟨old, g, hold, hmerge, -, rfl⟩ | ⟨-, rfl⟩
  · exact hs
  · obtain ⟨u, hu, habsorbs⟩ := he
    obtain ⟨u', hu', habsorbs'⟩ := hs e.1 old hold
    obtain rfl : u = u' := by simpa [hu] using hu'
    obtain ⟨g', hg', hunder⟩ := Frame.merge_beneath hp ((Frame.absorbs_iff_beneath hp).1 habsorbs')
      ((Frame.absorbs_iff_beneath hp).1 habsorbs)
    obtain rfl : g' = g := Except.ok.inj (hg'.symm.trans hmerge)
    exact allBelow_arrive hs ⟨u, hu, (Frame.absorbs_iff_beneath hp).2 hunder⟩
  · exact allBelow_arrive hs he

theorem flowAll_below (hp : p.Layered) (hs : AllBelow p s.frames assigned) (hes : ∀ e ∈ es, Below p assigned e)
    (h : flowAll ⟨code, handlers, p⟩ s es = .ok t) : AllBelow p t.frames assigned := by
  induction es generalizing s with
  | nil =>
    obtain rfl : s = t := by simpa [Flow.flowAll] using h
    exact hs
  | cons e es ih =>
    rw [Flow.flowAll] at h
    obtain ⟨s', hs', h⟩ := Effect.bind_eq_ok h
    exact ih (flow_below hp hs (hes e List.mem_cons_self) hs') (fun e' he' => hes e' (List.mem_cons_of_mem _ he')) h

section
variable (hp : p.Layered) (hflat : ∀ s t, p.Extends s t → isArrayType t = false)
  (hG : Solution p code table entry assigned) (hhandlers : table.mapM (handler code) = .ok handlers)
include hp hflat hG hhandlers

/-- **One step** of the work list keeps frames below a solution -/
theorem step_below (hs : AllBelow p s.frames assigned)
    (hloads : ∀ i f, LooksAt ⟨code, handlers, p⟩ s i f → LoadsInto code assigned i f)
    (h : step ⟨code, handlers, p⟩ s = .ok t) : AllBelow p t.frames assigned := by
  rcases step_cases h with ⟨-, rfl⟩ | ⟨i, rest, hpending, ⟨-, rfl⟩ | ⟨insn, before, es, hinsn, hbefore, hes, h⟩⟩
  · exact hs
  · exact hs
  · have hlook := hloads i before (.here hpending hbefore)
    have hedges := edges_below hp hflat hG hhandlers hinsn (hs i before hbefore) hlook hes
    exact flowAll_below (s := { s with pending := rest }) hp hs hedges h

/-- **The work list** keeps frames below a solution that has what odd arrays are taken to hold -/
theorem run_below {fuel : Nat} (hs : AllBelow p s.frames assigned)
    (hloads : ∀ i f, LooksAt ⟨code, handlers, p⟩ s i f → LoadsInto code assigned i f)
    (h : run ⟨code, handlers, p⟩ fuel s = .ok t) : AllBelow p t.frames assigned := by
  induction fuel generalizing s with
  | zero =>
    rw [Flow.run] at h
    split at h
    · rw [← Except.ok.inj h]
      exact hs
    · exact absurd h (by simp)
  | succ fuel ih =>
    rw [Flow.run] at h
    split at h
    · rw [← Except.ok.inj h]
      exact hs
    · obtain ⟨s', hs', h⟩ := Effect.bind_eq_ok h
      exact ih (step_below hp hflat hG hhandlers hs hloads hs') (fun i f hlook => hloads i f (.later hs' hlook)) h

end

/-! ## what was looked at has arrived -/

theorem domain_beneath (p : Program) (hp : p.Layered) (hhandlers : table.mapM (handler code) = .ok handlers) :
    Domain ⟨code, handlers, p⟩ (fun _ => True) (fun f g => g.Beneath p f) where
  refl f := .refl p f
  trans _ _ _ hgf heg := heg.trans hp hgf
  apply _ _ _ _ _ := trivial
  caught _ _ _ _ := trivial
  merge _ _ _ _ _ hmerge := by
    obtain ⟨hf, hg⟩ := Frame.beneath_merge hmerge
    exact ⟨trivial, hf, hg⟩
  targets := handlers_target hhandlers

section
variable {b : Body} {S : Frame → Prop} {R : Frame → Frame → Prop}

/-- what has arrived stays arrived in one step -/
theorem Domain.reached_step (d : Domain b S R) (hinv : Inv b S R entry s) (h : step b s = .ok t)
    (he : Reached R s.frames e) : Reached R t.frames e := by
  rcases step_cases h with ⟨-, rfl⟩ | ⟨i, rest, hpending, ⟨-, rfl⟩ | ⟨insn, before, es, hinsn, hbefore, hes, h⟩⟩
  · exact he
  · exact he
  · have hout := d.edges (hinv.all i before hbefore) hes
    obtain ⟨hadv, -, -⟩ := d.flowAll (s := { s with pending := rest }) hinv.all
      (fun e he => by rw [hinv.length]; exact hout e he) h
    exact d.reached_advance (s := { s with pending := rest }) he hadv

theorem Domain.reached_run (d : Domain b S R) {fuel : Nat} (hinv : Inv b S R entry s) (h : run b fuel s = .ok t)
    (he : Reached R s.frames e) : Reached R t.frames e := by
  induction fuel generalizing s with
  | zero =>
    rw [Flow.run] at h
    split at h
    · rw [← Except.ok.inj h]
      exact he
    · exact absurd h (by simp)
  | succ fuel ih =>
    rw [Flow.run] at h
    split at h
    · rw [← Except.ok.inj h]
      exact he
    · obtain ⟨s', hs', h⟩ := Effect.bind_eq_ok h
      exact ih (hinv.step d hs') h (d.reached_step hinv hs' he)

/-- a run goes on with a step, or nothing was pending -/
theorem run_step {fuel : Nat} (h : run b fuel s = .ok t) :
    (s.pending = [] ∧ t = s) ∨ ∃ s' n, step b s = .ok s' ∧ run b n s' = .ok t := by
  cases fuel with
  | zero =>
    rw [Flow.run] at h
    split at h
    · rename_i hempty
      exact .inl ⟨List.isEmpty_iff.1 hempty, (Except.ok.inj h).symm⟩
    · exact absurd h (by simp)
  | succ fuel =>
    rw [Flow.run] at h
    split at h
    · rename_i hempty
      exact .inl ⟨List.isEmpty_iff.1 hempty, (Except.ok.inj h).symm⟩
    · obtain ⟨s', hs', h⟩ := Effect.bind_eq_ok h
      exact .inr ⟨s', fuel, hs', h⟩

/-- **What flowed out of an instruction** when it was looked at has arrived in the end -/
theorem LooksAt.arrived (d : Domain b S R) (h : LooksAt b s i f) (hinv : Inv b S R entry s) {fuel : Nat}
    (hrun : run b fuel s = .ok t) {insn : Insn} (hinsn : b.code[i]? = some insn) :
    ∃ es, edges b i insn f = .ok es ∧ ∀ e ∈ es, Reached R t.frames e := by
  induction h generalizing fuel with
  | @here s i rest f hpending hframe =>
    rcases run_step hrun with ⟨hnil, -⟩ | ⟨s', n, hs', hrun⟩
    · exact absurd hnil (by rw [hpending]; simp)
    · have hinv' := hinv.step d hs'
      rcases step_cases hs' with ⟨hnil, -⟩ | ⟨j, rest', hpending', hcases⟩
      · exact absurd hnil (by rw [hpending]; simp)
      · obtain ⟨rfl, rfl⟩ : i = j ∧ rest = rest' := by simpa [hpending] using hpending'
        rcases hcases with ⟨hnone, -⟩ | ⟨insn', before, es, hinsn', hbefore, hes, hflow⟩
        · exact absurd hframe (hnone insn f hinsn)
        · obtain rfl := Option.some.inj (hinsn.symm.trans hinsn')
          obtain rfl : f = before := by simpa [hframe] using hbefore
          have hout := d.edges (hinv.all i f hframe) hes
          obtain ⟨-, -, hreached⟩ := d.flowAll (s := { s with pending := rest }) hinv.all
            (fun e he => by rw [hinv.length]; exact hout e he) hflow
          exact ⟨es, hes, fun e he => d.reached_run hinv' hrun (hreached e he)⟩
  | @later s u i f hstep _ ih =>
    rcases run_step hrun with ⟨hnil, rfl⟩ | ⟨s', n, hs', hrun'⟩
    · -- nothing was pending, and the step did nothing
      rcases step_cases hstep with ⟨-, rfl⟩ | ⟨j, rest, hpending, -⟩
      · exact ih hinv hrun hinsn
      · exact absurd hnil (by rw [hpending]; simp)
    · obtain rfl : s' = u := Except.ok.inj (hs'.symm.trans hstep)
      exact ih (hinv.step d hstep) hrun' hinsn

end

/-! ## the frames of a method -/

variable {frames : List (Option Frame)}

/-- the frames of a method are what its work list ends with -/
theorem frames_ok (h : Flow.frames p code table entry = .ok frames) :
    ∃ handlers t, table.mapM (handler code) = .ok handlers ∧ code ≠ [] ∧
      run ⟨code, handlers, p⟩ (stepBound ⟨code, handlers, p⟩ entry) (start code entry) = .ok t ∧ frames = t.frames := by
  obtain ⟨handlers, hhandlers, h⟩ := Effect.bind_eq_ok h
  split at h
  · exact absurd h (by simp)
  · rename_i hne
    obtain ⟨t, ht, h⟩ := Effect.bind_eq_ok h
    exact ⟨handlers, t, hhandlers, fun hnil => hne (by rw [hnil]; rfl), ht, (Except.ok.inj h).symm⟩

section
variable (hp : p.Layered) (hflat : ∀ s t, p.Extends s t → isArrayType t = false)
  (h : Flow.frames p code table entry = .ok frames) (hG : Solution p code table entry assigned)
include hp hflat h hG

/-- the frames of a method are below a solution that has what odd arrays are taken to hold -/
theorem frames_below (hloads : ∀ i f, Looked p code table entry i f → LoadsInto code assigned i f) :
    AllBelow p frames assigned := by
  obtain ⟨handlers, t, hhandlers, hne, hrun, rfl⟩ := frames_ok h
  refine run_below hp hflat hG hhandlers (fun i f hf => ?_) (fun i f hlook => hloads i f ⟨handlers, hhandlers, hlook⟩)
    hrun
  obtain ⟨rfl, rfl⟩ := getElem?_start hf
  exact hG.entry

/-- **The frames of a method** are below a solution of its flow equations exactly if the solution has, behind every
load of a reference from an odd array, what the element is taken for -/
theorem frames_below_iff :
    (∀ i f, frames[i]? = some (some f) → Below p assigned (i, f)) ↔
      ∀ i f, Looked p code table entry i f → LoadsInto code assigned i f := by
  constructor
  · rintro hbelow i f ⟨handlers, hhandlers, hlook⟩ hinsn c hc hodd g hg
    obtain ⟨handlers', t, hhandlers', hne, hrun, rfl⟩ := frames_ok h
    obtain rfl : handlers' = handlers := Except.ok.inj (hhandlers'.symm.trans hhandlers)
    have d := domain_beneath p hp hhandlers
    obtain ⟨es, hes, harrived⟩ := hlook.arrived d (d.inv_start hne trivial) hrun hinsn
    obtain ⟨f', hout⟩ := edges_ok hes
    obtain ⟨u, hu, hunder⟩ := harrived _ (hout.next rfl).2
    obtain ⟨g', hg', habsorbs⟩ := hbelow (i + 1) u hu
    obtain rfl : g' = g := by simpa [hg] using hg'.symm
    have hbeneath := hunder.trans hp ((Frame.absorbs_iff_beneath hp).1 habsorbs)
    obtain ⟨n, c', rest, hfs, rfl⟩ := Frame.apply_arrayLoad hout.applied
    obtain rfl : c' = c := by simpa [hfs] using hc
    have hstack := hbeneath.stack
    cases hgs : g'.stack with
    | nil => exact absurd hstack (by rw [hgs]; simp)
    | cons top below =>
      rw [hgs] at hstack
      rw [Frame.eq_of_odd_under hp hodd (List.forall₂_cons.1 hstack).1]
      rfl
  · exact frames_below hp hflat h hG

end

/-- **Without loads of references from arrays** the frames of a method are the least solution -/
theorem frames_least (hp : p.Layered) (hflat : ∀ s t, p.Extends s t → isArrayType t = false)
    (h : Flow.frames p code table entry = .ok frames) (hcode : .arrayLoad .ref ∉ code) :
    Solution p code table entry frames ∧
      ∀ assigned, Solution p code table entry assigned → AllBelow p frames assigned := by
  refine ⟨solution_of_frames hp h, fun assigned hG => frames_below hp hflat h hG fun i f _ hinsn => ?_⟩
  exact absurd (List.mem_of_getElem? hinsn) hcode

end

/-! #### an array that is null at first -/

namespace Latecomer

/-- one class -/
def program : Program where
  classes := [("demo/A", ⟨"demo/A", some objectType, [], [], []⟩)]

/-- a local is null on the way into the loop and an array on the way back; what it is not null for is loaded -/
def code : List Insn :=
  [.nullConst, .store .ref 1, .label ⟨0⟩, .load .ref 1, .branchNull ⟨1⟩, .load .ref 1, .intConst 0, .arrayLoad .ref, .pop,
    .label ⟨1⟩, .load .ref 0, .store .ref 1, .intConst 0, .branch .eq ⟨0⟩, .ret none]

def entry : Frame := ⟨[.ref "[Ldemo/A;", .empty], []⟩

def first (stack : List Category) : Option Frame := some ⟨[.ref "[Ldemo/A;", .empty], stack⟩

def frame (stack : List Category) : Option Frame := some ⟨[.ref "[Ldemo/A;", .ref "[Ldemo/A;"], stack⟩

/-- frames with a category for the element -/
def framesWith (element : Category) : List (Option Frame) :=
  [first [], first [.null], frame [], frame [], frame [.ref "[Ldemo/A;"], frame [], frame [.ref "[Ldemo/A;"],
    frame [.int, .ref "[Ldemo/A;"], frame [element], frame [], frame [], frame [.ref "[Ldemo/A;"], frame [],
    frame [.int], frame []]

theorem layered : program.Layered := .of_declared (by decide) (by decide +kernel)

theorem flat : ∀ s t, program.Extends s t → isArrayType t = false :=
  Program.superclass_not_array (by decide +kernel)

/-- the element stays what it was taken for when the array was null -/
theorem frames_eq : Flow.frames program code [] entry = .ok (framesWith (.ref objectType)) := by decide +kernel

/-- it may be what the array holds -/
theorem solution : Solution program code [] entry (framesWith (.ref "demo/A")) :=
  have hchecks : ∀ e ∈ ((framesWith (.ref "demo/A")).zip code).zipIdx, ∀ f ∈ e.1.1,
      closedAt ⟨code, [], program⟩ (framesWith (.ref "demo/A")) e.2 e.1.2 f := by decide +kernel
  .of_closed rfl rfl (by decide) fun _ _ _ hinsn hf => closed_of_checks (b := ⟨code, [], program⟩) hchecks hinsn hf

end Latecomer

theorem frames_below_iff_latecomer :
    Latecomer.program.Layered ∧ (∀ s t, Latecomer.program.Extends s t → isArrayType t = false) ∧
      Flow.frames Latecomer.program Latecomer.code [] Latecomer.entry = .ok (Latecomer.framesWith (.ref objectType)) ∧
      Solution Latecomer.program Latecomer.code [] Latecomer.entry (Latecomer.framesWith (.ref "demo/A")) ∧
      ((∀ i f, (Latecomer.framesWith (.ref objectType))[i]? = some (some f) →
          Below Latecomer.program (Latecomer.framesWith (.ref "demo/A")) (i, f)) ↔
        ∀ i f, Looked Latecomer.program Latecomer.code [] Latecomer.entry i f →
          LoadsInto Latecomer.code (Latecomer.framesWith (.ref "demo/A")) i f) :=
  ⟨Latecomer.layered, Latecomer.flat, Latecomer.frames_eq, Latecomer.solution,
    frames_below_iff Latecomer.layered Latecomer.flat Latecomer.frames_eq Latecomer.solution⟩

/-- what the frames of a method are below is not every solution -/
theorem frames_not_least :
    ¬ ∀ (p : Program) (code : List Insn) (table : List TryCatch) (entry : Frame)
      (frames assigned : List (Option Frame)), p.Layered → (∀ s t, p.Extends s t → isArrayType t = false) →
      Flow.frames p code table entry = .ok frames → Solution p code table entry assigned →
      ∀ i f, frames[i]? = some (some f) → Below p assigned (i, f) := by
  intro h
  have hbelow := h _ _ _ _ _ _ Latecomer.layered Latecomer.flat Latecomer.frames_eq Latecomer.solution 8 _ rfl
  exact absurd hbelow (by decide +kernel)

end Flow
end Resumable
