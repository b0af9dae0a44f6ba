import Resumable.Proofs.Joins

/-!
# The frames are a solution

In a layered hierarchy the frames that the work list ends with absorb whatever flows to them: the entry frame,
what an instruction leaves on the way to its jump targets and to the next one, and what a handler gets.  So
control reaches no instruction without a frame.

* `Flow.Goes` : where control may go from an instruction;
* `Flow.Solution` : the flow equations;
* `Flow.frames_solution` : the frames of a method solve them.
-/

namespace Resumable
namespace Flow

/-- an exception region by positions -/
structure RegionAt (code : List Insn) (t : TryCatch) (start stop target : Nat) : Prop where
  start : labelPosition t.start code = some start
  stop : labelPosition t.stop code = some stop
  target : labelPosition t.handler code = some target

/-- control may go on from one instruction at another -/
inductive Goes (code : List Insn) (table : List TryCatch) : Nat → Nat → Prop
  | jump {i n : Nat} {insn : Insn} {l : Label} (hinsn : code[i]? = some insn) (hl : l ∈ insn.targets)
      (hn : labelPosition l code = some n) : Goes code table i n
  | next {i : Nat} {insn : Insn} (hinsn : code[i]? = some insn) (hfalls : insn.fallsThrough = true) :
      Goes code table i (i + 1)
  | caught {i start stop target : Nat} {t : TryCatch} (ht : t ∈ table) (hregion : RegionAt code t start stop target)
      (hstart : start ≤ i) (hstop : i < stop) : Goes code table i target

/-- Frames that solve the flow equations: an instruction can stand in its frame, and what flows out of it is
below the frame of where it arrives. -/
structure Solution (p : Program) (code : List Insn) (table : List TryCatch) (entry : Frame)
    (frames : List (Option Frame)) : Prop where
  length : frames.length = code.length
  entry : Below p frames (0, entry)
  flows : ∀ i insn f, code[i]? = some insn → frames[i]? = some (some f) → ∃ g, f.apply insn = .ok g ∧
    (∀ l ∈ insn.targets, ∃ n, labelPosition l code = some n ∧ Below p frames (n, g)) ∧
    (insn.fallsThrough = true → i + 1 < code.length ∧ Below p frames (i + 1, g))
  caught : ∀ t ∈ table, ∃ start stop target, RegionAt code t start stop target ∧
    ∀ i f, frames[i]? = some (some f) → start ≤ i → i < stop →
      Below p frames (target, ⟨f.locals, [.ref (t.catchType.getD throwableType)]⟩)

section
variable {p : Program} {code : List Insn} {table : List TryCatch} {entry : Frame} {frames : List (Option Frame)}

/-- control goes from instructions with frames to instructions with frames -/
theorem Solution.goes (h : Solution p code table entry frames) {i n : Nat} (hgoes : Goes code table i n)
    (hi : ∃ f, frames[i]? = some (some f)) : ∃ f, frames[n]? = some (some f) := by
  obtain ⟨f, hf⟩ := hi
  have hpresent {n : Nat} {g : Frame} (hbelow : Below p frames (n, g)) : ∃ f, frames[n]? = some (some f) := by
    obtain ⟨f', hf', -⟩ := hbelow
    exact ⟨f', hf'⟩
  cases hgoes with
  | jump hinsn hl hn =>
    obtain ⟨g, -, hjumps, -⟩ := h.flows _ _ f hinsn hf
    obtain ⟨n', hn', hbelow⟩ := hjumps _ hl
    rw [hn] at hn'
    rw [Option.some.inj hn']
    exact hpresent hbelow
  | next hinsn hfalls =>
    obtain ⟨g, -, -, hnext⟩ := h.flows _ _ f hinsn hf
    exact hpresent (hnext hfalls).2
  | caught ht hregion hstart hstop =>
    obtain ⟨start, stop, target, hregion', hcaught⟩ := h.caught _ ht
    have hstart' := hregion.start.symm.trans hregion'.start
    have hstop' := hregion.stop.symm.trans hregion'.stop
    have htarget' := hregion.target.symm.trans hregion'.target
    obtain rfl := Option.some.inj hstart'
    obtain rfl := Option.some.inj hstop'
    obtain rfl := Option.some.inj htarget'
    exact hpresent (hcaught i f hf hstart hstop)

/-- whatever control reaches has a frame -/
theorem Solution.reached (h : Solution p code table entry frames) {i : Nat}
    (hreached : Relation.ReflTransGen (Goes code table) 0 i) : ∃ f, frames[i]? = some (some f) := by
  induction hreached with
  | refl =>
    obtain ⟨f, hf, -⟩ := h.entry
    exact ⟨f, hf⟩
  | tail _ hgoes ih => exact h.goes hgoes ih

/-- in a layered hierarchy frames with so many locals move upward in the order of frames -/
theorem domain_under (hp : p.Layered) {handlers : List Handler} (h : table.mapM (handler code) = .ok handlers)
    (n : Nat) : Domain ⟨code, handlers, p⟩ (fun f => f.locals.length = n) (fun f g => g.Under p f) where
  refl f := .refl p f
  trans _ _ _ hgf heg := Frame.under_trans hp heg hgf
  apply _ _ _ hf happly := (Frame.length_apply happly).trans hf
  caught _ _ _ hf := hf
  merge f g e hf hg hmerge := by
    obtain ⟨hfe, hge⟩ := Frame.under_merge (hf.trans hg.symm) hmerge
    exact ⟨hfe.locals.length_eq.symm.trans hf, hfe, hge⟩
  targets := handlers_target h

/-- what has arrived is absorbed -/
theorem below_of_reached (hp : p.Layered) {n : Nat} {e : Edge} (hframes : AllFrames (fun f => f.locals.length = n) frames)
    (he : e.2.locals.length = n) (h : Reached (fun f g => g.Under p f) frames e) : Below p frames e := by
  obtain ⟨f, hf, hunder⟩ := h
  have hlen : f.locals.length = e.2.locals.length := (hframes e.1 f hf).trans he.symm
  exact ⟨f, hf, (Frame.absorbs_iff hp hlen).2 hunder⟩

/-- frames below which everything is that flows out of an instruction solve the flow equations -/
theorem Solution.of_closed {handlers : List Handler} (hhandlers : table.mapM (handler code) = .ok handlers)
    (hlength : frames.length = code.length) (hentry : Below p frames (0, entry))
    (hclosed : ∀ i insn f, code[i]? = some insn → frames[i]? = some (some f) →
      ∃ es, edges ⟨code, handlers, p⟩ i insn f = .ok es ∧ ∀ e ∈ es, Below p frames e) :
    Solution p code table entry frames := by
  refine ⟨hlength, hentry, fun i insn f hinsn hf => ?_, fun t ht => ?_⟩
  · obtain ⟨es, hes, hbelow⟩ := hclosed i insn f hinsn hf
    obtain ⟨g, hout⟩ := edges_ok hes
    refine ⟨g, hout.applied, fun l hl => ?_, fun hfalls => ?_⟩
    · obtain ⟨n, hn, hmem⟩ := hout.jumps l hl
      exact ⟨n, hn, hbelow _ hmem⟩
    · obtain ⟨hlt, hmem⟩ := hout.next hfalls
      exact ⟨hlt, hbelow _ hmem⟩
  · obtain ⟨h', hmem, hhandler⟩ := (mapM_ok hhandlers).1 t ht
    obtain ⟨hstart, hstop, htarget, -⟩ := handler_ok hhandler
    refine ⟨h'.start, h'.stop, h'.target, ⟨hstart, hstop, htarget⟩, fun i f hf hle hlt => ?_⟩
    have hi : i < code.length := hlength ▸ (List.getElem?_eq_some_iff.1 hf).1
    obtain ⟨es, hes, hbelow⟩ := hclosed i code[i] f (List.getElem?_eq_getElem hi) hf
    obtain ⟨g, hout⟩ := edges_ok hes
    rw [← handler_caught hhandler]
    exact hbelow _ (hout.handlers h' hmem hle hlt)

/-- in a layered hierarchy the frames of a method are a solution -/
theorem solution_of_frames (hp : p.Layered) (h : Flow.frames p code table entry = .ok frames) :
    Solution p code table entry frames := by
  obtain ⟨handlers, hhandlers, hsolved⟩ :=
    frames_solved (fun handlers hh => domain_under hp hh entry.locals.length) rfl h
  have hdomain := domain_under hp hhandlers entry.locals.length
  have hbelow (e : Edge) (he : e.2.locals.length = entry.locals.length)
      (hreached : Reached (fun f g => g.Under p f) frames e) : Below p frames e :=
    below_of_reached hp hsolved.all he hreached
  refine .of_closed hhandlers hsolved.length (hbelow _ rfl hsolved.entry) fun i insn f hinsn hf => ?_
  obtain ⟨es, hes, hreached⟩ := hsolved.closed i insn f hinsn hf
  exact ⟨es, hes, fun e he => hbelow e (hdomain.edges (hsolved.all i f hf) hes e he).2 (hreached e he)⟩

/-- **The frames of a method** solve its flow equations, and control reaches no instruction without a frame -/
theorem frames_solution (hp : p.Layered) (h : Flow.frames p code table entry = .ok frames) :
    Solution p code table entry frames ∧
      ∀ i, Relation.ReflTransGen (Goes code table) 0 i → ∃ f, frames[i]? = some (some f) := by
  have hsolution := solution_of_frames hp h
  exact ⟨hsolution, fun i hi => hsolution.reached hi⟩

end

/-! #### a loop that joins a type and its superclass -/

namespace Looping

/-- one class extends another -/
def program : Program where
  classes := [("demo/A", ⟨"demo/A", some objectType, [], [], []⟩), ("demo/B", ⟨"demo/B", some "demo/A", [], [], []⟩)]

/-- the parameter is overwritten with an object of the superclass as often as asked for -/
def code : List Insn :=
  [.label ⟨0⟩, .new "demo/A", .store .ref 0, .load .int 1, .branch .ne ⟨0⟩, .label ⟨1⟩, .ret none, .label ⟨2⟩, .pop,
    .ret none]

def table : List TryCatch := [⟨⟨0⟩, ⟨1⟩, ⟨2⟩, none⟩]

def entry : Frame := ⟨[.ref "demo/B", .int], []⟩

def frame (stack : List Category) : Option Frame := some ⟨[.ref "demo/A", .int], stack⟩

def frames : List (Option Frame) :=
  [frame [], frame [], frame [.ref "demo/A"], frame [], frame [.int], frame [], frame [],
    frame [.ref throwableType], frame [.ref throwableType], frame []]

theorem layered : program.Layered := .of_declared (by decide) (by decide)

theorem frames_eq : Flow.frames program code table entry = .ok frames := by decide +kernel

end Looping

theorem frames_solution_looping :
    Looping.program.Layered ∧ Flow.frames Looping.program Looping.code Looping.table Looping.entry = .ok Looping.frames ∧
      Solution Looping.program Looping.code Looping.table Looping.entry Looping.frames ∧
      ∀ i, Relation.ReflTransGen (Goes Looping.code Looping.table) 0 i → ∃ f, Looping.frames[i]? = some (some f) :=
  ⟨Looping.layered, Looping.frames_eq, frames_solution Looping.layered Looping.frames_eq⟩

end Flow
end Resumable
