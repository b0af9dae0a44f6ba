import Resumable.Proofs.Settled

/-!
# Frames that any hierarchy gives

The analysis asks a hierarchy for one thing only: a type that two types have in common.  Whatever the answers are,
also if they are no supertypes at all, the frames have one form: as many locals as at the start, an empty slot behind
each wide local, and operands that are values.

* `Oracle`, `Oracle.frames` : what gives common types, and the analysis that asks it;
* `frames_eq_oracle` : the analysis of a program asks its hierarchy;
* `Frame.Formed`, `Frame.Formed.apply`, `Frame.Formed.join` : the form, kept by instructions and by joins;
* `Oracle.formed_run` : kept by the work list;
* `Oracle.frames_formed` : the frames of a method.
-/

namespace Resumable

/-- what gives a type that two types have in common -/
structure Oracle where
  common : String → String → String

namespace Oracle

/-! ## joins -/

/-- the join of two categories, if there is one -/
def category? (o : Oracle) (a b : Category) : Option Category :=
  if a = b then some a
  else
    match a, b with
    | .null, .ref t => some (.ref t)
    | .ref t, .null => some (.ref t)
    | .ref s, .ref t => some (.ref (o.common s t))
    | _, _ => none

/-- the join of two stacks of one height -/
def stack (o : Oracle) : List Category → List Category → Except AnalysisFailure (List Category)
  | a :: as, b :: bs => do
    let rest ← o.stack as bs
    match o.category? a b with
    | some c => .ok (c :: rest)
    | none => .error (.mergeConflict a b)
  | _, _ => .ok []

/-- the join of two lists of locals; the longer one is followed by empty slots -/
def locals (o : Oracle) : List Category → List Category → List Category
  | a :: as, b :: bs => (o.category? a b).getD .empty :: o.locals as bs
  | [], bs => bs.map fun _ => .empty
  | as, [] => as.map fun _ => .empty

/-- the join of two frames that reach the same instruction -/
def join (o : Oracle) (f g : Frame) : Except AnalysisFailure Frame :=
  if f.stack.length = g.stack.length then do
    let stack ← o.stack f.stack g.stack
    .ok { locals := o.locals f.locals g.locals, stack }
  else .error (.stackHeightMismatch f.stack.length g.stack.length)

/-! ## the work list -/

open Resumable.Flow

/-- one edge: the frame is joined into its target -/
def flow (o : Oracle) (s : State) (e : Edge) : Except Located State :=
  match s.frames[e.1]? with
  | some (some old) =>
    match o.join old e.2 with
    | .ok g => .ok (if g = old then s else arrive s e.1 g)
    | .error f => .error ⟨e.1, f⟩
  | _ => .ok (arrive s e.1 e.2)

/-- edges in order -/
def flowAll (o : Oracle) : State → List Edge → Except Located State
  | s, [] => .ok s
  | s, e :: es => do
    let s ← o.flow s e
    o.flowAll s es

/-- the first pending instruction; what flows out of it does not depend on the hierarchy -/
def step (o : Oracle) (b : Flow.Body) (s : State) : Except Located State :=
  match s.pending with
  | [] => .ok s
  | i :: pending =>
    let s := { s with pending }
    match b.code[i]?, s.frames[i]? with
    | some insn, some (some before) => do
      let es ← edges b i insn before
      o.flowAll s es
    | _, _ => .ok s

/-- steps until nothing is pending, at most `fuel` -/
def run (o : Oracle) (b : Flow.Body) : Nat → State → Except Located State
  | 0, s => if s.pending.isEmpty then .ok s else .error ⟨s.pending.headD 0, .unsettled⟩
  | fuel + 1, s =>
    if s.pending.isEmpty then .ok s
    else do
      let s ← o.step b s
      o.run b fuel s

/-- the frame before every instruction, found within so many steps -/
def frames (o : Oracle) (fuel : Nat) (code : List Insn) (table : List TryCatch) (entry : Frame) :
    Except Located (List (Option Frame)) := do
  let handlers ← table.mapM (handler code)
  if code.isEmpty then .error ⟨0, .fallOffEnd⟩
  else
    let s ← o.run ⟨code, handlers, .empty⟩ fuel (start code entry)
    .ok s.frames

end Oracle

/-! ## the hierarchy of a program -/

/-- a program knows the common types of its hierarchy -/
def Program.oracle (p : Program) : Oracle := ⟨p.commonSupertype⟩

section
variable {p : Program}

theorem category?_oracle (p : Program) (a b : Category) : p.oracle.category? a b = mergeCategory p a b := rfl

theorem stack_oracle (p : Program) (as bs : List Category) : p.oracle.stack as bs = Frame.mergeStack p as bs := by
  induction as generalizing bs with
  | nil => rfl
  | cons a as ih =>
    cases bs with
    | nil => rfl
    | cons b bs =>
      let further (rest : List Category) : Except AnalysisFailure (List Category) :=
        match mergeCategory p a b with
        | some c => .ok (c :: rest)
        | none => .error (.mergeConflict a b)
      show p.oracle.stack as bs >>= further = Frame.mergeStack p as bs >>= further
      rw [ih]

theorem locals_oracle (p : Program) (as bs : List Category) :
    p.oracle.locals as bs = Frame.mergeLocals p as bs := by
  induction as generalizing bs with
  | nil => rfl
  | cons a as ih =>
    cases bs with
    | nil => rfl
    | cons b bs => rw [Oracle.locals, Frame.mergeLocals, ih, category?_oracle]

theorem join_oracle (p : Program) (f g : Frame) : p.oracle.join f g = f.merge p g := by
  unfold Oracle.join Frame.merge
  rw [stack_oracle, locals_oracle]

theorem flow_oracle (b : Flow.Body) (s : Flow.State) (e : Flow.Edge) :
    b.program.oracle.flow s e = Flow.flow b s e := by
  unfold Oracle.flow Flow.flow
  simp only [join_oracle]
  rfl

theorem flowAll_oracle (b : Flow.Body) (s : Flow.State) (es : List Flow.Edge) :
    b.program.oracle.flowAll s es = Flow.flowAll b s es := by
  induction es generalizing s with
  | nil => rfl
  | cons e es ih =>
    rw [Oracle.flowAll, Flow.flowAll, flow_oracle]
    exact congrArg _ (funext ih)

theorem edges_program (b : Flow.Body) (p : Program) (i : Nat) (insn : Insn) (before : Frame) :
    Flow.edges { b with program := p } i insn before = Flow.edges b i insn before := by
  have hjumps (after : Frame) (ls : List Label) :
      Flow.jumpEdges { b with program := p } i after ls = Flow.jumpEdges b i after ls := by
    induction ls with
    | nil => rfl
    | cons l ls ih =>
      unfold Flow.jumpEdges
      rw [ih]
  unfold Flow.edges
  simp only [hjumps]
  rfl

theorem step_oracle (b : Flow.Body) (s : Flow.State) :
    b.program.oracle.step { b with program := .empty } s = Flow.step b s := by
  have hedges := edges_program b .empty
  have hflow := flowAll_oracle b
  unfold Oracle.step Flow.step
  cases s.pending with
  | nil => rfl
  | cons i pending =>
    dsimp only
    cases b.code[i]? with
    | none => rfl
    | some insn =>
      cases s.frames[i]? with
      | none => rfl
      | some before =>
        cases before with
        | none => rfl
        | some before =>
          show (Flow.edges { b with program := .empty } i insn before >>= b.program.oracle.flowAll ⟨s.frames, pending⟩) =
            (Flow.edges b i insn before >>= Flow.flowAll b ⟨s.frames, pending⟩)
          rw [hedges, funext (hflow _)]

theorem run_oracle (b : Flow.Body) (fuel : Nat) (s : Flow.State) :
    b.program.oracle.run { b with program := .empty } fuel s = Flow.run b fuel s := by
  induction fuel generalizing s with
  | zero => rfl
  | succ fuel ih =>
    unfold Oracle.run Flow.run
    rw [step_oracle]
    split
    · rfl
    · exact congrArg _ (funext ih)

/-- **The analysis of a program** asks nothing else of it -/
theorem frames_eq_oracle (p : Program) (code : List Insn) (table : List TryCatch) (entry : Frame) :
    Flow.frames p code table entry =
      p.oracle.frames (Flow.stepBound ⟨code, [], p⟩ entry) code table entry := by
  unfold Flow.frames Oracle.frames
  refine congrArg _ (funext fun handlers => ?_)
  split
  · rfl
  · exact congrArg (fun x => x >>= fun s : Flow.State => Except.ok s.frames)
      (run_oracle ⟨code, handlers, p⟩ _ _).symm

end

/-! ## the form of a frame -/

/-- a frame of a method with so many locals: sound, and no local holds an address -/
structure Frame.Formed (n : Nat) (f : Frame) : Prop extends f.Sound n where
  address : .returnAddress ∉ f.locals

namespace Frame

section
variable {o : Oracle} {f g e : Frame} {n i : Nat} {insn : Insn} {a b c : Category} {as bs cs : List Category}

/-- the slot behind a wide local is empty -/
theorem Formed.behind (h : f.Formed n) (hc : f.locals[i]? = some c) (hwide : c.width = 2) :
    f.locals[i + 1]? = some .empty := by
  obtain ⟨d, hd, hnone⟩ := h.wide i c hc hwide
  cases d with
  | empty => exact hd
  | returnAddress => exact absurd (List.mem_of_getElem? hd) h.address
  | _ => exact absurd hnone (by simp [Category.kind?])

/-- operands are values -/
theorem Formed.operands (h : f.Formed n) (hc : c ∈ f.stack) : c ≠ .empty ∧ c ≠ .returnAddress := by
  obtain ⟨k, hk⟩ := h.loaded c hc
  constructor <;> rintro rfl <;> exact absurd hk (by simp [Category.kind?])

theorem Formed.caught (h : f.Formed n) (hc : c.kind? = some .ref) : Formed n ⟨f.locals, [c]⟩ where
  length := h.length
  wide := h.wide
  loaded := fun d hd => ⟨.ref, by rw [List.mem_singleton.1 hd, hc]⟩
  address := h.address

/-! ### instructions -/

theorem mem_putLocal (h : a ∈ putLocal as i c) : a ∈ as ∨ a = c ∨ a = .empty := by
  have hset {ds : List Category} {j : Nat} {d : Category} (h : a ∈ ds.set j d) : a ∈ ds ∨ a = d :=
    List.mem_or_eq_of_mem_set h
  have hcleared (h : a ∈ cleared as i) : a ∈ as ∨ a = .empty := by
    cases i with
    | zero => exact .inl h
    | succ j =>
      rw [cleared] at h
      split at h
      · exact hset h
      · exact .inl h
  rw [putLocal_eq] at h
  split at h
  · rcases hset h with h | h
    · rcases hset h with h | h
      · exact (hcleared h).imp_right .inr
      · exact .inr (.inl h)
    · exact .inr (.inr h)
  · rcases hset h with h | h
    · exact (hcleared h).imp_right .inr
    · exact .inr (.inl h)

/-- **Instructions** keep the form -/
theorem Formed.apply (h : f.Formed n) (happly : f.apply insn = .ok g) : g.Formed n := by
  refine ⟨h.toSound.apply happly, fun hmem => ?_⟩
  by_cases hstore : ∃ k slot, insn = .store k slot
  · obtain ⟨k, slot, rfl⟩ := hstore
    obtain ⟨c, -, -, hk, -, hlocals, -⟩ := apply_store happly
    rw [hlocals] at hmem
    rcases mem_putLocal hmem with hmem | rfl | hempty
    · exact h.address hmem
    · exact absurd hk (by simp [Category.kind?])
    · exact absurd hempty (by simp)
  · rw [(Keeps.of_apply (fun k slot heq => hstore ⟨k, slot, heq⟩) happly).locals] at hmem
    exact h.address hmem

/-! ### joins -/

/-- categories that join are the same, or references, which join to one -/
theorem category?_cases (h : o.category? a b = some c) :
    c = a ∧ c = b ∨ c.kind? = some .ref ∧ a.kind? = some .ref ∧ b.kind? = some .ref := by
  unfold Oracle.category? at h
  split at h
  · rename_i hab
    obtain rfl := Option.some.inj h
    exact .inl ⟨rfl, hab⟩
  · split at h
    · obtain rfl := Option.some.inj h
      exact .inr ⟨rfl, rfl, rfl⟩
    · obtain rfl := Option.some.inj h
      exact .inr ⟨rfl, rfl, rfl⟩
    · obtain rfl := Option.some.inj h
      exact .inr ⟨rfl, rfl, rfl⟩
    · exact absurd h (by simp)

theorem kind?_category? (h : o.category? a b = some c) : c.kind? = a.kind? ∧ c.kind? = b.kind? := by
  rcases category?_cases h with ⟨ha, hb⟩ | ⟨hc, ha, hb⟩
  · exact ⟨by rw [ha], by rw [hb]⟩
  · exact ⟨hc.trans ha.symm, hc.trans hb.symm⟩

/-- locals of one number are joined slot by slot -/
theorem locals_eq_zipWith (hlen : as.length = bs.length) :
    o.locals as bs = List.zipWith (fun a b => (o.category? a b).getD .empty) as bs := by
  induction as generalizing bs with
  | nil =>
    obtain rfl : bs = [] := List.length_eq_zero_iff.1 hlen.symm
    rfl
  | cons a as ih =>
    cases bs with
    | nil => exact absurd hlen (by simp)
    | cons b bs => rw [Oracle.locals, ih (by simpa using hlen), List.zipWith_cons_cons]

/-- a joined local with a kind comes from two locals of this kind -/
theorem locals_kind? {k : Kind} (hlen : as.length = bs.length) (hc : (o.locals as bs)[i]? = some c)
    (hk : c.kind? = some k) :
    ∃ a b, as[i]? = some a ∧ bs[i]? = some b ∧ a.kind? = some k ∧ b.kind? = some k := by
  rw [locals_eq_zipWith hlen, List.getElem?_zipWith_eq_some] at hc
  obtain ⟨a, b, ha, hb, hjoin⟩ := hc
  cases hm : o.category? a b with
  | none =>
    rw [hm] at hjoin
    exact absurd hk (by rw [← hjoin]; simp [Category.kind?])
  | some d =>
    rw [hm] at hjoin
    obtain rfl : d = c := hjoin
    obtain ⟨hka, hkb⟩ := kind?_category? hm
    exact ⟨a, b, ha, hb, hka ▸ hk, hkb ▸ hk⟩

/-- two empty slots join to one -/
theorem locals_empty (hlen : as.length = bs.length) (ha : as[i]? = some .empty) (hb : bs[i]? = some .empty) :
    (o.locals as bs)[i]? = some .empty := by
  rw [locals_eq_zipWith hlen, List.getElem?_zipWith_eq_some]
  exact ⟨_, _, ha, hb, rfl⟩

theorem address_locals (hlen : as.length = bs.length) (has : .returnAddress ∉ as) :
    .returnAddress ∉ o.locals as bs := by
  intro hmem
  obtain ⟨i, hi⟩ := List.getElem?_of_mem hmem
  rw [locals_eq_zipWith hlen, List.getElem?_zipWith_eq_some] at hi
  obtain ⟨a, b, ha, -, hjoin⟩ := hi
  cases hm : o.category? a b with
  | none =>
    rw [hm] at hjoin
    exact absurd hjoin (by simp)
  | some d =>
    rw [hm] at hjoin
    obtain rfl : d = .returnAddress := hjoin
    rcases category?_cases hm with ⟨heq, -⟩ | ⟨hk, -⟩
    · exact has (heq ▸ List.mem_of_getElem? ha)
    · exact absurd hk (by simp [Category.kind?])

theorem stack_loaded (h : o.stack as bs = .ok cs) (has : ∀ c ∈ as, ∃ k, c.kind? = some k) :
    ∀ c ∈ cs, ∃ k, c.kind? = some k := by
  induction as generalizing bs cs with
  | nil =>
    obtain rfl : [] = cs := Except.ok.inj h
    exact fun c hc => absurd hc (by simp)
  | cons a as ih =>
    cases bs with
    | nil =>
      obtain rfl : [] = cs := Except.ok.inj h
      exact fun c hc => absurd hc (by simp)
    | cons b bs =>
      obtain ⟨rest, hrest, h⟩ := Effect.bind_eq_ok h
      cases hm : o.category? a b with
      | none => rw [hm] at h; exact absurd h (by simp)
      | some d =>
        rw [hm] at h
        obtain rfl : d :: rest = cs := Except.ok.inj h
        intro c hc
        rcases List.mem_cons.1 hc with rfl | hc
        · rw [(kind?_category? hm).1]
          exact has a List.mem_cons_self
        · exact ih hrest (fun c hc => has c (List.mem_cons_of_mem _ hc)) c hc

/-- **Joins** keep the form, whatever the oracle says: where a wide local stays, both frames have one, so that the slots
behind it are empty in both. -/
theorem Formed.join (hf : f.Formed n) (hg : g.Formed n) (h : o.join f g = .ok e) : e.Formed n := by
  have hlen : f.locals.length = g.locals.length := hf.length.trans hg.length.symm
  unfold Oracle.join at h
  split at h
  · obtain ⟨stack, hstack, h⟩ := Effect.bind_eq_ok h
    obtain rfl : Frame.mk (o.locals f.locals g.locals) stack = e := Except.ok.inj h
    refine ⟨⟨?_, fun i c hc hwide => ?_, stack_loaded hstack hf.loaded⟩, address_locals hlen hf.address⟩
    · rw [locals_eq_zipWith hlen, List.length_zipWith, ← hlen, Nat.min_self, hf.length]
    · obtain ⟨k, hk⟩ := Category.kind?_of_width hwide
      obtain ⟨a, b, ha, hb, hka, hkb⟩ := locals_kind? hlen hc hk
      have hkwide : k.width = 2 := (Category.width_eq_of_kind? hk).symm.trans hwide
      have hbehind := hf.behind ha ((Category.width_eq_of_kind? hka).trans hkwide)
      have hbehind' := hg.behind hb ((Category.width_eq_of_kind? hkb).trans hkwide)
      exact ⟨.empty, locals_empty hlen hbehind hbehind', rfl⟩
  · exact absurd h (by simp)

/-! ### the start -/

theorem formed_entry (owner : String) (isStatic : Bool) (desc : MethodDesc) (maxLocals : Nat) :
    (entry owner isStatic desc maxLocals).Formed (entry owner isStatic desc maxLocals).locals.length := by
  refine ⟨Analysis.sound_entry owner isStatic desc maxLocals, fun hmem => ?_⟩
  rcases List.mem_append.1 hmem with hmem | hmem
  · rcases List.mem_append.1 hmem with hmem | hmem
    · cases isStatic <;> simp at hmem
    · obtain ⟨t, -, ht⟩ := List.mem_flatMap.1 hmem
      cases t <;> simp [slots, Category.ofType, Category.width] at ht
  · exact absurd (List.eq_of_mem_replicate hmem) (by simp)

end
end Frame

/-! ## the frames of a method -/

namespace Oracle

open Resumable.Flow

section
variable {o : Oracle} {b : Flow.Body} {n fuel : Nat} {s t : State} {e : Edge} {es : List Edge}

theorem formed_flow (hs : AllFrames (Frame.Formed n) s.frames) (he : e.2.Formed n) (h : o.flow s e = .ok t) :
    AllFrames (Frame.Formed n) t.frames := by
  unfold Oracle.flow at h
  split at h
  · rename_i old hold
    split at h
    · rename_i g hg
      obtain rfl := Except.ok.inj h
      split
      · exact hs
      · exact hs.arrive ((hs e.1 old hold).join he hg)
    · exact absurd h (by simp)
  · obtain rfl := Except.ok.inj h
    exact hs.arrive he

theorem formed_flowAll (hs : AllFrames (Frame.Formed n) s.frames) (hes : ∀ e ∈ es, e.2.Formed n)
    (h : o.flowAll s es = .ok t) : AllFrames (Frame.Formed n) t.frames := by
  induction es generalizing s with
  | nil =>
    obtain rfl : s = t := Except.ok.inj h
    exact hs
  | cons e es ih =>
    obtain ⟨u, hu, h⟩ := Effect.bind_eq_ok h
    exact ih (formed_flow hs (hes e List.mem_cons_self) hu) (fun e he => hes e (List.mem_cons_of_mem _ he)) h

/-- what flows out of an instruction is the frame after it, or that of a handler -/
theorem formed_edges {i : Nat} {insn : Insn} {before : Frame} (hcaught : ∀ h ∈ b.handlers, h.caught.kind? = some .ref)
    (hbefore : before.Formed n) (h : edges b i insn before = .ok es) : ∀ e ∈ es, e.2.Formed n := by
  obtain ⟨after, hes⟩ := edges_ok h
  intro e he
  rcases hes.only e he with ⟨h, hh, rfl⟩ | ⟨-, heq⟩
  · exact hbefore.caught (hcaught h hh)
  · rw [heq]
    exact hbefore.apply hes.applied

/-- **One step** of the work list keeps the form of all frames -/
theorem formed_step (hcaught : ∀ h ∈ b.handlers, h.caught.kind? = some .ref) (hs : AllFrames (Frame.Formed n) s.frames)
    (h : o.step b s = .ok t) : AllFrames (Frame.Formed n) t.frames := by
  unfold Oracle.step at h
  split at h
  · obtain rfl := Except.ok.inj h
    exact hs
  · dsimp only at h
    split at h
    · rename_i i _ _ _ _ insn before _ hbefore
      obtain ⟨es, hes, h⟩ := Effect.bind_eq_ok h
      refine formed_flowAll ?_ (formed_edges hcaught (hs i before hbefore) hes) h
      exact hs
    · obtain rfl := Except.ok.inj h
      exact hs

/-- **Any number of steps** does -/
theorem formed_run (hcaught : ∀ h ∈ b.handlers, h.caught.kind? = some .ref) (hs : AllFrames (Frame.Formed n) s.frames)
    (h : o.run b fuel s = .ok t) : AllFrames (Frame.Formed n) t.frames := by
  induction fuel generalizing s with
  | zero =>
    unfold Oracle.run at h
    split at h
    · obtain rfl := Except.ok.inj h
      exact hs
    · exact absurd h (by simp)
  | succ fuel ih =>
    unfold Oracle.run at h
    split at h
    · obtain rfl := Except.ok.inj h
      exact hs
    · obtain ⟨u, hu, h⟩ := Effect.bind_eq_ok h
      exact ih (formed_step hcaught hs hu) h

theorem allFrames_frames {code : List Insn} {table : List TryCatch} {entry : Frame} {fs : List (Option Frame)}
    (hentry : entry.Formed n) (h : o.frames fuel code table entry = .ok fs) : AllFrames (Frame.Formed n) fs := by
  obtain ⟨handlers, hhandlers, h⟩ := Effect.bind_eq_ok h
  split at h
  · exact absurd h (by simp)
  · obtain ⟨s, hs, h⟩ := Effect.bind_eq_ok h
    obtain rfl : s.frames = fs := Except.ok.inj h
    have hcaught : ∀ h ∈ handlers, h.caught.kind? = some .ref := by
      intro h hh
      obtain ⟨t, -, ht⟩ := (mapM_ok hhandlers).2 h hh
      exact (handler_ok ht).2.2.2
    refine formed_run hcaught (fun i f hf => ?_) hs
    rw [(getElem?_start hf).2]
    exact hentry

/-- **The frames of a method**, whatever types the oracle says that others have in common, have as many locals as the
frame at the start; behind a wide local there is an empty slot, and every operand is a value.  The frames that a program
gives are among them: it asks its hierarchy. -/
theorem frames_formed (o : Oracle) (fuel : Nat) (code : List Insn) (table : List TryCatch) (owner : String)
    (isStatic : Bool) (desc : MethodDesc) (maxLocals : Nat) :
    (∀ fs, o.frames fuel code table (.entry owner isStatic desc maxLocals) = .ok fs →
      ∀ (i : Nat) (f : Frame), fs[i]? = some (some f) →
        f.locals.length = (Frame.entry owner isStatic desc maxLocals).locals.length ∧
        (∀ (j : Nat) (c : Category), f.locals[j]? = some c → c = .long ∨ c = .double → f.locals[j + 1]? = some .empty) ∧
        ∀ c ∈ f.stack, c ≠ .empty ∧ c ≠ .returnAddress) ∧
    ∀ p : Program, Flow.frames p code table (.entry owner isStatic desc maxLocals) =
      p.oracle.frames (stepBound ⟨code, [], p⟩ (.entry owner isStatic desc maxLocals)) code table
        (.entry owner isStatic desc maxLocals) := by
  refine ⟨fun fs hfs i f hf => ?_, fun p => frames_eq_oracle p code table _⟩
  have hformed := allFrames_frames (Frame.formed_entry owner isStatic desc maxLocals) hfs i f hf
  refine ⟨hformed.length, fun j c hc hwide => hformed.behind hc ?_, fun c hc => hformed.operands hc⟩
  rcases hwide with rfl | rfl <;> rfl

end

/-! #### wide locals that meet -/

namespace Meeting

/-- an oracle whose answers are no supertypes -/
def oracle : Oracle := ⟨fun _ _ => "demo/Odd"⟩

def desc : MethodDesc := ⟨[.long, .ref "demo/A"], none⟩

/-- a loop in which the second parameter gets another type, and then a wide local overlaps both parameters -/
def code : List Insn :=
  [.label ⟨0⟩, .new "demo/B", .store .ref 2, .intConst 0, .branch .ne ⟨0⟩, .longConst 7, .store .long 1, .intConst 0,
    .branch .ne ⟨0⟩, .ret none]

def table : List TryCatch := [⟨⟨0⟩, ⟨0⟩, ⟨0⟩, none⟩]

/-- no local keeps its value from one turn to the next -/
def empties : List Category := List.replicate 4 .empty

def first : List Category := [.empty, .empty, .ref "demo/B", .empty]

def second : List Category := [.empty, .long, .empty, .empty]

def frames : List (Option Frame) :=
  [some ⟨empties, []⟩, some ⟨empties, []⟩, some ⟨empties, [.ref "demo/B"]⟩, some ⟨first, []⟩, some ⟨first, [.int]⟩,
    some ⟨first, []⟩, some ⟨first, [.long]⟩, some ⟨second, []⟩, some ⟨second, [.int]⟩, some ⟨second, []⟩]

theorem frames_eq : oracle.frames 100 code table (.entry "demo/R" true desc 4) = .ok frames := by decide +kernel

end Meeting

theorem frames_formed_meeting :
    Meeting.oracle.frames 100 Meeting.code Meeting.table (.entry "demo/R" true Meeting.desc 4) = .ok Meeting.frames ∧
      ∀ (i : Nat) (f : Frame), Meeting.frames[i]? = some (some f) → f.locals.length = 4 ∧
        (∀ (j : Nat) (c : Category), f.locals[j]? = some c → c = .long ∨ c = .double → f.locals[j + 1]? = some .empty) ∧
        ∀ c ∈ f.stack, c ≠ .empty ∧ c ≠ .returnAddress :=
  ⟨Meeting.frames_eq,
    (frames_formed Meeting.oracle 100 Meeting.code Meeting.table "demo/R" true Meeting.desc 4).1 _ Meeting.frames_eq⟩

end Oracle
end Resumable
