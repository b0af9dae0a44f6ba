import Resumable.Proofs.Assembled
import Resumable.Proofs.Growth
import Resumable.Proofs.Outcome
import Resumable.Proofs.Segment
import Resumable.Proofs.Tracks

/-!
# Runs of analyzed methods

An activation of an analyzed method goes through its code as the frames say: before every instruction
locals and operands are what the frame says, and so no instruction fails by a flaw.  What its calls give
back, and what it reads from fields and arrays, has to be of the kinds that the frames have for it.

The invariant is about the frames that solve the flow equations.  The frames of the analysis, with their
hints, say no more about values than these: a local that is null may have been given a type.

* `Activation.InFrame`, `Activation.AtCall`, `Activation.LocalsInFrame` : an activation before an
  instruction, during a call, and where something was thrown;
* `Flow.Tracked` : what settled frames are tracked by;
* `Flow.Settled.executes`, `Flow.Settled.returns`, `Flow.Settled.catches` : the steps of an activation;
* `Machine.Fed` : what comes from outside is of the kinds that frames have for it;
* `Machine.GoesAlong` : a run along frames, without flaws;
* `analyzed_run_goesAlong` : the run of an analyzed method.
-/

namespace Resumable

/-! ## activations in frames -/

section
variable (a : Activation) (m : Method) (fs : List (Option Frame))

/-- locals and operands are what the frame of the instruction says -/
structure Activation.InFrame : Prop where
  method : a.method = m
  frame : ∃ f, fs[a.position]? = some (some f) ∧ f.Holds a.locals a.stack

/-- a call is under way, whose result the frame after it has -/
structure Activation.AtCall : Prop where
  method : a.method = m
  calls : Flow.CallAt Category.Holds m fs a.position a.locals a.stack

/-- locals are what the frame of the instruction says -/
structure Activation.LocalsInFrame : Prop where
  method : a.method = m
  locals : Flow.LocalsAt Category.Holds fs a.position a.locals

end

section
variable {a : Activation} {m : Method} {fs : List (Option Frame)}

theorem Activation.AtCall.locals (h : a.AtCall m fs) : a.LocalsInFrame m fs := ⟨h.method, h.calls.locals⟩

theorem Activation.inFrame_of_reads (hm : a.method = m)
    (h : Flow.ReadsAt Category.Holds fs a.position a.locals a.stack) : a.InFrame m fs := by
  obtain ⟨f, hf, hreads⟩ := h
  exact ⟨hm, f, hf, Frame.holds_iff.2 hreads⟩

end

namespace Flow

/-- an activation of the method that goes along the frames -/
abbrev Tracked (m : Method) (fs : List (Option Frame)) (rest : List Pending) (s : Machine) : Prop :=
  s.Tracks (Activation.InFrame · m fs) (Activation.AtCall · m fs) (Activation.LocalsInFrame · m fs) rest

/-- the activation has ended or is tracked on, and no flaw came up -/
structure GoesOn (m : Method) (fs : List (Option Frame)) (rest : List Pending) (s : Machine) : Prop where
  tracked : rest.length < s.pending.length → Tracked m fs rest s
  flawless : ∀ e, s.mode = .throwing (.fault e) → e.isFlaw = false

section
variable {m : Method} {fs : List (Option Frame)} {p : Program} {handlers : List Handler} {N n : Nat}
  {entry f g : Frame} {w : World} {s : Machine} {rest : List Pending} {a : Activation} {i : Insn}

/-- an activation that goes on executing -/
theorem GoesOn.executing (hp : s.pending = .activation a :: rest) (hmode : s.mode = .executing)
    (hm : a.method = m) (ha : ReadsAt Category.Holds fs a.position a.locals a.stack) :
    GoesOn m fs rest s :=
  ⟨fun _ => .runs a hp hmode (Activation.inFrame_of_reads hm ha),
    fun e he => absurd (hmode.symm.trans he) (by simp)⟩

/-- an activation that has ended without a fault -/
theorem GoesOn.ended (hp : s.pending = rest) (hmode : ∀ e, s.mode ≠ .throwing (.fault e)) :
    GoesOn m fs rest s :=
  ⟨fun h => absurd h (by rw [hp]; omega), fun e he => absurd he (hmode e)⟩

/-- the value that an instruction brings is of the kind that the frame after it has -/
def Brings (i : Insn) (g : Frame) (rest : List Pending) (s : Machine) : Prop :=
  i.reads = true → ∀ y, s.pending = .activation y :: rest → s.mode = .executing →
    ∀ c v, g.stack.head? = some c → y.stack.head? = some v → v.kind? = c.kind?

/-- a value is what the frame says of its kind if it is brought of this kind, or made -/
theorem Brings.brought {p : Program} {heap : Heap} {statics : Bindings} {t : Scope}
    (hbrings : i.reads = true → ∀ c v, g.stack.head? = some c → t.activation.stack.head? = some v →
      v.kind? = c.kind?) (happly : f.apply i = .ok g) (hholds : f.Holds a.locals a.stack)
    (hrun : (i.exec p).run ⟨heap, statics, a⟩ = (.ok .next, t)) :
    i.Brought Category.Holds g t.activation.stack := by
  rintro (hreads | hmakes) c v hc hg hv
  · have hkind := hbrings hreads c v hg hv
    cases hk : c.kind? with
    | none => exact Category.holds_of_kind?_eq_none hk v
    | some k => exact Category.holds_of_kind? hc hk (hkind.trans hk)
  · obtain ⟨type, r, rfl, hr, -⟩ := Insn.made hmakes happly hholds.stack hrun hc hg
    obtain rfl := Option.some.inj (hv.symm.trans hr)
    exact Category.holds_of_kind? hc rfl rfl

section
variable (hhandlers : m.tryCatches.mapM (handler m.code) = .ok handlers)
  (h : Settled ⟨m.code, handlers, p⟩ N entry fs)

include hhandlers h

/-- **An instruction** of an activation in its frame -/
theorem Settled.executes (hnum : ∀ i ∈ m.code, i.Numeric) (hp : s.pending = .activation a :: rest)
    (hmode : s.mode = .executing) (ha : a.InFrame m fs)
    (hbrings : ∀ i f g, m.code[a.position]? = some i → fs[a.position]? = some (some f) →
      f.apply i = .ok g → Brings i g rest (s.step w)) : GoesOn m fs rest (s.step w) := by
  obtain ⟨hm, f, hf, hholds⟩ := ha
  have hlt : a.position < m.code.length := by
    rw [← h.length]
    exact (List.getElem?_eq_some_iff.1 hf).1
  have hi : m.code[a.position]? = some (m.code[a.position]) := List.getElem?_eq_getElem hlt
  generalize m.code[a.position] = i at hi
  have hcode : a.method.code[a.position]? = some i := by rw [hm]; exact hi
  rw [← Machine.goOn_eq hp hmode] at hbrings ⊢
  have hout : Outcome Category.Holds m fs a.position i a
      ((i.exec w.program).run ⟨s.heap, s.statics, a⟩) := by
    refine h.outcome (Category.widened_holds p) hhandlers (hnum i (List.mem_of_getElem? hi)) hi hf
      (Frame.holds_iff.1 hholds) fun g t happly hrun => Brings.brought (fun hreads => ?_) happly hholds hrun
    have hbrought := hbrings i f g hi hf happly hreads t.activation.advance
    rw [Machine.step_of_run hcode hrun] at hbrought
    exact hbrought rfl rfl
  generalize hrun : (i.exec w.program).run ⟨s.heap, s.statics, a⟩ = r at hout
  cases hout with
  | @next t hmethod hposition hreads =>
    rw [Machine.step_of_run hcode hrun]
    refine .executing (a := t.activation.advance) rfl rfl (hmethod.trans hm) ?_
    rw [show t.activation.advance.position = a.position + 1 from congrArg (· + 1) hposition]
    exact hreads
  | @jump l k t hmethod _ hk hreads =>
    rw [Machine.step_of_run hcode hrun]
    simp only [Machine.follow, positionOf, hmethod, hm, hk]
    exact .executing (a := ⟨m, k, t.activation.locals, t.activation.stack⟩) rfl rfl rfl hreads
  | finish v t =>
    rw [Machine.step_of_run hcode hrun]
    exact .ended rfl fun e he => absurd he (by simp [Machine.follow])
  | @call c t hmethod hposition hcalls =>
    rw [Machine.step_of_run hcode hrun]
    refine ⟨fun _ => .calls t.activation c rfl rfl ⟨hmethod.trans hm, ?_⟩,
      fun e he => absurd he (by simp [Machine.follow])⟩
    rw [hposition]
    exact hcalls
  | @exception r t stack hactivation hlocals =>
    rw [Machine.step_of_throw hcode hrun]
    refine ⟨fun _ => .throws t.activation _ rfl rfl ?_, fun e he => absurd he (by simp)⟩
    rw [hactivation]
    exact ⟨hm, hlocals⟩
  | fault hflawless =>
    rw [Machine.step_of_throw hcode hrun]
    refine ⟨fun _ => .fails _ _ rfl rfl, fun e he => ?_⟩
    obtain ⟨rfl⟩ : e = _ := by simpa using he.symm
    exact hflawless

/-- **The end of a call** with what its descriptor says -/
theorem Settled.returns {v : Option Value} (hp : s.pending = .activation a :: rest)
    (hmode : s.mode = .returning v) (ha : a.AtCall m fs)
    (hv : ∀ kind callee d, m.code[a.position]? = some (.invoke kind callee) →
      MethodDesc.parse? callee.desc = some d →
        v.map Value.kind? = d.ret.map fun t => some t.kind) : GoesOn m fs rest (s.step w) := by
  have hstep : s.step w = s.deliver v rest (.activation a) := by
    unfold Machine.step
    rw [hp, hmode]
  have hreads := h.returned (v := v) (Category.widened_holds p) hhandlers ha.calls fun kind callee d hi hd => by
    have hkind := hv kind callee d hi hd
    cases hret : d.ret with
    | none =>
      rw [hret] at hkind
      obtain rfl : v = none := by simpa using hkind
      exact .nil
    | some t =>
      rw [hret] at hkind
      obtain ⟨u, rfl, hu⟩ : ∃ u, v = some u ∧ u.kind? = some t.kind := by
        simpa [Option.map_eq_some_iff] using hkind
      exact .cons (Category.holds_of_kind? (Category.ofType_ne_null t) (Category.kind?_ofType t) hu) .nil
  rw [hstep]
  cases v with
  | none => exact .executing (a := a.advance) rfl rfl ha.method hreads
  | some u => exact .executing (a := (a.push u).advance) rfl rfl ha.method hreads

/-- **What is thrown** in an activation is caught, or ends it -/
theorem Settled.catches {r : Ref} (hp : s.pending = .activation a :: rest)
    (hmode : s.mode = .throwing (.exception r)) (ha : a.LocalsInFrame m fs)
    (htable : m.TableDefined) : GoesOn m fs rest (s.step w) := by
  have hstep : s.step w = s.catchIn w a rest (.exception r) := by
    unfold Machine.step
    rw [hp, hmode]
    rfl
  obtain ⟨found, hfound⟩ : ∃ found, findHandler w.program m.code a.position (s.heap.className r)
      m.tryCatches = .ok found := findHandler_defined htable
  rw [hstep]
  unfold Machine.catchIn
  rw [ha.method]
  dsimp only
  rw [hfound]
  cases found with
  | none => exact .ended rfl fun e he => absurd he (by simp)
  | some k =>
    refine .executing (a := { a with position := k, stack := [.ref (some r)] }) rfl rfl ha.method ?_
    exact h.caught (Category.widened_holds p) hhandlers ha.locals hfound fun t _ _ =>
      Category.holds_of_kind? (k := .ref) (by simp) rfl rfl

end
end

end Flow

/-! ## runs -/

namespace Machine

/-- What comes from outside of the activation above others has the kinds that frames have for it: the
values that its calls return, and those that it reads from fields and arrays. -/
structure Fed (w : World) (s : Machine) (rest : List Pending) (frames : List (Option Frame)) (n : Nat) :
    Prop where
  returned : ∀ k, k < n → ∀ x v, (s.after w k).pending = .activation x :: rest →
    (s.after w k).mode = .returning v → ∀ kind callee d,
      x.method.code[x.position]? = some (.invoke kind callee) →
      MethodDesc.parse? callee.desc = some d → v.map Value.kind? = d.ret.map fun t => some t.kind
  read : ∀ k, k < n → ∀ x y, (s.after w k).pending = .activation x :: rest →
    (s.after w k).mode = .executing → (s.after w (k + 1)).pending = .activation y :: rest →
    (s.after w (k + 1)).mode = .executing → ∀ i f g, x.method.code[x.position]? = some i →
      i.reads = true → frames[x.position]? = some (some f) → f.apply i = .ok g →
      y.stack.head?.map Value.kind? = g.stack.head?.map Category.kind?

/-- For so many steps the activation above others goes along frames: whenever it is about to execute an
instruction, locals and operands are what the frame of the instruction says, and a flaw never comes up in
the activation itself, but only in a call that it makes. -/
structure GoesAlong (w : World) (s : Machine) (rest : List Pending) (m : Method)
    (frames : List (Option Frame)) (n : Nat) : Prop where
  inFrame : ∀ k, k < n → ∀ x, (s.after w k).pending = .activation x :: rest →
    (s.after w k).mode = .executing → x.InFrame m frames
  flawless : ∀ k, k ≤ n → ∀ e, (s.after w k).mode = .throwing (.fault e) → e.isFlaw = true →
    ∃ j, j < k ∧ (s.after w j).Calls rest ∧ (s.after w (j + 1)).mode = .throwing (.fault e)

end Machine

section
variable {m : Method} {fs gs : List (Option Frame)} {p : Program} {handlers : List Handler} {N n : Nat}
  {entry : Frame} {w : World} {s : Machine} {rest : List Pending}

/-- what is read has the kinds of settled frames if it has those of the frames with hints -/
theorem Machine.Fed.brings (h : s.Fed w rest gs n) (hhinted : Analysis.FramesHinted fs gs) {k : Nat}
    (hk : k < n) {a : Activation} (hp : (s.after w k).pending = .activation a :: rest)
    (hmode : (s.after w k).mode = .executing) {i : Insn} {f g : Frame}
    (hi : a.method.code[a.position]? = some i) (hf : fs[a.position]? = some (some f))
    (happly : f.apply i = .ok g) : Flow.Brings i g rest ((s.after w k).step w) := by
  intro hreads y hy hymode c v hc hv
  obtain ⟨e, he⟩ := hhinted.kept a.position f hf
  obtain ⟨f', hf', hh⟩ := hhinted.hinted a.position e he
  obtain rfl : f = f' := by simpa using hf.symm.trans hf'
  rw [← Machine.after_succ'] at hy hymode
  have hread := h.read k hk a y hp hmode hy hymode i e _ hi hreads he
    (Frame.apply_of_stack hreads hh.stack happly)
  rw [hv, show ({ g with locals := e.locals } : Frame).stack = g.stack from rfl, hc] at hread
  simpa using hread

/-- **One step** of a tracked activation -/
theorem Machine.Fed.goesOn (h : s.Fed w rest gs n) (hhinted : Analysis.FramesHinted fs gs)
    (hhandlers : m.tryCatches.mapM (Flow.handler m.code) = .ok handlers)
    (hsettled : Flow.Settled ⟨m.code, handlers, p⟩ N entry fs) (hnum : ∀ i ∈ m.code, i.Numeric)
    (htable : m.TableDefined) {k : Nat} (hk : k < n) (htracked : Flow.Tracked m fs rest (s.after w k)) :
    Flow.GoesOn m fs rest (s.after w (k + 1)) ∨ (s.after w k).Calls rest ∨
      ∃ e, (s.after w k).mode = .throwing (.fault e) ∧ (s.after w (k + 1)).pending = rest ∧
        (s.after w (k + 1)).mode = .throwing (.fault e) := by
  rw [Machine.after_succ']
  cases htracked with
  | calls a c hp hmode ha => exact .inr (.inl (.inl ⟨c, hmode⟩))
  | inside a q above hp ha =>
    refine .inr (.inl (.inr ?_))
    rw [hp]
    simp only [List.length_cons, List.length_append]
    omega
  | fails a e hp hmode =>
    refine .inr (.inr ⟨e, hmode, ?_⟩)
    unfold Machine.step
    rw [hp, hmode]
    exact ⟨rfl, rfl⟩
  | runs a hp hmode ha =>
    refine .inl (hsettled.executes hhandlers hnum hp hmode ha fun i f g hi hf happly => ?_)
    exact h.brings hhinted hk hp hmode (by rw [ha.method]; exact hi) hf happly
  | returned a v hp hmode ha =>
    refine .inl (hsettled.returns hhandlers hp hmode ha fun kind callee d hi hd => ?_)
    exact h.returned k hk a v hp hmode kind callee d (by rw [ha.method]; exact hi) hd
  | throws a r hp hmode ha => exact .inl (hsettled.catches hhandlers hp hmode ha htable)

/-- **A run** of a tracked activation -/
theorem Machine.Fed.tracked (h : s.Fed w rest gs n) (hhinted : Analysis.FramesHinted fs gs)
    (hhandlers : m.tryCatches.mapM (Flow.handler m.code) = .ok handlers)
    (hsettled : Flow.Settled ⟨m.code, handlers, p⟩ N entry fs) (hnum : ∀ i ∈ m.code, i.Numeric)
    (htable : m.TableDefined) (hunder : s.UnderWay w rest n) (hstart : Flow.Tracked m fs rest s) :
    ∀ k, k < n → Flow.Tracked m fs rest (s.after w k) := by
  intro k hk
  induction k with
  | zero => exact hstart
  | succ k ih =>
    have htracked := ih (by omega)
    have hlt := hunder (k + 1) hk
    rcases h.goesOn hhinted hhandlers hsettled hnum htable (by omega) htracked with
      hgoes | hcalls | ⟨e, -, hp, -⟩
    · exact hgoes.tracked hlt
    · rw [Machine.after_succ']
      exact htracked.step_of_calls (fun _ ha => ha.locals) hcalls
    · rw [hp] at hlt
      exact absurd hlt (Nat.lt_irrefl _)

/-- a flaw comes up in a call -/
theorem Machine.Fed.flaw_of_call (h : s.Fed w rest gs n) (hhinted : Analysis.FramesHinted fs gs)
    (hhandlers : m.tryCatches.mapM (Flow.handler m.code) = .ok handlers)
    (hsettled : Flow.Settled ⟨m.code, handlers, p⟩ N entry fs) (hnum : ∀ i ∈ m.code, i.Numeric)
    (htable : m.TableDefined) (htracked : ∀ k, k < n → Flow.Tracked m fs rest (s.after w k))
    {e : Fault} (hflaw : e.isFlaw = true) (hstart : s.mode ≠ .throwing (.fault e)) :
    ∀ k, k ≤ n → (s.after w k).mode = .throwing (.fault e) →
      ∃ j, j < k ∧ (s.after w j).Calls rest ∧ (s.after w (j + 1)).mode = .throwing (.fault e) := by
  intro k hk hmode
  induction k with
  | zero => exact absurd hmode hstart
  | succ k ih =>
    rcases h.goesOn hhinted hhandlers hsettled hnum htable hk (htracked k hk) with
      hgoes | hcalls | ⟨e', hmode', -, hsame⟩
    · exact absurd hflaw (by rw [hgoes.flawless e hmode]; simp)
    · exact ⟨k, Nat.lt_succ_self k, hcalls, hmode⟩
    · -- the fault passes through the activation, in which it came up earlier
      obtain rfl : e' = e := by simpa using hsame.symm.trans hmode
      obtain ⟨j, hj, hcall⟩ := ih (by omega) hmode'
      exact ⟨j, by omega, hcall⟩

end

/-! ## analyzed methods -/

/-- **The run of an analyzed method** goes along the frames of the analysis, as long as what comes from
outside has the kinds that the frames have for it. -/
theorem analyzed_run_goesAlong {p : Program} {owner : String} {m : Method} {declared : List RestorePoint}
    {rootEntry : Bool} {a : Analysis} (ha : Analysis.analyze p owner m declared rootEntry = .ok a)
    (hcode : ∀ i ∈ m.code, i.Assembled) {args : List Value} (hargs : m.Accepts args) {w : World}
    {s : Machine} {n : Nat} (hunder : (s.enter args (.code m)).UnderWay w s.pending n)
    (hfed : (s.enter args (.code m)).Fed w s.pending a.frames n) :
    (s.enter args (.code m)).GoesAlong w s.pending m a.frames n := by
  have hsound := Analysis.analyze_sound ha
  obtain ⟨desc, handlers, fs, hdesc, hhandlers, hsettled, hhinted⟩ := hsound.settled
  have htable := hsound.tableDefined
  have hnum : ∀ i ∈ m.code, i.Numeric := fun i hi => (hcode i hi).numeric
  have hentry : (Activation.entry m args).InFrame m fs :=
    Activation.inFrame_of_reads rfl (hsettled.entry.readsAt (Category.widened_holds p) hsettled.sound rfl
      (Frame.reads_entry (hargs.holds hdesc owner)))
  have hstart : Flow.Tracked m fs s.pending (s.enter args (.code m)) := .runs _ rfl rfl hentry
  have htracked := hfed.tracked hhinted hhandlers hsettled hnum htable hunder hstart
  refine ⟨fun k hk x hp hmode => ?_, fun k hk e hmode hflaw => ?_⟩
  · obtain ⟨hmethod, f, hf, hholds⟩ := (htracked k hk).of_executing hp hmode
    obtain ⟨e, he⟩ := hhinted.kept x.position f hf
    obtain ⟨f', hf', hh⟩ := hhinted.hinted x.position e he
    obtain rfl : f = f' := by simpa using hf.symm.trans hf'
    exact ⟨hmethod, e, he, Frame.holds_iff.2 (hh.reads (Frame.holds_iff.1 hholds))⟩
  · exact hfed.flaw_of_call hhinted hhandlers hsettled hnum htable htracked hflaw (fun h => nomatch h)
      k hk hmode

/-! ### a method that adds a field to its parameter -/

namespace Adding

open Assembly

def owner : String := "demo/R"

def add : Method where
  name := "add"
  desc := "(I)I"
  isStatic := true
  maxLocals := 1
  code := [.load .int 0, .getStatic ⟨owner, "count", "I"⟩, .arith .add .int, .ret (some .int)]
  tryCatches := []
  localVars := []

def analysis : Analysis where
  method := add.id owner
  isStatic := true
  rootEntry := false
  calls := 0
  restorePoints := []
  unpatchable := []
  frames := [some ⟨[.int], []⟩, some ⟨[.int], [.int]⟩, some ⟨[.int], [.int, .int]⟩, some ⟨[.int], [.int]⟩]
  insns := add.code

theorem assembled_add : ∀ i ∈ add.code, i.Assembled := by
  have hline {i : Insn} (opcode : String) (words : List String)
      (h : (Body.empty (add.id owner)).insn ⟨0, opcode, words.map .word⟩ =
        .ok (i, Body.empty (add.id owner))) : i.Assembled := .inr ⟨_, _, _, h⟩
  intro i hi
  simp only [add, List.mem_cons, List.not_mem_nil, or_false] at hi
  rcases hi with rfl | rfl | rfl | rfl
  · exact hline "iload" ["0"] rfl
  · exact hline "getstatic" ["demo/R.count", "I"] rfl
  · exact hline "iadd" [] rfl
  · exact hline "ireturn" [] rfl

theorem accepts_add : add.Accepts [.int 5] := by
  intro desc hdesc
  obtain rfl := Option.some.inj (show some _ = some desc from hdesc)
  rfl

def world : World := ⟨.empty, []⟩

def begun : Machine := Machine.empty.enter [.int 5] (.code add)

/-- the activation before each of its instructions -/
def stage : Nat → Activation
  | 0 => ⟨add, 0, [.int 5], []⟩
  | 1 => ⟨add, 1, [.int 5], [.int 5]⟩
  | 2 => ⟨add, 2, [.int 5], [.int 0, .int 5]⟩
  | _ => ⟨add, 3, [.int 5], [.int 5]⟩

theorem after_begun : ∀ k, k < 4 → begun.after world k = Machine.empty.goOn (stage k) []
  | 0, _ | 1, _ | 2, _ | 3, _ => rfl

theorem underWay_begun : begun.UnderWay world [] 4 := by
  intro k hk
  rw [after_begun k hk]
  exact Nat.zero_lt_one

/-- nothing is called, and the field is an integer -/
theorem fed_begun : begun.Fed world [] analysis.frames 4 := by
  constructor
  · intro k hk x v hp hmode
    rw [after_begun k hk] at hmode
    exact nomatch hmode
  · intro k hk x y hp hmode hy hymode i f g hi hreads hf happly
    rw [after_begun k hk] at hp
    obtain rfl : stage k = x := by simpa [Machine.goOn] using hp
    match k, hk with
    | 1, _ =>
      rw [after_begun 2 (by omega)] at hy
      obtain rfl : stage 2 = y := by simpa [Machine.goOn] using hy
      obtain rfl := Option.some.inj hi
      obtain rfl := Option.some.inj (Option.some.inj hf)
      rw [← Except.ok.inj happly]
      rfl
    | 0, _ | 2, _ | 3, _ =>
      rw [← Option.some.inj hi] at hreads
      exact absurd hreads (by decide)

theorem analyzed_run_goesAlong_add :
    Analysis.analyze .empty owner add [] false = .ok analysis ∧ (∀ i ∈ add.code, i.Assembled) ∧
      add.Accepts [.int 5] ∧ begun.UnderWay world [] 4 ∧ begun.Fed world [] analysis.frames 4 ∧
      begun.GoesAlong world [] add analysis.frames 4 := by
  have ha : Analysis.analyze .empty owner add [] false = .ok analysis := rfl
  exact ⟨ha, assembled_add, accepts_add, underWay_begun, fed_begun,
    analyzed_run_goesAlong (s := .empty) ha assembled_add accepts_add underWay_begun fed_begun⟩

end Adding
end Resumable
