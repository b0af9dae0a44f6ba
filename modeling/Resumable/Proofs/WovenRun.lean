import Resumable.Proofs.Growth
import Resumable.Proofs.Outcome
import Resumable.Proofs.Reentry
import Resumable.Proofs.RoundTrip
import Resumable.Proofs.Supertypes

/-!
# Runs of woven methods

Beyond the kinds of values, a category may be taken to say what class is behind a reference: the heap has
an object there, and its class may be used as the type.  This is one reading of categories among others,
so all that holds of frames and instructions in any of them holds in this one.  It stays true as the heap
grows, and it is what casts ask for.

An activation of a woven method goes through its own instructions as the frames of the method say, with the
injected code in between: at each of its own instructions locals and operands are of the types that the
frame of the instruction has, whatever coroutines are like.  Injected code throws no object on the way, and
so its casts all succeed.

* `Category.Typed`, `Category.Typed.grow` : what a category says of classes, in one heap and in later ones;
* `Category.widened_typed` : references to a type are references to a wider one;
* `Category.typed_of_made` : what an instruction makes is of its type;
* `Frame.Reads.conforms` : a frame whose values are of their types admits them;
* `WovenMethod.At`, `WovenMethod.Rethrows` : where the activation stands in the woven code;
* `WovenMethod.Runs`, `WovenMethod.Waits`, `WovenMethod.Throws` : what is known of it there;
* `WovenMethod.Guided` : the frames, and what is asked of the world;
* `WovenMethod.Guided.leads_block`, `WovenMethod.Guided.leads_behind` : through injected code to the next
  instruction;
* `WovenMethod.Guided.leads_step` : one step.
-/

namespace Resumable

open Category (Reading)
open Machine (Leads)

namespace Category

/-- what a category says of a value is the case, the class of what a reference names included -/
structure Typed (p : Program) (h : Heap) (c : Category) (v : Value) : Prop extends c.Holds v where
  type : ∀ t x, c = .ref t → v = .ref (some x) → h.Has x ∧ p.isAssignable (h.className x) t = true

section
variable {p p' : Program} {h u : Heap} {c : Category} {v : Value} {k : Kind}

/-- where no reference is involved, there is nothing to say of classes -/
theorem Holds.typed (hv : c.Holds v) (hc : ∀ t, c ≠ .ref t) : c.Typed p h v :=
  ⟨hv, fun t _ heq => absurd heq (hc t)⟩

instance : Reading (Typed p h) where
  free hc := (holds_of_kind?_eq_none hc _).typed fun t heq => absurd hc (by simp [heq, kind?])
  kind hv hk := hv.kind _ hk
  number hne hk hv := (Reading.number hne hk hv : Holds _ _).typed fun t heq =>
    hne (Option.some.inj (by rw [← hk, heq]; rfl))
  null := ⟨fun hv => hv.null rfl, fun hv => (Reading.null.2 hv : Holds _ _).typed fun t heq => by simp at heq⟩
  ref t := ⟨Reading.ref t, fun _ _ _ hv => absurd hv (by simp [Value.null])⟩

/-- **As the heap grows**, values stay of their types -/
theorem Typed.grow (hv : c.Typed p h v) (hgrows : h.Grows u) : c.Typed p u v := by
  refine ⟨hv.toHolds, fun t x hc hx => ?_⟩
  obtain ⟨hhas, hclass⟩ := hv.type t x hc hx
  obtain ⟨hhas', hsame⟩ := hgrows x hhas
  exact ⟨hhas', by rw [hsame]; exact hclass⟩

theorem widened_typed (hp : p.Upward) (h : Heap) : Widened p (Typed p h) := by
  intro s t v hst hv
  refine ⟨widened_holds p s t v hst hv.toHolds, fun t' x hc hx => ?_⟩
  obtain rfl := Category.ref.inj hc
  obtain ⟨hhas, hclass⟩ := hv.type s x rfl hx
  exact ⟨hhas, hp.widens hst hclass⟩

/-- a reference that is there and may be used as the type -/
theorem typed_ref {t : String} {r : Option Ref}
    (hr : ∀ x, r = some x → h.Has x ∧ p.isAssignable (h.className x) t = true) :
    (Category.ref t).Typed p h (.ref r) := by
  refine ⟨⟨fun _ hk => hk, fun hc => absurd hc (by simp)⟩, fun t' x hc hx => ?_⟩
  obtain rfl := Category.ref.inj hc
  exact hr x (Value.ref.inj hx)

/-- the value of a reference category is null, or is there and may be used as the type -/
theorem Typed.exists_ref {t : String} (hv : (Category.ref t).Typed p h v) :
    ∃ r, v = .ref r ∧ ∀ x, r = some x → h.Has x ∧ p.isAssignable (h.className x) t = true := by
  obtain ⟨r, rfl⟩ := Value.exists_ref (hv.kind .ref rfl)
  exact ⟨r, rfl, fun x hx => hv.type t x rfl (by rw [hx])⟩

/-- a value of its type is admitted -/
theorem Typed.admits (hv : c.Typed p h v) : c.Admits p h v := by
  cases c with
  | null => exact hv.null rfl
  | ref t =>
    obtain ⟨r, rfl, hr⟩ := hv.exists_ref
    exact ⟨r, rfl, fun x hx => (hr x hx).2⟩
  | _ => exact hv.kind

end

/-! ## instructions -/

/-- what an instruction makes of operands of their types is of the type that it has for it -/
theorem typed_of_made {p p' : Program} (hpr : ∀ a b, p'.isAssignable a b = p.isAssignable a b) {i : Insn}
    {f g : Frame} {s s' : Scope} (hi : i.makes = true) (happly : f.apply i = .ok g)
    (hs : List.Forall₂ (Typed p s.heap) f.stack s.activation.stack)
    (hrun : (i.exec p').run s = (.ok .next, s')) {c : Category} {v : Value} (hc : c ≠ .null)
    (hg : g.stack.head? = some c) (hv : s'.activation.stack.head? = some v) : c.Typed p s'.heap v := by
  obtain ⟨t, r, rfl, hr, hclass⟩ := Insn.made hi happly hs hrun hc hg
  obtain rfl := Option.some.inj (hv.symm.trans hr)
  refine typed_ref fun x hx => ?_
  obtain ⟨hplace, hassignable⟩ := hclass x hx
  refine ⟨?_, (hpr _ _).symm.trans hassignable⟩
  rcases hplace with ⟨rfl, d, hd⟩ | hhas
  · exact (hd.type d x rfl (by rw [hx])).1
  · exact hhas

end Category

/-! ## frames -/

namespace Frame

variable {p : Program} {h u : Heap} {f : Frame} {locals stack : List Value}

theorem Reads.grow (hf : f.Reads (Category.Typed p h) locals stack) (hgrows : h.Grows u) :
    f.Reads (Category.Typed p u) locals stack :=
  ⟨hf.locals.imp fun _ _ hv => hv.grow hgrows, hf.stack.imp fun _ _ hv => hv.grow hgrows⟩

/-- **A frame whose values are of their types** admits them -/
theorem Reads.conforms (hf : f.Reads (Category.Typed p h) locals stack) :
    f.Conforms p h locals stack := by
  obtain ⟨hlen, hall⟩ := forall₂_iff.1 hf.stack
  refine ⟨fun i c hc => ?_, hlen.symm, fun i c v hc hv => (hall i c v hc hv).admits⟩
  obtain ⟨v, hv, hcv⟩ := hf.local hc
  exact ⟨v, hv, hcv.admits⟩

end Frame

namespace WovenMethod

variable {p p' : Program} {t : RestoreTable} {owner : String} {m m' : Method}

section
variable (k : WovenMethod p t p' owner m m') (fs : List (Option Frame)) (h : Heap) (a : Activation)

/-- the activation stands at the instruction of an index -/
structure At (n : Nat) (b : Block) : Prop where
  method : a.method = m'
  block : k.layout.blocks[n]? = some b
  position : a.position = k.layout.start n + b.ownAt

/-- the activation stands where it throws again what the call of an index has thrown -/
structure Rethrows (n : Nat) (b : Block) (y : Around) : Prop where
  method : a.method = m'
  block : k.layout.blocks[n]? = some b
  around : b.around = some y
  unpatchable : y.site.unpatchable = true
  position : a.position = k.layout.start n + (y.ownAt + 8)

/-- the activation is about to execute an instruction of its own, or to throw again -/
inductive Runs : Prop
  | own {n : Nat} {b : Block} (stands : k.At a n b)
      (reads : Flow.ReadsAt (Category.Typed p h) fs n a.locals a.stack)
  | rethrow {n : Nat} {b : Block} {y : Around} {r : Ref} {stack : List Value} (stands : k.Rethrows a n b y)
      (locals : Flow.LocalsAt (Category.Typed p h) fs n a.locals) (thrown : a.stack = .ref (some r) :: stack)

/-- a call of the activation is under way -/
inductive Waits : Prop
  | own {n : Nat} {b : Block} (stands : k.At a n b)
      (calls : Flow.CallAt (Category.Typed p h) m fs n a.locals a.stack)

/-- something was thrown by an instruction of the activation, or was thrown again -/
inductive Throws : Prop
  | own {n : Nat} {b : Block} (stands : k.At a n b) (occupied : b.own.isLabel = false)
      (locals : Flow.LocalsAt (Category.Typed p h) fs n a.locals)
  | rethrow {n : Nat} {b : Block} {y : Around} (stands : k.Rethrows a n b y)
      (locals : Flow.LocalsAt (Category.Typed p h) fs n a.locals)

/-- an activation of the woven method is where its frames say -/
def Tracked (rest : List Pending) (s : Machine) : Prop :=
  s.Tracks (k.Runs fs s.heap) (k.Waits fs s.heap) (k.Throws fs s.heap) rest

/-- the activation has ended, or is where its frames say -/
def GoesOn (rest : List Pending) (s : Machine) : Prop :=
  s.pending.length ≤ rest.length ∨ k.Tracked fs rest s

end

section
variable {k : WovenMethod p t p' owner m m'} {fs : List (Option Frame)} {h u : Heap} {a : Activation}

theorem Runs.grow (ha : k.Runs fs h a) (hgrows : h.Grows u) : k.Runs fs u a := by
  cases ha with
  | own stands reads => exact .own stands (reads.mono fun _ _ hv => hv.grow hgrows)
  | rethrow stands locals thrown => exact .rethrow stands (locals.mono fun _ _ hv => hv.grow hgrows) thrown

theorem Waits.grow (ha : k.Waits fs h a) (hgrows : h.Grows u) : k.Waits fs u a := by
  obtain ⟨stands, calls⟩ := ha
  exact .own stands (calls.mono fun _ _ hv => hv.grow hgrows)

theorem Throws.grow (ha : k.Throws fs h a) (hgrows : h.Grows u) : k.Throws fs u a := by
  cases ha with
  | own stands occupied locals => exact .own stands occupied (locals.mono fun _ _ hv => hv.grow hgrows)
  | rethrow stands locals => exact .rethrow stands (locals.mono fun _ _ hv => hv.grow hgrows)

theorem Waits.throws (ha : k.Waits fs h a) : k.Throws fs h a := by
  obtain ⟨stands, calls⟩ := ha
  have hcalls := calls
  obtain ⟨f, e, kind, callee, d, -, hi, -⟩ := hcalls
  refine .own stands ?_ calls.locals
  rw [Option.some.inj ((k.lays.own stands.block).symm.trans hi)]
  rfl

/-- what is under way goes on as the heap grows -/
theorem Tracked.grow {rest : List Pending} {s : Machine} (hs : s.Tracks (k.Runs fs h) (k.Waits fs h)
    (k.Throws fs h) rest) (hgrows : h.Grows s.heap) : k.Tracked fs rest s :=
  hs.mono (fun _ ha => ha.grow hgrows) (fun _ ha => ha.grow hgrows) fun _ ha => ha.grow hgrows

end

/-! ## what guides a run -/

/-- code that numbers can count: slots in 16 bits, sites and operands of calls in 31 bits -/
structure Countable (k : WovenMethod p t p' owner m m') : Prop where
  locals : ∀ (n : Nat) (f : Frame), k.analysis.frames[n]? = some (some f) → f.locals.length ≤ 65536
  windows : ∀ (n : Nat) (b : Block) (y : Around), k.layout.blocks[n]? = some b → b.around = some y →
    y.shape.window.length ≤ 2 ^ 31
  sites : k.layout.sites.length ≤ 2 ^ 31

/-- Frames that solve the flow equations of the method, in a hierarchy where assignability goes on upward,
and a world with the built-in methods and this hierarchy. -/
structure Guided (k : WovenMethod p t p' owner m m') (w : World) (desc : MethodDesc)
    (fs : List (Option Frame)) : Prop where
  handlers : ∃ handlers, m.tryCatches.mapM (Flow.handler m.code) = .ok handlers ∧
    Flow.Settled ⟨m.code, handlers, p⟩ (Frame.entry owner m.isStatic desc m.maxLocals.toNat).locals.length
      (Frame.entry owner m.isStatic desc m.maxLocals.toNat) fs
  hinted : Analysis.FramesHinted fs k.analysis.frames
  numeric : ∀ i ∈ m.code, i.Numeric
  countable : k.Countable
  upward : p.Upward
  supplies : w.Supplies
  assignable : ∀ a b, w.program.isAssignable a b = p.isAssignable a b

namespace Guided

variable {k : WovenMethod p t p' owner m m'} {w : World} {desc : MethodDesc} {fs : List (Option Frame)}
  {s : Machine} {x : Activation} {rest : List Pending} {n : Nat} {b : Block} {y : Around}

/-- a frame has its block -/
theorem block (g : k.Guided w desc fs) {f : Frame} (hf : fs[n]? = some (some f)) :
    ∃ b, k.layout.blocks[n]? = some b ∧ m.code[n]? = some b.own := by
  obtain ⟨handlers, -, hsettled⟩ := g.handlers
  have hlt : n < m.code.length := by
    rw [← hsettled.length]
    exact (List.getElem?_eq_some_iff.1 hf).1
  obtain ⟨b, hb, hown⟩ := k.lays.block (List.getElem?_eq_getElem hlt)
  exact ⟨b, hb, by rw [hown]; exact List.getElem?_eq_getElem hlt⟩

/-- the frame of a call is the one that is recorded -/
theorem frame_of_around (k : WovenMethod p t p' owner m m') (hb : k.layout.blocks[n]? = some b)
    (hy : b.around = some y) : k.analysis.frames[n]? = some (some y.frame) := by
  obtain ⟨hmem, hposition, hframe, -, -⟩ := k.lays.site_of_around hb hy
  obtain ⟨_, _, _, _, _, hdescribes⟩ := sitesFrom_sound hmem
  rw [hdescribes.frame, hposition] at hframe
  exact Option.join_eq_some_iff.1 hframe

/-- what settled frames say of a call is recorded with hints -/
theorem hints (g : k.Guided w desc fs) {f : Frame} (hb : k.layout.blocks[n]? = some b)
    (hy : b.around = some y) (hf : fs[n]? = some (some f)) : f.Hinted y.frame := by
  obtain ⟨f', hf', hh⟩ := g.hinted.hinted n y.frame (frame_of_around k hb hy)
  obtain rfl : f = f' := by simpa using hf.symm.trans hf'
  exact hh

/-- what the frame of a call says is what the recorded one says -/
theorem recorded (g : k.Guided w desc fs) {R : Category → Value → Prop} [Reading R]
    {locals stack : List Value} (hb : k.layout.blocks[n]? = some b) (hy : b.around = some y)
    (hreads : Flow.ReadsAt R fs n locals stack) : y.frame.Reads R locals stack := by
  obtain ⟨f, hf, hreads⟩ := hreads
  exact (g.hints hb hy hf).reads hreads

/-- the shape of a call is cut out of its frame -/
theorem cuts (k : WovenMethod p t p' owner m m') (hb : k.layout.blocks[n]? = some b)
    (hy : b.around = some y) : y.shape.Cuts y.frame ∧ ∃ N, y.frame.Sound N := by
  have hsound := k.sound.frame (frame_of_around k hb hy)
  rcases k.lays.blocks.block hb with ⟨hnone, -⟩ | ⟨z, hz, hfits⟩
  · exact absurd (hnone.symm.trans hy) (by simp)
  · obtain rfl : z = y := Option.some.inj (hz.symm.trans hy)
    obtain ⟨d, -, hshape⟩ := hfits.shape
    exact ⟨CallShape.of?_cuts hshape, hsound⟩

/-- operands of a call that are of their types can be staged -/
theorem windowed (g : k.Guided w desc fs) (hb : k.layout.blocks[n]? = some b) (hy : b.around = some y)
    {h : Heap} {locals stack : List Value} (hreads : Flow.ReadsAt (Category.Typed p h) fs n locals stack) :
    Windowed w.program h y.shape.window stack := by
  obtain ⟨hcuts, N, hsound⟩ := cuts k hb hy
  have htakes : y.frame.Takes y.shape.window.reverse ⟨y.frame.locals, y.shape.below⟩ := ⟨hcuts.stack, rfl⟩
  obtain ⟨vs, below, rfl, hvs, -⟩ := htakes.reads (g.recorded hb hy hreads).stack
  have hlen : y.shape.window.length = vs.reverse.length := by
    rw [List.length_reverse, ← hvs.length_eq, List.length_reverse]
  obtain ⟨hfst, hsnd⟩ := map_zip hlen
  have hall := List.rel_reverse hvs
  rw [List.reverse_reverse] at hall
  refine ⟨y.shape.window.zip vs.reverse, below, ?_, hfst, ?_, by rw [hsnd, List.reverse_reverse]⟩
  · refine Admitted.program g.assignable (admitted_zip (hcuts.window_kind hsound.loaded) fun i c v hc hv => ?_)
    exact ((Frame.forall₂_iff.1 hall).2 i c v hc hv).admits
  · rw [List.length_zip, ← hlen, Nat.min_self]
    exact g.countable.windows n b y hb hy

/-! ## through injected code -/

/-- an activation at one of its own instructions -/
theorem goesOn_own (hx : k.At x n b) (hreads : Flow.ReadsAt (Category.Typed p s.heap) fs n x.locals x.stack) :
    k.GoesOn fs rest (s.goOn x rest) :=
  .inr (.runs x rfl rfl (.own hx hreads))

/-- **From the start of a block** to its instruction -/
theorem leads_block (g : k.Guided w desc fs) (hs : s.Steady) (hx : x.method = m')
    (hp : x.position = k.layout.start n)
    (hreads : Flow.ReadsAt (Category.Typed p s.heap) fs n x.locals x.stack) :
    Leads w k.layout.Between (k.GoesOn fs rest) (s.goOn x rest) := by
  have hframe := hreads
  obtain ⟨f, hf, -⟩ := hframe
  obtain ⟨b, hb, -⟩ := g.block hf
  refine (k.lays.leads_own k.fits g.supplies hs hb hx hp fun y hy _ => g.windowed hb hy hreads).mono ?_
  rintro _ ⟨e, rfl⟩
  exact goesOn_own (s := { s with engine := e }) ⟨hx, hb, rfl⟩ hreads

/-- an activation that has ended, by a fault perhaps -/
theorem goesOn_of_leaves {m₁ : Machine} (h : m₁.Leaves rest ∨ m₁.Fails rest) : k.GoesOn fs rest m₁ := by
  rcases h with ⟨hp, -⟩ | ⟨a, f, hp, hmode⟩
  · exact .inl (by rw [hp])
  · exact .inr (.fails a f hp hmode)

/-- **From behind an instruction** to the next one, or to the end of the activation -/
theorem leads_behind (g : k.Guided w desc fs) (hs : (s.goOn x rest).thread.Orderly) (hx : x.method = m')
    (hb : k.layout.blocks[n]? = some b) (hp : x.position = k.layout.start n + b.ownAt + 1)
    (hreads : Flow.ReadsAt (Category.Typed p s.heap) fs (n + 1) x.locals x.stack) :
    Leads w k.layout.Between (k.GoesOn fs rest) (s.goOn x rest) := by
  have hsteady := Machine.steady_of_goOn hs
  cases hy : b.around with
  | none =>
    refine g.leads_block hsteady hx ?_ hreads
    rw [Layout.start_succ hb, hp]
    unfold Block.ownAt Block.code Block.before Block.behind
    rw [hy]
    rfl
  | some y =>
    rw [Block.ownAt_some hy, Nat.add_assoc] at hp
    refine ((k.lays.leads_next k.fits g.supplies hsteady hb hy hx hp).orderly hs).bind ?_
    rintro m₁ ⟨⟨e, rfl⟩ | hends, horderly⟩
    · exact g.leads_block (s := { s with engine := e }) (Machine.steady_of_goOn horderly) hx rfl hreads
    · exact .here (goesOn_of_leaves hends)

end Guided

/-! ## steps -/

/-- What comes into the activation from outside in a step is of the types that frames have for it: the
values that its calls return, and those that it reads from fields and arrays; what is thrown is there, and
may be thrown. -/
structure Fed (k : WovenMethod p t p' owner m m') (w : World) (rest : List Pending) (s : Machine) : Prop where
  returned : ∀ x v n b kind callee d, s.pending = .activation x :: rest → s.mode = .returning v →
    k.At x n b → b.own = .invoke kind callee → MethodDesc.parse? callee.desc = some d →
    List.Forall₂ (Category.Typed p s.heap) (d.ret.toList.map .ofType) v.toList
  read : ∀ x y n b f g, s.pending = .activation x :: rest → s.mode = .executing → k.At x n b →
    b.own.reads = true → k.analysis.frames[n]? = some (some f) → f.apply b.own = .ok g →
    (s.step w).pending = .activation y :: rest → (s.step w).mode = .executing →
    ∀ c v, g.stack.head? = some c → y.stack.head? = some v → c.Typed p (s.step w).heap v
  thrown : ∀ x r, s.pending = .activation x :: rest → s.mode = .throwing (.exception r) →
    s.heap.Has r ∧ p.isAssignable (s.heap.className r) throwableType = true

namespace Guided

variable {k : WovenMethod p t p' owner m m'} {w : World} {desc : MethodDesc} {fs : List (Option Frame)}
  {s : Machine} {x : Activation} {rest : List Pending} {n : Nat} {b : Block} {y : Around}

/-- what an instruction brings is of the type that the frame after it has -/
theorem brought (g : k.Guided w desc fs) (hfed : k.Fed w rest (s.goOn x rest)) (hx : k.At x n b)
    (hcode : x.method.code[x.position]? = some b.own) {f e : Frame} (hf : fs[n]? = some (some f))
    (hreads : f.Reads (Category.Typed p s.heap) x.locals x.stack) (happly : f.apply b.own = .ok e) {u : Scope}
    (hrun : (b.own.exec w.program).run ⟨s.heap, s.statics, x⟩ = (.ok .next, u)) :
    b.own.Brought (Category.Typed p u.heap) e u.activation.stack := by
  rintro (hi | hi) c v hc hg hv
  · obtain ⟨f', hf'⟩ := g.hinted.kept n f hf
    obtain ⟨f₁, hf₁, hh⟩ := g.hinted.hinted n f' hf'
    obtain rfl : f = f₁ := by simpa using hf.symm.trans hf₁
    have hread := hfed.read x u.activation.advance n b f' _ rfl rfl hx hi hf'
      (Frame.apply_of_stack hi hh.stack happly)
    rw [Machine.step_of_run hcode hrun] at hread
    exact hread rfl rfl c v hg hv
  · exact Category.typed_of_made g.assignable hi happly hreads.stack hrun hc hg hv

/-- **An instruction** of the method where its frame is right -/
theorem leads_own (g : k.Guided w desc fs) (hs : (s.goOn x rest).thread.Orderly)
    (hfed : k.Fed w rest (s.goOn x rest)) (hx : k.At x n b)
    (hreads : Flow.ReadsAt (Category.Typed p s.heap) fs n x.locals x.stack) :
    Leads w k.layout.Between (k.GoesOn fs rest) ((s.goOn x rest).step w) := by
  obtain ⟨f, hf, hreads⟩ := hreads
  obtain ⟨handlers, hhandlers, hsettled⟩ := g.handlers
  have hi := k.lays.own hx.block
  have hcode : x.method.code[x.position]? = some b.own := by
    rw [hx.method, hx.position]
    exact (k.lays.holds_own hx.block).1
  have horderly : ((s.goOn x rest).step w).thread.Orderly := Machine.orderly_after hs w 1
  have hgrows := b.own.grows_exec (p := w.program) ⟨s.heap, s.statics, x⟩
  generalize hrun : (b.own.exec w.program).run ⟨s.heap, s.statics, x⟩ = r at hgrows
  have hout := hsettled.outcome (R := Category.Typed p r.2.heap) (a := x) (Category.widened_typed g.upward _) hhandlers
    (g.numeric _ (List.mem_of_getElem? hi)) hi hf (hreads.grow hgrows) fun e u happly hu => by
      rw [hu] at hrun
      obtain rfl := hrun
      exact g.brought hfed hx hcode hf hreads happly hu
  rw [hrun] at hout
  cases hout with
  | @next u hmethod hposition hreads =>
    rw [Machine.step_of_run hcode hrun] at horderly ⊢
    exact g.leads_behind (s := { s with heap := u.heap, statics := u.statics }) horderly (hmethod.trans hx.method)
      hx.block (congrArg (· + 1) (hposition.trans hx.position)) hreads
  | @jump l i u hmethod htarget hfound hreads =>
    rw [Machine.step_of_run hcode hrun] at horderly ⊢
    have hmem : l ∈ m.labels := Layout.mem_labels_of_code
      (mem_labelsIn.2 (List.mem_of_getElem? (getElem?_of_labelPosition hfound)))
    have hfound' : labelPosition l u.activation.method.code = some (k.layout.start i) := by
      rw [hmethod, hx.method, k.lays.labelPosition_own k.fits hmem, hfound]
      rfl
    simp only [Machine.follow, positionOf, hfound'] at horderly ⊢
    exact g.leads_block (s := { s with heap := u.heap, statics := u.statics })
      (Machine.steady_of_goOn horderly) (hmethod.trans hx.method) rfl hreads
  | finish v u =>
    rw [Machine.step_of_run hcode hrun]
    exact .here (.inl (Nat.le_refl _))
  | @call c u hmethod hposition hcalls =>
    rw [Machine.step_of_run hcode hrun]
    exact .here (.inr (.calls u.activation c rfl rfl (.own
      ⟨hmethod.trans hx.method, hx.block, hposition.trans hx.position⟩ hcalls)))
  | @exception r u stack hactivation hlocals =>
    rw [Machine.step_of_throw hcode hrun]
    have hoccupied : b.own.isLabel = false := by
      cases hlabel : b.own with
      | label l =>
        rw [hlabel] at hrun
        exact absurd (show Except.ok After.next = .error (Throw.exception r) from (Prod.mk.inj hrun).1) (by simp)
      | _ => rfl
    refine .here (.inr (.throws u.activation r rfl rfl ?_))
    rw [hactivation]
    exact .own ⟨hx.method, hx.block, hx.position⟩ hoccupied hlocals
  | fault hflawless =>
    rw [Machine.step_of_throw hcode hrun]
    exact .here (.inr (.fails _ _ rfl rfl))

/-- **What a handler catches** is of the type that its frame has -/
theorem leads_handler (g : k.Guided w desc fs) (hs : s.Steady) (hx : x.method = m') {r : Ref} {found : Option Nat}
    (hlocals : Flow.LocalsAt (Category.Typed p s.heap) fs n x.locals) (hr : s.heap.Has r ∧
      p.isAssignable (s.heap.className r) throwableType = true)
    (hfound : findHandler p m.code n (s.heap.className r) m.tryCatches = .ok found) :
    Leads w k.layout.Between (k.GoesOn fs rest) (s.land x rest r (.ok (found.map k.layout.start))) := by
  obtain ⟨handlers, hhandlers, hsettled⟩ := g.handlers
  cases found with
  | none => exact .here (.inl (Nat.le_refl _))
  | some i =>
    refine g.leads_block hs hx rfl (hsettled.caught (Category.widened_typed g.upward _) hhandlers hlocals
      hfound fun e _ haccepts => Category.typed_ref fun x hx => ?_)
    obtain rfl := Option.some.inj hx
    refine ⟨hr.1, ?_⟩
    unfold TryCatch.accepts at haccepts
    split at haccepts
    · rename_i hnone
      rw [hnone]
      exact hr.2
    · rename_i type hsome
      rw [hsome]
      exact haccepts

/-- **What is thrown** in the activation is caught in it, is thrown again, or ends it -/
theorem leads_thrown (g : k.Guided w desc fs) {r : Ref} (hs : (s.throwTo r x rest).thread.Orderly)
    (hr : s.heap.Has r ∧ p.isAssignable (s.heap.className r) throwableType = true)
    (hx : k.Throws fs s.heap x) : Leads w k.layout.Between (k.GoesOn fs rest) ((s.throwTo r x rest).step w) := by
  have hsteady : s.Steady := Machine.steady_of_orderly (m := s.throwTo r x rest) hs
  rw [Machine.step_throwTo]
  have hland (n : Nat) (found : Option Nat) (hmethod : x.method = m')
      (hhandler : findHandler w.program m'.code x.position (s.heap.className r) m'.tryCatches =
        (Except.ok found).map (Option.map k.layout.start)) :
      s.catchIn w x rest (.exception r) = s.land x rest r (.ok (found.map k.layout.start)) :=
    Machine.catchIn_found (by rw [hmethod]; exact hhandler)
  cases hx with
  | @rethrow n b y stands locals =>
    obtain ⟨found, hfound⟩ : ∃ found, findHandler p m.code n (s.heap.className r) m.tryCatches =
      .ok found := findHandler_defined k.sound.tableDefined
    have hagain : findHandler w.program m'.code _ (s.heap.className r) m'.tryCatches = _ :=
      k.lays.findHandler_rethrow k.fits k.sound.tableDefined g.assignable stands.block stands.around
        stands.unpatchable
    rw [hfound, ← stands.position] at hagain
    rw [hland n found stands.method hagain]
    exact g.leads_handler hsteady stands.method locals hr hfound
  | @own n b stands occupied locals =>
    cases hstages : b.stages with
    | false =>
      obtain ⟨found, hfound⟩ : ∃ found, findHandler p m.code n (s.heap.className r) m.tryCatches =
        .ok found := findHandler_defined k.sound.tableDefined
      have hown : findHandler w.program m'.code _ (s.heap.className r) m'.tryCatches = _ :=
        k.lays.findHandler_own k.fits k.sound.tableDefined g.assignable stands.block occupied hstages
      rw [hfound, ← stands.position] at hown
      rw [hland n found stands.method hown]
      exact g.leads_handler hsteady stands.method locals hr hfound
    | true =>
      -- the handler of the call comes first
      obtain ⟨y, hy, hu⟩ := Block.exists_of_stages hstages
      have hsite : findHandler w.program m'.code (k.layout.start n + y.ownAt) (s.heap.className r)
          m'.tryCatches = .ok (some (k.layout.start n + (y.ownAt + 3))) :=
        k.lays.findHandler_site k.fits stands.block hy hu
      have hcaught : s.catchIn w x rest (.exception r) = s.land x rest r (.ok (some _)) :=
        Machine.catchIn_found
          (by rw [stands.method, stands.position, Block.ownAt_some hy]; exact hsite)
      rw [hcaught]
      show Leads w k.layout.Between (k.GoesOn fs rest) (s.goOn (x.handle _ r) rest)
      refine (k.lays.leads_rethrow (x := x.handle _ r) k.fits g.supplies hsteady stands.block hy hu
        stands.method rfl).mono ?_
      rintro _ (⟨e, rfl⟩ | hfails)
      · exact .inr (.runs _ rfl rfl (.rethrow ⟨stands.method, stands.block, hy, hu, rfl⟩ locals rfl))
      · exact goesOn_of_leaves (.inr hfails)

/-- **The end of a call** with what its descriptor says -/
theorem leads_returned (g : k.Guided w desc fs) (hs : s.thread.Orderly) (hfed : k.Fed w rest s) {v : Option Value}
    (hp : s.pending = .activation x :: rest) (hmode : s.mode = .returning v) (hx : k.Waits fs s.heap x) :
    Leads w k.layout.Between (k.GoesOn fs rest) (s.step w) := by
  obtain ⟨handlers, hhandlers, hsettled⟩ := g.handlers
  obtain @⟨n, b, stands, calls⟩ := hx
  have horderly : (s.step w).thread.Orderly := Machine.orderly_after hs w 1
  have hstep : s.step w = s.deliver v rest (.activation x) := by
    unfold Machine.step
    rw [hp, hmode]
  rw [hstep, Machine.deliver_activation] at horderly ⊢
  refine g.leads_behind horderly stands.method stands.block (congrArg (· + 1) stands.position)
    (hsettled.returned (Category.widened_typed g.upward _) hhandlers calls fun kind callee d hi hd => ?_)
  exact hfed.returned x v n b kind callee d hp hmode stands
    (Option.some.inj ((k.lays.own stands.block).symm.trans hi)) hd

/-- **One step** of the activation leads on along its frames, and so does what follows -/
theorem leads_step (g : k.Guided w desc fs) (hs : s.thread.Orderly) (hfed : k.Fed w rest s)
    (h : k.Tracked fs rest s) : Leads w k.layout.Between (k.GoesOn fs rest) (s.step w) := by
  have hcalls (hc : s.Calls rest) : Leads w k.layout.Between (k.GoesOn fs rest) (s.step w) :=
    .here (.inr (Tracked.grow (h.step_of_calls (fun _ ha => ha.throws) hc) (Machine.grows_step w s)))
  cases h with
  | calls a c hp hmode ha => exact hcalls (.inl ⟨c, hmode⟩)
  | inside a q above hp ha =>
    refine hcalls (.inr ?_)
    rw [hp]
    simp only [List.length_cons, List.length_append]
    omega
  | returned a v hp hmode ha => exact g.leads_returned hs hfed hp hmode ha
  | fails a f hp hmode =>
    refine .here (.inl ?_)
    unfold Machine.step
    rw [hp, hmode]
    exact Nat.le_refl _
  | throws a r hp hmode ha =>
    have heq : s = s.throwTo r a rest := by
      unfold Machine.throwTo
      rw [← hp, ← hmode]
    have hr := hfed.thrown a r hp hmode
    rw [heq] at hs ⊢
    exact g.leads_thrown hs hr ha
  | runs a hp hmode ha =>
    rw [← Machine.goOn_eq hp hmode] at hs hfed ⊢
    cases ha with
    | own stands reads => exact g.leads_own hs hfed stands reads
    | rethrow stands locals thrown =>
      rw [k.lays.throws_again stands.block stands.around stands.unpatchable stands.method stands.position thrown]
      exact .here (.inr (.throws _ _ rfl rfl
        (.rethrow ⟨stands.method, stands.block, stands.around, stands.unpatchable, stands.position⟩ locals)))

end Guided
end WovenMethod
end Resumable
