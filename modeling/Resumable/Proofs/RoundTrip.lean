import Resumable.Proofs.Layout
import Resumable.Proofs.Level
import Resumable.Proofs.Settled

/-!
# One level, there and back

A level that was saved is restored as it was: the locals that hold values, the operands below the
call, and storage and staging underneath.  The operands of the call itself come back unchanged if the
callee is not woven; else the call is made again on the companion of the callee, with zeros.

The save block reads the first local of an instance method as its receiver, and the restore block
casts the companion of the callee to the type of the receiver.  Slots are numbered in 16 bits.

* `Frame.Conforms` : the values of an activation are what a frame says;
* `RoundTrip` : the three runs through the blocks of a site;
* `level_round_trip` : they go as said, for every reachable site of every woven method.
-/

namespace Resumable

/-! ## conforming activations -/

/-- the values of an activation are what a frame says -/
structure Frame.Conforms (f : Frame) (p : Program) (h : Heap) (locals stack : List Value) :
    Prop where
  locals : ∀ (i : Nat) (c : Category), f.locals[i]? = some c →
    ∃ v, locals[i]? = some v ∧ c.Admits p h v
  height : stack.length = f.stack.length
  stack : ∀ (i : Nat) (c : Category) (v : Value), f.stack[i]? = some c → stack[i]? = some v →
    c.Admits p h v

/-- the references among the values name objects that keep their classes -/
def KeepsClasses (h h' : Heap) (vs : List Value) : Prop :=
  ∀ x, Value.ref (some x) ∈ vs → h'.className x = h.className x

section
variable {p : Program} {h h' : Heap} {f : Frame} {locals stack : List Value}

theorem Category.Admits.keep {c : Category} {v : Value} (ha : c.Admits p h v)
    (hk : ∀ x, v = .ref (some x) → h'.className x = h.className x) : c.Admits p h' v := by
  cases c with
  | ref t =>
    obtain ⟨r, rfl, hr⟩ := ha
    refine ⟨r, rfl, fun x hx => ?_⟩
    rw [hk x (by rw [hx])]
    exact hr x hx
  | _ => exact ha

theorem Frame.Conforms.keep (hc : f.Conforms p h locals stack)
    (hk : KeepsClasses h h' (locals ++ stack)) : f.Conforms p h' locals stack := by
  refine ⟨fun i c hi => ?_, hc.height, fun i c v hi hv => ?_⟩
  · obtain ⟨v, hv, ha⟩ := hc.locals i c hi
    refine ⟨v, hv, ha.keep fun x hx => hk x ?_⟩
    rw [← hx]
    exact List.mem_append_left _ (List.mem_of_getElem? hv)
  · refine (hc.stack i c v hi hv).keep fun x hx => hk x ?_
    rw [← hx]
    exact List.mem_append_right _ (List.mem_of_getElem? hv)

/-- what counts of a program is what is assignable in it -/
theorem Frame.Conforms.program {p' : Program} (hpr : ∀ a b, p'.isAssignable a b = p.isAssignable a b)
    (hc : f.Conforms p h locals stack) : f.Conforms p' h locals stack := by
  refine ⟨fun i c hi => ?_, hc.height, fun i c v hi hv => (hc.stack i c v hi hv).program hpr⟩
  obtain ⟨v, hv, ha⟩ := hc.locals i c hi
  exact ⟨v, hv, ha.program hpr⟩

theorem Frame.Conforms.localsAdmitted (hc : f.Conforms p h locals stack) :
    LocalsAdmitted p h locals 0 f.locals := by
  intro i c k hi hk
  rw [Nat.zero_add]
  exact hc.locals i c hi

/-- categories and values side by side -/
theorem map_zip {α β : Type} {as : List α} {bs : List β} (h : as.length = bs.length) :
    (as.zip bs).map Prod.fst = as ∧ (as.zip bs).map Prod.snd = bs :=
  ⟨List.map_fst_zip (Nat.le_of_eq h), List.map_snd_zip (Nat.le_of_eq h.symm)⟩

/-- operands that are what their categories say, side by side with them -/
theorem admitted_zip {cs : List Category} {vs : List Value}
    (hk : ∀ c ∈ cs, ∃ k, c.kind? = some k)
    (ha : ∀ (i : Nat) (c : Category) (v : Value), cs[i]? = some c → vs[i]? = some v →
      c.Admits p h v) : Admitted p h (cs.zip vs) := by
  intro e he
  obtain ⟨i, hi⟩ := List.mem_iff_getElem?.1 he
  obtain ⟨c, v⟩ := e
  obtain ⟨hc, hv⟩ := List.getElem?_zip_eq_some.1 hi
  exact ⟨hk c (List.mem_of_getElem? hc), ha i c v hc hv⟩

end

/-! ## during a call -/

/-- the operands of a call that a staging frame keeps -/
def stagedOperands (shape : CallShape) (window : List Value) : List Value :=
  keptOf (shape.window.zip window).reverse

/-- the coroutine during the call of a site: a callee that is not woven has a staging frame -/
def Coroutine.during {β κ : Type} (c : Coroutine β κ) (site : Site) (shape : CallShape)
    (window : List Value) : Coroutine β κ :=
  if site.unpatchable then c.opening (stagedOperands shape window) else c

/-- the callee has left a companion on top of storage -/
def leftCompanion {β κ : Type} (c : Coroutine β κ) (site : Site) (shape : CallShape) : Bool :=
  if site.unpatchable then c.companionOnTop else shape.hasReceiver

/-- the operands with which a call is made again, the top first -/
def operandsAgain (site : Site) (shape : CallShape) (window : List Value)
    (companion : Option Ref) : List Value :=
  if site.unpatchable then window.reverse
  else (zerosOf shape.args).reverse ++ if shape.hasReceiver then [.ref companion] else []

/-- where the blocks of a site stand -/
structure Places where
  stage : Nat
  save : Nat
  restore : Nat

/-- the blocks of a site stand in the code -/
structure Places.Holds (at_ : Places) (code : List Insn) (a : Analysis) (ret : Option Kind)
    (site : Site) (f : Frame) (shape : CallShape) (staged : Label) : Prop where
  stage : Resumable.Holds code at_.stage
    (if site.unpatchable then stageCode shape.window staged else [])
  save : Resumable.Holds code at_.save (saveCode a ret site f shape)
  restore : Resumable.Holds code at_.restore (restoreCode site.unpatchable f shape)

/-- what is saved and restored at one site -/
structure LevelData where
  locals : List Value
  /-- the receiver, if there is one, and the arguments in order -/
  window : List Value
  /-- the operands below the call, the top first -/
  below : List Value
  /-- the reference that the callee leaves -/
  companion : Option Ref
  /-- storage below the level -/
  storage : Storage

/-- The activation conforms to the frame of the site: its values are of their categories, an instance
method still has a reference in its first local, the call was made on an object, and what the callee
leaves for it can be cast to the type of the receiver. -/
structure LevelData.Ok (d : LevelData) (p : Program) (h : Heap) (a : Analysis) (site : Site)
    (f : Frame) (shape : CallShape) : Prop where
  conforms : f.Conforms p h d.locals (d.window.reverse ++ d.below)
  window : d.window.length = shape.window.length
  count : site.unpatchable = true → d.window.length ≤ 2 ^ 31
  first : HoldsReceiver a.isStatic d.locals
  receiver : site.unpatchable = false → ∀ r, shape.receiver = some r →
    d.window.head? ≠ some .null ∧ r.Admits p h (.ref d.companion)

/-- storage with the level on it: the operands of the call or the companion of the callee, then the
operands below and the locals -/
def LevelData.saved (d : LevelData) (site : Site) (f : Frame) (shape : CallShape) : Storage :=
  (if site.unpatchable then d.storage.putAll (stagedOperands shape d.window)
    else if shape.hasReceiver then d.storage.pushRef d.companion else d.storage).putAll
    (keptOf (shape.below.zip d.below) ++ keptLocals d.locals 0 f.locals)

/-- The runs through the blocks of a site: the operands of the call are staged; the level is saved on
top of storage, with its number and its companion; and once these two are taken away, the level comes
back, down to the storage below it. -/
structure RoundTrip (w : World) (code : Method) (a : Analysis) (ret : Option Kind) (site : Site)
    (f : Frame) (shape : CallShape) (at_ : Places) (h : Heap) (d : LevelData) : Prop where
  /-- from before the call to the call -/
  staged : ∀ (m : Machine) (x : Activation) (rest : List Pending) (c : Coroutine Call Call),
    m.heap = h → m.engine.Runs c → x.method = code → x.position = at_.stage →
    x.locals = d.locals → x.stack = d.window.reverse ++ d.below →
    Machine.Reaches w (m.goOn x rest) ((m.put (c.during site shape d.window)).goOn
      { x with position := at_.stage + (if site.unpatchable then
        stageCode shape.window ⟨0⟩ else []).length } rest)
  /-- from the return of the suspended call to the return of the activation -/
  saved : ∀ (m : Machine) (x : Activation) (rest : List Pending) (c : Coroutine Call Call)
      (result : List Value),
    m.heap = h → m.engine.Runs (c.during site shape d.window) →
    c.storage = (if leftCompanion c site shape then d.storage.pushRef d.companion
      else d.storage) →
    x.method = code → x.position = at_.save → x.locals = d.locals → x.stack = result ++ d.below →
    ResultFits shape.result result →
    ∃ c', Machine.Reaches w (m.goOn x rest)
        { m.put c' with pending := rest, mode := .returning (ret.map Value.zero) } ∧
      c'.states = Int32.ofNat site.index :: c.states ∧
      c'.storage =
        (d.saved site f shape).putAll (companions a.isStatic a.rootEntry d.locals) ∧
      c'.staging = c.staging ∧ c'.floors = c.floors
  /-- from where the activation is re-entered to the call that is made again -/
  restored : ∀ (m : Machine) (x : Activation) (rest : List Pending) (c : Coroutine Call Call),
    KeepsClasses h m.heap (d.locals ++ (d.window.reverse ++ d.below)) →
    KeepsClasses h m.heap [.ref d.companion] →
    m.engine.Runs c → c.storage = d.saved site f shape →
    x.method = code → x.position = at_.restore → x.stack = [] →
    f.locals.length ≤ x.locals.length →
    ∃ c' locals, Machine.Reaches w (m.goOn x rest) ((m.put c').goOn
        { x with
          position := at_.restore + (restoreCode site.unpatchable f shape).length
          locals
          stack := operandsAgain site shape d.window d.companion ++ d.below } rest) ∧
      SameLive f.locals 0 d.locals locals ∧
      c'.storage = d.storage ∧ c'.states = c.states ∧
      c'.staging = c.staging ∧ c'.floors = c.floors

/-! ## the shape of a call -/

namespace CallShape

/-- what is known about the shape of a call in a frame whose operands all hold values -/
structure Cuts (s : CallShape) (f : Frame) : Prop where
  stack : f.stack = s.window.reverse ++ s.below
  receiver : s.receiver.isSome = s.hasReceiver

theorem of?_cuts {kind : InvokeKind} {desc : MethodDesc} {f : Frame} {s : CallShape}
    (h : of? kind desc f = some s) : s.Cuts f := by
  unfold of? at h
  dsimp only at h
  generalize hw : desc.params.length + (if kind.hasReceiver then 1 else 0) = width at h
  split at h
  · rename_i hle
    injection h with h
    subst h
    refine ⟨?_, ?_⟩
    · rw [List.reverse_reverse, List.take_append_drop]
    · unfold receiver
      dsimp only
      cases hr : kind.hasReceiver with
      | false => rfl
      | true =>
        rw [hr, if_pos rfl] at hw
        rw [if_pos rfl]
        have hlen : ((f.stack.take width).reverse).length = width := by
          rw [List.length_reverse, List.length_take]
          omega
        cases hl : (f.stack.take width).reverse with
        | nil => rw [hl, List.length_nil] at hlen; omega
        | cons c cs => rfl
  · exact absurd h (by simp)

/-- what lies below the operands of a call, and what it leaves -/
theorem of?_ok {kind : InvokeKind} {desc : MethodDesc} {f : Frame} {s : CallShape}
    (h : of? kind desc f = some s) :
    s.below = f.stack.drop (desc.params.length + if kind.hasReceiver then 1 else 0) ∧
      s.result = desc.ret.map FieldType.kind := by
  unfold of? at h
  dsimp only at h
  generalize desc.params.length + (if kind.hasReceiver then 1 else 0) = width at h ⊢
  by_cases hwidth : width ≤ f.stack.length
  · rw [if_pos hwidth] at h
    rw [← Option.some.inj h]
    exact ⟨rfl, rfl⟩
  · rw [if_neg hwidth] at h
    exact absurd h (by simp)

variable {s : CallShape} {f : Frame}

theorem Cuts.window_kind (h : s.Cuts f) (hf : f.Loaded) : ∀ c ∈ s.window, ∃ k, c.kind? = some k :=
  fun c hc => hf c (by rw [h.stack]; exact List.mem_append_left _ (List.mem_reverse.2 hc))

theorem Cuts.below_kind (h : s.Cuts f) (hf : f.Loaded) : ∀ c ∈ s.below, ∃ k, c.kind? = some k :=
  fun c hc => hf c (by rw [h.stack]; exact List.mem_append_right _ hc)

theorem receiver_mem {r : Category} (h : s.receiver = some r) : r ∈ s.window := by
  unfold receiver at h
  split at h
  · exact List.mem_of_mem_head? h
  · exact absurd h (by simp)

end CallShape

/-! ## the level of an activation -/

namespace LevelData

variable {d : LevelData} {p : Program} {h : Heap} {a : Analysis} {site : Site} {f : Frame}
  {shape : CallShape}

/-- the operands of the call with their categories -/
def windowEntries (d : LevelData) (shape : CallShape) : List (Category × Value) :=
  shape.window.zip d.window

/-- the operands below the call with their categories -/
def belowEntries (d : LevelData) (shape : CallShape) : List (Category × Value) :=
  shape.below.zip d.below

theorem Ok.height (hd : d.Ok p h a site f shape) (hs : shape.Cuts f) :
    shape.below.length = d.below.length := by
  have hheight := hd.conforms.height
  rw [hs.stack, List.length_append, List.length_append, List.length_reverse, List.length_reverse,
    hd.window] at hheight
  omega

theorem Ok.admitted (hd : d.Ok p h a site f shape) (hs : shape.Cuts f) (hf : f.Loaded) :
    Admitted p h (d.windowEntries shape) ∧ Admitted p h (d.belowEntries shape) := by
  have hstack := hd.conforms.stack
  rw [hs.stack] at hstack
  refine ⟨admitted_zip (hs.window_kind hf) fun i c v hc hv => ?_,
    admitted_zip (hs.below_kind hf) fun i c v hc hv => ?_⟩
  · -- the operands stand in a stack the last one first
    have hi : i < shape.window.length := (List.getElem?_eq_some_iff.1 hc).1
    refine hstack (shape.window.length - 1 - i) c v ?_ ?_
    · rw [List.getElem?_append_left (by rw [List.length_reverse]; omega),
        List.getElem?_reverse (by omega), ← hc]
      congr 1
      omega
    · rw [List.getElem?_append_left (by rw [List.length_reverse, hd.window]; omega),
        List.getElem?_reverse (by rw [hd.window]; omega), ← hv, hd.window]
      congr 1
      omega
  · refine hstack (shape.window.length + i) c v ?_ ?_
    · rw [List.getElem?_append_right (by rw [List.length_reverse]; omega), List.length_reverse,
        Nat.add_sub_cancel_left]
      exact hc
    · rw [List.getElem?_append_right (by rw [List.length_reverse, hd.window]; omega),
        List.length_reverse, hd.window, Nat.add_sub_cancel_left]
      exact hv

end LevelData

/-! ## the blocks of a site -/

/-- where the blocks of a site stand when its block starts at a place -/
def Places.ofStart (site : Site) (f : Frame) (shape : CallShape) (labels : SiteLabels)
    (start : Nat) : Places where
  restore := start + 3
  stage := start + 3 + (restoreCode site.unpatchable f shape).length + 1
  save := start + (beforeCall site f shape labels).length + 2 +
    (rethrowCode site labels).length + 3

theorem Places.holds_ofStart {code : List Insn} {start : Nat} {a : Analysis} {ret : Option Kind}
    {site : Site} {f : Frame} {shape : CallShape} {labels : SiteLabels} (own : Insn)
    (h : Resumable.Holds code start
      (beforeCall site f shape labels ++ own :: afterCall a ret site f shape labels)) :
    (Places.ofStart site f shape labels start).Holds code a ret site f shape labels.staged := by
  have hbefore := h.left
  have hafter := h.right.tail
  unfold beforeCall at hbefore
  unfold afterCall at hafter
  have hrestore := hbefore.left.left.left.right
  have hstage := hbefore.left.right
  have hsave := hafter.left.left.right
  refine ⟨?_, ?_, hrestore⟩
  · simp only [List.length_append, List.length_cons, List.length_nil, ← Nat.add_assoc] at hstage
    exact hstage
  · simp only [List.length_append, List.length_cons, List.length_nil] at hsave
    unfold Places.ofStart
    refine (congrArg (Resumable.Holds code · _) ?_).mp hsave
    dsimp only
    omega

/-! ## the three runs -/

section
variable {w : World} {code : Method} {a : Analysis} {ret : Option Kind} {site : Site} {f : Frame}
  {shape : CallShape} {at_ : Places} {staged : Label} {h : Heap} {d : LevelData} {n : Nat}

theorem length_stageCode (window : List Category) (l l' : Label) :
    (stageCode window l).length = (stageCode window l').length := by
  simp only [stageCode, List.length_append, List.length_cons, List.length_nil]

/-- the operands of the call are staged -/
theorem LevelData.Ok.reaches_staged (hw : w.Supplies) (hd : d.Ok w.program h a site f shape)
    (hs : shape.Cuts f) (hf : f.Loaded) (hat : at_.Holds code.code a ret site f shape staged)
    {m : Machine} {x : Activation} {c : Coroutine Call Call} (rest : List Pending)
    (hh : m.heap = h) (hc : m.engine.Runs c) (hx : x.method = code) (hpos : x.position = at_.stage)
    (hlocals : x.locals = d.locals) (hstack : x.stack = d.window.reverse ++ d.below) :
    Machine.Reaches w (m.goOn x rest) ((m.put (c.during site shape d.window)).goOn
      { x with position := at_.stage + (if site.unpatchable then
        stageCode shape.window ⟨0⟩ else []).length } rest) := by
  have hcode := hat.stage
  unfold Coroutine.during
  cases hu : site.unpatchable with
  | false =>
    simp only [Bool.false_eq_true, if_false, List.length_nil, Nat.add_zero]
    rw [Machine.put_self hc, ← hpos]
    exact .refl w _
  | true =>
    rw [hu, if_pos rfl] at hcode
    simp only [if_true]
    obtain ⟨hfst, hsnd⟩ := map_zip hd.window.symm
    have hadm := (hd.admitted hs hf).1
    have hlen : (d.windowEntries shape).length = d.window.length := by
      rw [← hsnd, List.length_map, LevelData.windowEntries]
    have htakes : Takes w h (stageCode ((d.windowEntries shape).map Prod.fst) staged)
        ⟨c, d.locals, ((d.windowEntries shape).map Prod.snd).reverse ++ d.below⟩
        ⟨c.opening (keptOf (d.windowEntries shape).reverse), d.locals,
          ((d.windowEntries shape).map Prod.snd).reverse ++ d.below⟩ :=
      .stageCode hw hadm (.of_length (by rw [List.length_map, hlen]; exact hd.count hu))
    unfold LevelData.windowEntries at htakes
    rw [hfst, hsnd] at htakes
    have hrun := htakes.reaches rest hh hc hlocals hstack (by rw [hx, hpos]; exact hcode)
    have hend : x.behind (stageCode shape.window staged) d.locals (d.window.reverse ++ d.below) =
        { x with position := at_.stage + (stageCode shape.window ⟨0⟩).length } := by
      unfold Activation.behind
      rw [hpos, ← hlocals, ← hstack, length_stageCode shape.window ⟨0⟩ staged]
    rw [hend] at hrun
    exact hrun

/-- the level is saved, and the activation ends -/
theorem LevelData.Ok.reaches_saved (hw : w.Supplies) (hd : d.Ok w.program h a site f shape)
    (hs : shape.Cuts f) (hf : f.Sound n) (hslots : f.locals.length ≤ 65536)
    (hat : at_.Holds code.code a ret site f shape staged)
    {m : Machine} {x : Activation} {c : Coroutine Call Call} {result : List Value}
    (rest : List Pending) (hh : m.heap = h) (hc : m.engine.Runs (c.during site shape d.window))
    (hstorage : c.storage = (if leftCompanion c site shape then d.storage.pushRef d.companion
      else d.storage))
    (hx : x.method = code) (hpos : x.position = at_.save) (hlocals : x.locals = d.locals)
    (hstack : x.stack = result ++ d.below) (hresult : ResultFits shape.result result) :
    ∃ c', Machine.Reaches w (m.goOn x rest)
        { m.put c' with pending := rest, mode := .returning (ret.map Value.zero) } ∧
      c'.states = Int32.ofNat site.index :: c.states ∧
      c'.storage =
        (d.saved site f shape).putAll (companions a.isStatic a.rootEntry d.locals) ∧
      c'.staging = c.staging ∧ c'.floors = c.floors := by
  obtain ⟨hfst, hsnd⟩ := map_zip (hd.height hs)
  obtain ⟨hwindow, hbelow⟩ := hd.admitted hs hf.loaded
  -- what lies in storage under the operands below the call
  have hhead : ∃ e : Coroutine Call Call, Takes w h (if site.unpatchable then
        [Intrinsic.discardCompanion.call, Intrinsic.commitStaging.call] else [])
        ⟨c.during site shape d.window, d.locals, d.below⟩ ⟨e, d.locals, d.below⟩ ∧
      e.states = c.states ∧ e.staging = c.staging ∧ e.floors = c.floors ∧
      e.storage = (if site.unpatchable then d.storage.putAll (stagedOperands shape d.window)
        else if shape.hasReceiver then d.storage.pushRef d.companion else d.storage) := by
    unfold Coroutine.during
    unfold leftCompanion at hstorage
    cases hu : site.unpatchable with
    | true =>
      simp only [hu, if_true] at hstorage ⊢
      exact ⟨_, Takes.commitFrame hw hstorage, rfl, rfl, rfl, rfl⟩
    | false =>
      simp only [hu, Bool.false_eq_true, if_false] at hstorage ⊢
      exact ⟨c, Takes.nil w h _, rfl, rfl, rfl, hstorage⟩
  obtain ⟨e, hhead, hstates, hstaging, hfloors, hunder⟩ := hhead
  have hrun := Machine.reaches_saved rest result [] (x := x) (m := m) (f := f) (s := shape)
    (d := e) hw hc (by rw [hx, hpos]; exact hat.save) hfst hbelow.operands
    (by rw [hstack, List.append_nil, hsnd]) hresult
    (by rw [hlocals]; exact hd.conforms.localsAdmitted.fit) hslots
    (by rw [hlocals]; exact hd.first)
    (by rw [hh, hlocals, List.append_nil, hsnd]; exact hhead)
  refine ⟨_, hrun, ?_, ?_, hstaging, hfloors⟩
  · rw [← hstates]
    rfl
  · show (e.storage.putAll _).putAll _ = _
    rw [hunder, hlocals]
    rfl

/-- what is known of a level survives as long as its objects keep their classes -/
theorem LevelData.Ok.keep {p : Program} {h' : Heap} (hd : d.Ok p h a site f shape)
    (hkeep : KeepsClasses h h' (d.locals ++ (d.window.reverse ++ d.below)))
    (hkeep' : KeepsClasses h h' [.ref d.companion]) : d.Ok p h' a site f shape := by
  refine ⟨hd.conforms.keep hkeep, hd.window, hd.count, hd.first, fun hu r hr => ?_⟩
  obtain ⟨hnull, hadm⟩ := hd.receiver hu r hr
  refine ⟨hnull, hadm.keep fun x hx => hkeep' x ?_⟩
  rw [hx]
  exact List.mem_singleton_self _

/-- the receiver of a call made on an object is not the exact null -/
theorem LevelData.Ok.receiver_ne_null {p : Program} (hd : d.Ok p h a site f shape)
    (hs : shape.Cuts f) (hu : site.unpatchable = false) {r : Category}
    (hr : shape.receiver = some r) : r ≠ .null := by
  rintro rfl
  have hstack := hd.conforms.stack
  rw [hs.stack] at hstack
  have hhead : shape.window.head? = some .null := by
    unfold CallShape.receiver at hr
    split at hr
    · exact hr
    · exact absurd hr (by simp)
  have hlen := hd.window
  obtain ⟨cs, hcs⟩ : ∃ cs, shape.window = .null :: cs := by
    cases hw : shape.window with
    | nil => rw [hw] at hhead; exact absurd hhead (by simp)
    | cons c cs => rw [hw] at hhead; exact ⟨cs, by simpa using hhead⟩
  cases hv : d.window with
  | nil => rw [hv, hcs] at hlen; exact absurd hlen (by simp)
  | cons v vs =>
    rw [hcs, hv] at hstack
    rw [hcs, hv, List.length_cons, List.length_cons, Nat.add_right_cancel_iff] at hlen
    have hnull : v = .null := hstack cs.length .null v
      (by rw [List.reverse_cons, List.append_assoc, List.getElem?_append_right
        (Nat.le_of_eq List.length_reverse), List.length_reverse, Nat.sub_self]; rfl)
      (by rw [List.reverse_cons, List.append_assoc, List.getElem?_append_right
        (by rw [List.length_reverse]; omega), List.length_reverse, hlen, Nat.sub_self]; rfl)
    exact (hd.receiver hu .null hr).1 (by rw [hv, hnull, List.head?_cons])

/-- the level is restored, down to what lies under it -/
theorem LevelData.Ok.passes_restored (hw : w.Supplies) (hd : d.Ok w.program h a site f shape)
    (hs : shape.Cuts f) (hf : f.Sound n) (hslots : f.locals.length ≤ 65536)
    (hat : at_.Holds code.code a ret site f shape staged)
    {S : Nat → Prop} {m : Machine} {x : Activation} {c : Coroutine Call Call} (rest : List Pending)
    (hS : ∀ i, i < (restoreCode site.unpatchable f shape).length → S (at_.restore + i))
    (hkeep : KeepsClasses h m.heap (d.locals ++ (d.window.reverse ++ d.below)))
    (hkeep' : KeepsClasses h m.heap [.ref d.companion])
    (hc : m.engine.Runs c) (hstorage : c.storage = d.saved site f shape)
    (hx : x.method = code) (hpos : x.position = at_.restore) (hstack : x.stack = [])
    (hlen : f.locals.length ≤ x.locals.length) :
    ∃ b locals, Machine.Passes w S (m.goOn x rest) ((m.put (c.stores d.storage b)).goOn
        { x with
          position := at_.restore + (restoreCode site.unpatchable f shape).length
          locals
          stack := operandsAgain site shape d.window d.companion ++ d.below } rest) ∧
      RestoredLocals f d.locals x.locals locals ∧
      (site.unpatchable = false → shape.hasReceiver = true → b = false) := by
  have hd := hd.keep hkeep hkeep'
  obtain ⟨hfst, hsnd⟩ := map_zip (hd.height hs)
  obtain ⟨hwindow, hbelow⟩ := hd.admitted hs hf.loaded
  have hlocals := hd.conforms.localsAdmitted
  have hcode := hat.restore
  unfold LevelData.saved at hstorage
  unfold operandsAgain
  cases hu : site.unpatchable with
  | true =>
    simp only [hu, if_true] at hstorage hcode hS ⊢
    obtain ⟨hwfst, hwsnd⟩ := map_zip hd.window.symm
    obtain ⟨b, locals, hrestored, htakes⟩ := Takes.restoreUnpatchable x.locals [] (c := c)
      (f := f) hw hf.wide hslots hlocals hlen hfst hbelow hwfst hwindow hstorage
    have hrun := htakes.passes rest (by rw [hpos]; exact hS) rfl hc rfl hstack
      (by rw [hx, hpos]; exact hcode)
    refine ⟨b, locals, ?_, hrestored, fun hu => absurd hu (by simp)⟩
    simp only [Activation.behind, hpos, hsnd, hwsnd, List.append_nil] at hrun
    exact hrun
  | false =>
    simp only [hu, Bool.false_eq_true, if_false] at hstorage hcode hS ⊢
    have hreceiver : ∀ r, shape.receiver = some r →
        r.kind? = some .ref ∧ r ≠ .null ∧ r.Admits w.program m.heap (.ref d.companion) := by
      intro r hr
      have hadm := (hd.receiver hu r hr).2
      obtain ⟨k, hk⟩ := hs.window_kind hf.loaded r (CallShape.receiver_mem hr)
      have hkr : k = .ref := by
        have hv := hadm.kind? hk
        injection hv with hv
        exact hv.symm
      exact ⟨by rw [hk, hkr], hd.receiver_ne_null hs hu hr, hadm⟩
    rw [← hs.receiver] at hstorage ⊢
    obtain ⟨b, locals, hrestored, hmark, htakes⟩ := Takes.restorePatchable x.locals [] (c := c)
      (f := f) hw hf.wide hslots hlocals hlen hfst hbelow hreceiver hstorage
    have hrun := htakes.passes rest (by rw [hpos]; exact hS) rfl hc rfl hstack
      (by rw [hx, hpos]; exact hcode)
    refine ⟨b, locals, ?_, hrestored, fun _ => hmark⟩
    simp only [Activation.behind, hpos, hsnd, List.append_nil] at hrun
    rw [List.append_assoc]
    exact hrun

end

/-! ## sites of woven methods -/

/-- a method of a class and what weaving makes of it for a table -/
structure Weaving where
  program : Program
  table : RestoreTable
  owner : String
  method : Method
  analysis : Analysis
  woven : Method
  analyzed : Analysis.ofTable? program table owner method = .ok (some analysis)
  weaves : weaveMethod analysis method = .ok woven

/-- A reachable call of a restore point in a woven method.  Locals are numbered in 16 bits. -/
structure WovenSite extends Weaving where
  site : Site
  frame : Frame
  listed : site ∈ sitesOf analysis method.nextLabel
  reachable : site.frame = some frame
  slots : frame.locals.length ≤ 65536

namespace WovenSite

/-- the call has this shape, and its blocks stand in these places of the woven method -/
structure Stands (s : WovenSite) (desc : MethodDesc) (shape : CallShape) (at_ : Places) : Prop where
  parsed : MethodDesc.parse? s.method.desc = some desc
  shaped : ∃ callee, MethodDesc.parse? s.site.callee.desc = some callee ∧
    CallShape.of? s.site.kind callee s.frame = some shape
  placed : ∃ staged, at_.Holds s.woven.code s.analysis (desc.ret.map FieldType.kind) s.site s.frame
    shape staged

variable {s : WovenSite} {desc : MethodDesc} {shape : CallShape} {at_ : Places}

/-- every reachable call of a restore point has its blocks -/
theorem stands (s : WovenSite) : ∃ desc shape at_, s.Stands desc shape at_ := by
  obtain ⟨l, hl, -, -⟩ := weaveMethod_ok (Analysis.ofTable?_sound s.analyzed).insns s.weaves
  obtain ⟨b, x, hb, hx, hxs, hxf, hfits⟩ := hl.around s.listed s.reachable
  obtain ⟨callee, hcallee, hshape⟩ := hfits.shape
  rw [hxs] at hcallee hshape
  rw [hxf] at hshape
  have hblock := hl.holds hb
  unfold Block.code Block.before Block.behind at hblock
  simp only [hx, hxs, hxf] at hblock
  exact ⟨l.desc, x.shape, _, hl.desc, ⟨callee, hcallee, hshape⟩, _, Places.holds_ofStart _ hblock⟩

theorem Stands.cuts (h : s.Stands desc shape at_) : shape.Cuts s.frame := by
  obtain ⟨callee, -, hshape⟩ := h.shaped
  exact CallShape.of?_cuts hshape

theorem frame_sound (s : WovenSite) : ∃ n, s.frame.Sound n := by
  obtain ⟨_, _, _, _, _, hdescribes⟩ := sitesFrom_sound s.listed
  have hf := s.reachable
  rw [hdescribes.frame] at hf
  exact (Analysis.ofTable?_sound s.analyzed).frame (Option.join_eq_some_iff.1 hf)

/-- a level that conforms goes there and back -/
theorem Stands.roundTrip (hs : s.Stands desc shape at_) {w : World} {h : Heap} {d : LevelData}
    (hw : w.Supplies) (hd : d.Ok w.program h s.analysis s.site s.frame shape) :
    RoundTrip w s.woven s.analysis (desc.ret.map FieldType.kind) s.site s.frame shape at_ h d := by
  obtain ⟨n, hf⟩ := s.frame_sound
  obtain ⟨staged, hat⟩ := hs.placed
  refine ⟨fun m x rest c => hd.reaches_staged hw hs.cuts hf.loaded hat rest,
    fun m x rest c result => hd.reaches_saved hw hs.cuts hf s.slots hat rest,
    fun m x rest c hkeep hkeep' hc hstorage hx hpos hstack hlen => ?_⟩
  obtain ⟨b, locals, hpasses, hrestored, -⟩ := hd.passes_restored hw hs.cuts hf s.slots hat
    (S := fun _ => True) rest (fun _ _ => trivial) hkeep hkeep' hc hstorage hx hpos hstack hlen
  exact ⟨c.stores d.storage b, locals, hpasses.reaches, hrestored.live, rfl, rfl, rfl, rfl⟩

end WovenSite

/-! ## the round trip -/

/-- **Round trip**: around every reachable call of a restore point in a woven method stand blocks that
save and restore any level that conforms to the frame of the call -/
theorem level_round_trip {p : Program} {t : RestoreTable} {owner : String} {m m' : Method}
    {a : Analysis} {site : Site} {f : Frame} (ha : Analysis.ofTable? p t owner m = .ok (some a))
    (hm : weaveMethod a m = .ok m') (hsite : site ∈ sitesOf a m.nextLabel)
    (hf : site.frame = some f) (hslots : f.locals.length ≤ 65536) :
    ∃ (desc callee : MethodDesc) (shape : CallShape) (staged : Label) (at_ : Places),
      MethodDesc.parse? m.desc = some desc ∧
      MethodDesc.parse? site.callee.desc = some callee ∧
      CallShape.of? site.kind callee f = some shape ∧
      at_.Holds m'.code a (desc.ret.map FieldType.kind) site f shape staged ∧
      ∀ (w : World) (h : Heap) (d : LevelData), w.Supplies → d.Ok w.program h a site f shape →
        RoundTrip w m' a (desc.ret.map FieldType.kind) site f shape at_ h d := by
  let s : WovenSite :=
    { program := p, table := t, owner, method := m, analysis := a, woven := m', analyzed := ha
      weaves := hm, site, frame := f, listed := hsite, reachable := hf, slots := hslots }
  obtain ⟨desc, shape, at_, hs⟩ := s.stands
  obtain ⟨callee, hcallee, hshape⟩ := hs.shaped
  obtain ⟨staged, hat⟩ := hs.placed
  exact ⟨desc, callee, shape, staged, at_, hs.parsed, hcallee, hshape, hat,
    fun w h d hw hd => hs.roundTrip hw hd⟩

/-! ## a level with a local and an operand, and one without a receiver -/

namespace Demo

def owner : String := "demo/R"

/-- the callee of the sites -/
def step : MethodId := ⟨owner, "step", "()V"⟩

/-- a static method that calls with a value in its local and another one on its stack -/
def keeping : Method where
  name := "run"
  desc := "()V"
  isStatic := true
  maxLocals := 1
  code := [.intConst 7, .store .int 0, .intConst 5, .invoke .static step, .pop, .ret none]
  tryCatches := []
  localVars := []

/-- an instance method that has put a value in the place of its receiver when it calls -/
def overwriting : Method where
  name := "run"
  desc := "()V"
  isStatic := false
  maxLocals := 1
  code := [.intConst 1, .store .int 0, .invoke .static step, .ret none]
  tryCatches := []
  localVars := []

/-- every call of `step` in `run` may suspend -/
def table : RestoreTable := ⟨none, [⟨owner, "run", "", none, [.ofName "step"]⟩]⟩

/-- a coroutine that runs alone -/
def running : Coroutine Call Call :=
  { Coroutine.create 1 (⟨.static, step, []⟩ : Call) with
    body := none
    status := .running
    yielding := true }

def machine : Machine := { Machine.empty with engine := ⟨#[running], [1]⟩ }

theorem runs_machine : machine.engine.Runs running := ⟨rfl, rfl⟩

/-- no classes and no host methods -/
def world : World := ⟨.empty, []⟩

theorem supplies_world : world.Supplies :=
  World.supplies_of (fun _ _ => rfl) fun _ _ _ hmem => absurd hmem (by simp [world])

/-- the analysis of a method in which every site may be woven -/
def analysisOf (m : Method) (frames : List (Option Frame)) : Analysis where
  method := m.id owner
  isStatic := m.isStatic
  rootEntry := true
  calls := 1
  restorePoints := [step]
  unpatchable := []
  frames
  insns := m.code

/-- the frame of the site in `keeping` -/
def keepingFrame : Frame := ⟨[.int], [.int]⟩

def keepingAnalysis : Analysis :=
  analysisOf keeping [some ⟨[.empty], []⟩, some ⟨[.empty], [.int]⟩, some ⟨[.int], []⟩,
    some keepingFrame, some keepingFrame, some ⟨[.int], []⟩]

def keepingSite : Site := ⟨0, 3, .static, step, false, some keepingFrame, ⟨0⟩⟩

/-- what is on its way when `keeping` calls -/
def keepingLevel : LevelData := ⟨[.int 7], [], [.int 5], none, .empty⟩

/-- a call without operands, above those of the frame -/
def shape (f : Frame) : CallShape := ⟨f.stack, [], false, none⟩

theorem keepingLevel_ok : keepingLevel.Ok world.program .empty keepingAnalysis keepingSite keepingFrame
    (shape keepingFrame) := by
  refine ⟨⟨fun i c hi => ?_, rfl, fun i c v hi hv => ?_⟩, rfl, fun _ => by decide, ?_, ?_⟩
  · match i with
    | 0 =>
      obtain rfl : Category.int = c := Option.some.inj hi
      exact ⟨.int 7, rfl, fun k hk => hk⟩
  · match i with
    | 0 =>
      obtain rfl : Category.int = c := Option.some.inj hi
      obtain rfl : Value.int 5 = v := Option.some.inj hv
      exact fun k hk => hk
  · exact fun hstatic => absurd hstatic (by decide)
  · exact fun _ r hr => absurd hr (by simp [CallShape.receiver, shape])

theorem level_round_trip_keeping :
    ∃ (m' : Method) (at_ : Places),
      Analysis.ofTable? .empty table owner keeping = .ok (some keepingAnalysis) ∧
      weaveMethod keepingAnalysis keeping = .ok m' ∧
      keepingSite ∈ sitesOf keepingAnalysis keeping.nextLabel ∧
      keepingSite.frame = some keepingFrame ∧ keepingFrame.locals.length ≤ 65536 ∧
      RoundTrip world m' keepingAnalysis none keepingSite keepingFrame (shape keepingFrame) at_ .empty
        keepingLevel := by
  have ha : Analysis.ofTable? .empty table owner keeping = .ok (some keepingAnalysis) := rfl
  obtain ⟨m', hm⟩ : ∃ m', weaveMethod keepingAnalysis keeping = .ok m' := ⟨_, rfl⟩
  have hsite : keepingSite ∈ sitesOf keepingAnalysis keeping.nextLabel := List.mem_singleton_self _
  obtain ⟨desc, callee, s, staged, at_, hdesc, hcallee, hshape, -, hround⟩ :=
    level_round_trip ha hm hsite rfl (show keepingFrame.locals.length ≤ 65536 by decide)
  obtain rfl : desc = ⟨[], none⟩ := (Option.some.inj hdesc).symm
  obtain rfl : callee = ⟨[], none⟩ := (Option.some.inj hcallee).symm
  obtain rfl : s = shape keepingFrame := (Option.some.inj hshape).symm
  exact ⟨m', at_, ha, hm, hsite, rfl, by decide,
    hround world .empty keepingLevel supplies_world keepingLevel_ok⟩

/-! ### no receiver -/

/-- the frame of the site in `overwriting` -/
def overwritingFrame : Frame := ⟨[.int], []⟩

def overwritingAnalysis : Analysis :=
  analysisOf overwriting [some ⟨[.ref owner], []⟩, some ⟨[.ref owner], [.int]⟩,
    some overwritingFrame, some overwritingFrame]

def overwritingSite : Site := ⟨0, 2, .static, step, false, some overwritingFrame, ⟨0⟩⟩

/-- what is on its way when `overwriting` calls -/
def overwritingLevel : LevelData := ⟨[.int 1], [], [], none, .empty⟩

/-- the woven method -/
def overwritten : Method :=
  match weaveMethod overwritingAnalysis overwriting with
  | .ok m => m
  | .error _ => overwriting

def overwritingPlaces : Places :=
  .ofStart overwritingSite overwritingFrame (shape overwritingFrame) (.ofBase 3) 12

/-- the activation whose call has just come back -/
def overwritingActivation : Activation := ⟨overwritten, overwritingPlaces.save, [.int 1], []⟩

/-- An instance method whose first local is no longer its receiver cannot save a level, conforming as
it may be. -/
theorem no_round_trip_overwriting :
    Analysis.ofTable? .empty table owner overwriting = .ok (some overwritingAnalysis) ∧
    weaveMethod overwritingAnalysis overwriting = .ok overwritten ∧
    overwritingSite ∈ sitesOf overwritingAnalysis overwriting.nextLabel ∧
    overwritingSite.frame = some overwritingFrame ∧ overwritingFrame.locals.length ≤ 65536 ∧
    overwritingPlaces.Holds overwritten.code overwritingAnalysis none overwritingSite
      overwritingFrame (shape overwritingFrame) (SiteLabels.ofBase 3).staged ∧
    overwritingFrame.Conforms world.program .empty overwritingLevel.locals [] ∧
    ¬ RoundTrip world overwritten overwritingAnalysis none overwritingSite overwritingFrame
      (shape overwritingFrame) overwritingPlaces .empty overwritingLevel := by
  refine ⟨rfl, rfl, List.mem_singleton_self _, rfl, by decide, ?_, ⟨fun i c hi => ?_, rfl,
    fun i c v hi => absurd hi (by simp [overwritingFrame])⟩, fun hround => ?_⟩
  · exact Places.holds_ofStart (.invoke .static step)
      ⟨overwritten.code.take 12, overwritten.code.drop 33, rfl, rfl⟩
  · match i with
    | 0 =>
      obtain rfl : Category.int = c := Option.some.inj hi
      exact ⟨.int 1, rfl, fun k hk => hk⟩
  · obtain ⟨c', hreturns, -⟩ := hround.saved machine overwritingActivation [] running [] rfl
      runs_machine rfl rfl rfl rfl rfl rfl
    -- the first local is loaded as a reference, which it is not
    have hfaults : Machine.Reaches world (machine.goOn overwritingActivation [])
        ((machine.goOn overwritingActivation []).after world 10) := ⟨10, rfl⟩
    obtain ⟨e, he⟩ : ∃ e, ((machine.goOn overwritingActivation []).after world 10).result? =
        some (.error e) := ⟨_, rfl⟩
    obtain ⟨n, hn⟩ := hreturns.of_result? hfaults he
    rw [Machine.after_of_result? rfl] at hn
    rw [← hn] at he
    exact absurd he (by simp [Machine.result?])

end Demo

end Resumable
