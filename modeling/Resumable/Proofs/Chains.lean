import Resumable.Proofs.Casts
import Resumable.Proofs.Companion
import Resumable.Proofs.Muting
import Resumable.Proofs.Totality

/-!
# Live chains of calls

While the body of a coroutine runs, its calls form a chain: each activation stands at the call that the next
one was entered by.  The chain can be suspended where every activation of it is of a woven method and stands
at a call that is made again once its level is back: on the reference that the callee has left, with zeros
for its arguments.

* `Site.callAgain` : the call that is made again;
* `Call.left` : the references that a suspended callee leaves for whoever calls it again;
* `Savable` : an activation whose level can be saved and restored;
* `Chain`, `siteNumbers` : a chain of such activations, and the numbers of their sites;
* `Chain.accepts` : what is called again takes the arguments that it gets.
-/

namespace Resumable

open Category (Reading)

/-! ## calls that are made again -/

/-- the object that a call is made on, if there is one -/
def Call.self? (c : Call) : Option Ref :=
  match c.args.head? with
  | some (.ref r) => r
  | _ => none

/-- The references that the callee of a suspended call leaves: what it was called on, or a null for a static
method that a coroutine runs. -/
def Call.left (c : Call) (outermost : Bool) : List Value :=
  if c.kind.hasReceiver then [.ref c.self?] else if outermost then [.null] else []

/-- the call of a site as it is made again -/
def Site.callAgain (s : Site) (shape : CallShape) (r : Ref) : Call :=
  ⟨s.kind, s.callee, (if shape.hasReceiver then [.ref (some r)] else []) ++ zerosOf shape.args⟩

/-- a coroutine that is resumed finds one reference on top -/
theorem Call.exists_left (c : Call) : ∃ r, c.left true = [.ref r] := by
  unfold left
  split
  · exact ⟨_, rfl⟩
  · exact ⟨none, rfl⟩

theorem Site.left_callAgain {s : Site} {shape : CallShape} (r : Ref) (h : shape.hasReceiver = s.kind.hasReceiver) :
    (s.callAgain shape r).left false = if shape.hasReceiver then [.ref (some r)] else [] := by
  unfold Call.left Call.self? callAgain
  rw [← h]
  split
  · rfl
  · rfl

section
variable {p : Program} {h : Heap}

instance : Reading (Category.Admits p h) where
  free {c v} hc := by
    cases c with
    | null => exact absurd hc (by simp [Category.kind?])
    | ref t => exact absurd hc (by simp [Category.kind?])
    | _ => exact fun k hk => absurd (hc.symm.trans hk) (by simp)
  kind hv hk := hv.kind? hk
  number {c v k} hne hk hv := by
    cases c with
    | null => exact absurd (Option.some.inj hk).symm hne
    | ref t => exact absurd (Option.some.inj hk).symm hne
    | _ => exact fun k' hk' => hv.trans (hk.symm.trans hk')
  null := Iff.rfl
  ref t := ⟨none, rfl, fun x hx => absurd hx (by simp)⟩

end

namespace World

/-- a method that a call enters is found under its name, and is static as the call is -/
theorem target?_code {w : World} {h : Heap} {c : Call} {m : Method} (ht : w.target? h c = some (.code m)) :
    m.name = c.method.name ∧ m.desc = c.method.desc ∧ m.isStatic = (c.kind == .static) := by
  have halong : ∀ cs, w.findAlong c.kind c.method cs = .ok (some (.code m)) →
      m.name = c.method.name ∧ m.desc = c.method.desc := by
    intro cs
    induction cs with
    | nil => exact fun h => absurd h (by simp [findAlong])
    | cons o cs ih =>
      intro h
      rw [findAlong] at h
      split at h
      · rename_i m' hm'
        obtain ⟨d, -, hd⟩ := Option.bind_eq_some_iff.1 hm'
        split at h
        · obtain rfl : m' = m := by simpa using h
          have hid := List.find?_some hd
          rw [Bool.and_eq_true, beq_iff_eq, beq_iff_eq] at hid
          exact hid
        · exact absurd h (by simp)
      · split at h
        · exact absurd h (by simp)
        · exact ih h
  unfold target? at ht
  obtain ⟨receiver, -, ht⟩ := Option.bind_eq_some_iff.1 ht
  have hresolve : w.resolve c.kind c.method receiver = .ok (.code m) := by
    revert ht
    cases w.resolve c.kind c.method receiver with
    | error f => exact fun ht => absurd ht (by simp [Except.toOption])
    | ok x => exact fun ht => by rw [Option.some.inj ht]
  refine and_assoc.1 ⟨?_, resolve_isStatic hresolve⟩
  rw [resolve_eq] at hresolve
  split at hresolve
  · exact absurd hresolve (by simp)
  · rename_i hfound
    exact halong _ (by rw [hfound, Except.ok.inj hresolve])
  · split at hresolve <;> exact absurd hresolve (by simp)

/-- such a method is not static exactly if the call has a receiver -/
theorem hasReceiver_of_target? {w : World} {h : Heap} {c : Call} {m : Method}
    (ht : w.target? h c = some (.code m)) : c.kind.hasReceiver = !m.isStatic := by
  rw [(target?_code ht).2.2]
  cases c.kind <;> rfl

end World

/-! ## activations that can be suspended -/

/-- An activation of a woven method stands at a reachable call that is made again.  Its values are what the frame of
the call says, and the callee leaves a reference that is what the frame says of the receiver. -/
structure Savable (p : Program) (t : RestoreTable) (p' : Program) (h : Heap) (owner : String) (x : Activation)
    (a : Analysis) (site : Site) (f : Frame) (shape : CallShape) (r : Ref) : Prop where
  analyzed : Analysis.ofTable? p t owner x.method = .ok (some a)
  woven : ∃ m', p'.method? (x.method.id owner) = some m' ∧ weaveMethod a x.method = .ok m'
  listed : site ∈ sitesOf a x.method.nextLabel
  position : site.position = x.position
  reachable : site.frame = some f
  patchable : site.unpatchable = false
  shaped : ∃ d, MethodDesc.parse? site.callee.desc = some d ∧ CallShape.of? site.kind d f = some shape
  locals : ∀ (i : Nat) (c : Category), f.locals[i]? = some c → ∃ v, x.locals[i]? = some v ∧ c.Admits p h v
  below : List.Forall₂ (Category.Admits p h) shape.below x.stack
  receiver : ∀ c, shape.receiver = some c → c.Admits p h (.ref (some r))

namespace Savable

variable {p p' : Program} {t : RestoreTable} {h : Heap} {owner : String} {x : Activation} {a : Analysis}
  {site : Site} {f : Frame} {shape : CallShape} {r : Ref} {m : Method}

theorem sound (s : Savable p t p' h owner x a site f shape r) : a.Sound p owner x.method :=
  Analysis.ofTable?_sound s.analyzed

theorem cuts (s : Savable p t p' h owner x a site f shape r) : shape.Cuts f := by
  obtain ⟨d, -, hshape⟩ := s.shaped
  exact CallShape.of?_cuts hshape

theorem hasReceiver (s : Savable p t p' h owner x a site f shape r) : shape.hasReceiver = site.kind.hasReceiver := by
  obtain ⟨d, -, hshape⟩ := s.shaped
  exact CallShape.of?_hasReceiver hshape

/-- the call stands in the code of the method, and its frame is the one that is recorded -/
theorem stands (s : Savable p t p' h owner x a site f shape r) :
    x.method.code[x.position]? = some (.invoke site.kind site.callee) ∧ a.frames[x.position]? = some (some f) := by
  obtain ⟨j, i, hj, hp, -, hdescribes⟩ := sitesFrom_sound s.listed
  have hframe := hdescribes.frame
  rw [s.reachable, s.position] at hframe
  refine ⟨?_, Option.join_eq_some_iff.1 hframe.symm⟩
  rw [s.sound.insns, hdescribes.call] at hj
  rwa [← s.position, hp, Nat.zero_add]

theorem loaded (s : Savable p t p' h owner x a site f shape r) : f.Loaded := by
  obtain ⟨n, hf⟩ := s.sound.frame s.stands.2
  exact hf.loaded

/-- the operands of the call made again are what its frame says -/
theorem reads_again (s : Savable p t p' h owner x a site f shape r) :
    List.Forall₂ (Category.Admits p h) shape.window (site.callAgain shape r).args :=
  Resumable.reads_again s.cuts s.loaded s.receiver

/-- the kinds of the operands of the call -/
theorem kind?_window (s : Savable p t p' h owner x a site f shape r) {d : MethodDesc}
    (hd : MethodDesc.parse? site.callee.desc = some d) : shape.window.map Category.kind? =
      ((if site.kind.hasReceiver then [Kind.ref] else []) ++ d.params.map FieldType.kind).map some := by
  obtain ⟨hcode, hframe⟩ := s.stands
  obtain ⟨e, g, hhinted, hflows⟩ := s.sound.flowsFrom hcode hframe
  obtain ⟨d', cs, below, hd', htakes, hkinds, -⟩ := Frame.apply_invoke hflows.applied
  obtain rfl : d = d' := Option.some.inj (hd.symm.trans hd')
  obtain ⟨d', hd', hshape⟩ := s.shaped
  obtain rfl : d = d' := Option.some.inj (hd.symm.trans hd')
  have hsplit : cs ++ below.stack = shape.window.reverse ++ shape.below := by
    rw [← s.cuts.stack, hhinted.stack, htakes.stack]
  have hlen : cs.length = shape.window.reverse.length := by
    have hcount := congrArg List.length hkinds
    rw [List.length_map, List.length_map] at hcount
    rw [hcount, List.length_reverse, CallShape.length_window hshape]
    unfold Frame.operandKinds
    split <;> simp
  obtain ⟨rfl, -⟩ := List.append_inj hsplit hlen
  have hback := congrArg List.reverse hkinds
  rw [← List.map_reverse, ← List.map_reverse, List.reverse_reverse] at hback
  rw [hback]
  unfold Frame.operandKinds
  rw [List.reverse_append, ← List.map_reverse, List.reverse_reverse]
  split <;> rfl

theorem length_again (s : Savable p t p' h owner x a site f shape r) {d : MethodDesc}
    (hd : MethodDesc.parse? site.callee.desc = some d) : (site.callAgain shape r).args.length =
      d.params.length + if site.kind.hasReceiver then 1 else 0 := by
  have hcount := congrArg List.length (s.kind?_window hd)
  rw [List.length_map, List.length_map, List.length_append, List.length_map] at hcount
  rw [← s.reads_again.length_eq, hcount, Nat.add_comm]
  split <;> rfl

/-- **What is called again** takes the operands that the call has -/
theorem accepts (s : Savable p t p' h owner x a site f shape r) {w : World} {u : Heap}
    (ht : w.target? u (site.callAgain shape r) = some (.code m)) : m.Accepts (site.callAgain shape r).args := by
  intro d hd
  obtain ⟨-, hdesc, hstatic⟩ := World.target?_code ht
  have hkinds := s.kind?_window (show MethodDesc.parse? site.callee.desc = some d from hdesc ▸ hd)
  refine (Frame.kinds_of_reads s.reads_again hkinds).trans ?_
  unfold Method.argumentKinds
  rw [hstatic]
  show List.map some ((if site.kind.hasReceiver then [Kind.ref] else []) ++ _) =
    List.map some ((if (site.kind == .static) = true then [] else [Kind.ref]) ++ _)
  cases site.kind <;> rfl

end Savable

/-! ## chains -/

/-- **A chain of calls that can be suspended**: what is under way above the body of a coroutine, with the classes
that the methods belong to, where the call is about to be made.  Each call, made again, finds the method of its
activation, and an instance method still has in its first local what it is called on. -/
inductive Chain (w : World) (t : RestoreTable) (p' : Program) (h : Heap) (id : Nat) (body : Call) :
    Call → List String → List Pending → Prop
  | body (accepts : ∀ m, w.target? h body = some (.code m) → m.Accepts body.args) :
      Chain w t p' h id body body [] [.body id body]
  | level {outer : Call} {owner : String} {owners : List String} {x : Activation} {ps : List Pending}
      {a : Analysis} {site : Site} {f : Frame} {shape : CallShape} {r : Ref}
      (chain : Chain w t p' h id body outer owners ps) (entered : w.target? h outer = some (.code x.method))
      (owned : w.owner? h outer = some owner)
      (first : x.method.isStatic = false → x.locals[0]? = some (.ref outer.self?))
      (root : x.method.isStatic = true → a.rootEntry = owners.isEmpty)
      (savable : Savable w.program t p' h owner x a site f shape r) :
      Chain w t p' h id body (site.callAgain shape r) (owner :: owners) (.activation x :: ps)

/-- the number of the site where an activation stands -/
def siteNumber? (p : Program) (t : RestoreTable) (owner : String) (x : Activation) : Option Nat :=
  match Analysis.ofTable? p t owner x.method with
  | .ok (some a) => ((sitesOf a x.method.nextLabel).find? fun s => s.position == x.position).map Site.index
  | _ => none

/-- the numbers of the sites where the activations of a chain stand, the innermost first -/
def siteNumbers (p : Program) (t : RestoreTable) : List String → List Pending → List Int32
  | owner :: owners, .activation x :: ps =>
    ((siteNumber? p t owner x).map Int32.ofNat).toList ++ siteNumbers p t owners ps
  | _, _ => []

/-- the number of the site of a call that can be suspended -/
theorem Savable.siteNumber? {p p' : Program} {t : RestoreTable} {h : Heap} {owner : String} {x : Activation}
    {a : Analysis} {site : Site} {f : Frame} {shape : CallShape} {r : Ref}
    (s : Savable p t p' h owner x a site f shape r) : Resumable.siteNumber? p t owner x = some site.index := by
  unfold Resumable.siteNumber?
  rw [s.analyzed]
  dsimp only
  have hfind : ((sitesOf a x.method.nextLabel).find? fun s => s.position == site.position) = some site :=
    find?_of_pairwise sitesFrom_pairwise s.listed
  rw [← s.position, hfind]
  rfl

/-- **What a chain calls again** takes the operands that the call has -/
theorem Chain.accepts {w : World} {t : RestoreTable} {p' : Program} {h : Heap} {id : Nat} {body c : Call}
    {owners : List String} {ps : List Pending} {m : Method} (chain : Chain w t p' h id body c owners ps)
    (ht : w.target? h c = some (.code m)) : m.Accepts c.args := by
  cases chain with
  | body accepts => exact accepts m ht
  | level _ _ _ _ _ savable => exact savable.accepts ht

end Resumable
