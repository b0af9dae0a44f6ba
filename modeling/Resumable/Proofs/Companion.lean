import Resumable.Proofs.RoundTrip

/-!
# Companions

A suspended activation leaves the number of its site and, on top of its values, the reference on which
it is to be called again.  Whoever enters it again takes that reference away: a run that begins takes
one, and a call takes one if it has a receiver.  The activation finds its own values exactly if as many
references are taken away as it has left.

What it leaves is decided by its own method, and what is taken away by the other side.  The two agree
for every instance method.  A static method has to leave a reference when it starts a coroutine and must
not leave one when it is called, and it leaves one whenever it may start a coroutine.

* `Reentry` : the ways in which a suspended activation is entered again;
* `Reentry.Agrees` : the condition on the method;
* `companion_symmetry_iff` : it is exactly the condition under which the activation finds its values.
-/

namespace Resumable

/-! ## ways in -/

/-- how a suspended activation is entered again -/
inductive Reentry where
  /-- a run of its coroutine begins -/
  | resumed
  /-- the call that it was made by is made again -/
  | called (kind : InvokeKind)

namespace Reentry

/-- the references taken away before the activation starts -/
def removes : Reentry → Nat
  | resumed => 1
  | called kind => if kind.hasReceiver then 1 else 0

/-- calls without a receiver are those of static methods -/
def Enters : Reentry → Bool → Prop
  | resumed, _ => True
  | called kind, isStatic => isStatic = (kind == .static)

/-- a static method that is resumed starts coroutines, and one that is called does not -/
def Agrees : Reentry → (isStatic rootEntry : Bool) → Prop
  | resumed, isStatic, rootEntry => isStatic = true → rootEntry = true
  | called _, isStatic, rootEntry => isStatic = true → rootEntry = false

end Reentry

section
variable {isStatic rootEntry : Bool} {locals : List Value}

/-- an instance method leaves its receiver -/
theorem companions_instance {r : Option Ref} (h : locals[0]? = some (.ref r)) :
    companions false rootEntry locals = [.ref r] := by
  simp only [companions, Bool.false_eq_true, if_false, h, Option.toList_some]

theorem companions_static : companions true rootEntry locals = if rootEntry then [.null] else [] := rfl

/-- as many references are taken away as were left exactly if the condition holds -/
theorem length_companions_iff {r : Reentry} (hslot : HoldsReceiver isStatic locals)
    (hr : r.Enters isStatic) :
    (companions isStatic rootEntry locals).length = r.removes ↔ r.Agrees isStatic rootEntry := by
  cases isStatic with
  | false =>
    obtain ⟨x, hx⟩ := hslot rfl
    rw [companions_instance hx]
    cases r with
    | resumed => simp [Reentry.removes, Reentry.Agrees]
    | called kind =>
      have hk : kind.hasReceiver = true := by
        cases kind <;> first | rfl | exact absurd hr (by simp [Reentry.Enters])
      simp [Reentry.removes, Reentry.Agrees, hk]
  | true =>
    rw [companions_static]
    cases r with
    | resumed => cases rootEntry <;> simp [Reentry.removes, Reentry.Agrees]
    | called kind =>
      have hk : kind.hasReceiver = false := by
        cases kind <;> first | rfl | exact absurd hr (by simp [Reentry.Enters])
      cases rootEntry <;> simp [Reentry.removes, Reentry.Agrees, hk]

end

/-! ## what a call enters -/

/-- a search along a chain of classes finds methods of the kind of the call -/
theorem World.findAlong_isStatic {w : World} {k : InvokeKind} {id : MethodId} {cs : List String}
    {m : Method} (h : w.findAlong k id cs = .ok (some (.code m))) : m.isStatic = (k == .static) := by
  induction cs with
  | nil => exact absurd h (by simp [findAlong])
  | cons c cs ih =>
    rw [findAlong] at h
    split at h
    · rename_i m' _
      split at h
      · rename_i hk
        obtain rfl : m' = m := by simpa using h
        exact hk
      · exact absurd h (by simp)
    · split at h
      · exact absurd h (by simp)
      · exact ih h

/-- a call enters a static method exactly if it is a static call -/
theorem World.resolve_isStatic {w : World} {k : InvokeKind} {id : MethodId} {receiver : Option String}
    {m : Method} (h : w.resolve k id receiver = .ok (.code m)) : m.isStatic = (k == .static) := by
  unfold resolve at h
  dsimp only at h
  split at h
  · exact absurd h (by simp)
  · rename_i t halong
    obtain rfl : t = .code m := by simpa using h
    exact findAlong_isStatic halong
  · split at h <;> exact absurd h (by simp)

/-- a call has a receiver in its shape if its kind says so -/
theorem CallShape.of?_hasReceiver {kind : InvokeKind} {desc : MethodDesc} {f : Frame} {s : CallShape}
    (h : of? kind desc f = some s) : s.hasReceiver = kind.hasReceiver := by
  unfold of? at h
  dsimp only at h
  generalize desc.params.length + (if kind.hasReceiver then 1 else 0) = width at h
  split at h
  · injection h with h
    rw [← h]
  · exact absurd h (by simp)

/-- weaving keeps what kind of method it is -/
theorem Weaving.isStatic_woven (v : Weaving) : v.woven.isStatic = v.analysis.isStatic := by
  have hsound := Analysis.ofTable?_sound v.analyzed
  obtain ⟨l, hl, -, -⟩ := weaveMethod_ok hsound.insns v.weaves
  obtain ⟨table, -, hwoven⟩ := hl.table
  rw [hwoven, hsound.isStatic]

/-! ## storage under a reference -/

theorem Storage.pushRef_ne (s : Storage) (r : Option Ref) : s.pushRef r ≠ s := by
  intro h
  have hlen := congrArg (fun s : Storage => s.refs.length) h
  simp [pushRef] at hlen

theorem Storage.pushRef_inj {s t : Storage} {r q : Option Ref} (h : s.pushRef r = t.pushRef q) :
    s = t := by
  obtain ⟨refs, ints, longs, floats, doubles⟩ := s
  obtain ⟨refs', ints', longs', floats', doubles'⟩ := t
  simp only [pushRef, mk.injEq, List.cons.injEq] at h ⊢
  exact ⟨h.1.2, h.2⟩

/-- a run of a suspended coroutine takes one reference from its storage -/
theorem Coroutine.beginRun_iff {c : Coroutine Call Call} {body : Call} {s : Storage}
    (hc : c.status = .suspended) (hb : c.body = some body) :
    (∃ c', c.beginRun = (.ok body, c') ∧ c'.storage = s) ↔ ∃ r, c.storage = s.pushRef r := by
  have hsome {v : Value} {t : Storage} (hpop : c.storage.pop? .ref = some (v, t)) :
      c.beginRun = (.ok body, { c with storage := t, body := none, status := .running }) := by
    simp only [beginRun, hc, hpop, takeBody, hb]
  have hnone (hpop : c.storage.pop? .ref = none) :
      c.beginRun = (.error (.storageUnderflow .ref), c) := by
    simp only [beginRun, hc, hpop]
  constructor
  · rintro ⟨c', hc', rfl⟩
    cases hrefs : c.storage.refs with
    | nil =>
      rw [hnone (by simp only [Storage.pop?, hrefs])] at hc'
      exact absurd hc' (by simp)
    | cons r refs =>
      have hpop : c.storage.pop? .ref = some (.ref r, { c.storage with refs }) := by
        simp only [Storage.pop?, hrefs]
      rw [hsome hpop] at hc'
      obtain rfl := (Prod.mk.inj hc').2
      refine ⟨r, ?_⟩
      show c.storage = { c.storage with refs := r :: refs }
      rw [← hrefs]
  · rintro ⟨r, hr⟩
    exact ⟨_, hsome (by rw [hr]; exact Storage.pop?_pushRef s r), rfl⟩

/-! ## what is left and what is found -/

/-- storage as a suspended level leaves it, its companion on top -/
def WovenSite.left (s : WovenSite) (shape : CallShape) (d : LevelData) : Storage :=
  (d.saved s.site s.frame shape).putAll
    (companions s.analysis.isStatic s.analysis.rootEntry d.locals)

/-- A suspended level is found again: whichever way its activation is entered again, what lies on top
of storage then is its own values exactly if the method agrees with the way. -/
structure CompanionSymmetry (w : World) (s : WovenSite) (desc : MethodDesc) (shape : CallShape)
    (at_ : Places) (h : Heap) (d : LevelData) : Prop where
  /-- as many references are taken away as were left -/
  counted : ∀ r : Reentry, r.Enters s.analysis.isStatic →
    ((companions s.analysis.isStatic s.analysis.rootEntry d.locals).length = r.removes ↔
      r.Agrees s.analysis.isStatic s.analysis.rootEntry)
  /-- the save block leaves the level and its companion -/
  saved : ∀ (m : Machine) (x : Activation) (rest : List Pending) (c : Coroutine Call Call)
      (result : List Value),
    m.heap = h → m.engine.Runs (c.during s.site shape d.window) →
    c.storage = (if leftCompanion c s.site shape then d.storage.pushRef d.companion
      else d.storage) →
    x.method = s.woven → x.position = at_.save → x.locals = d.locals → x.stack = result ++ d.below →
    ResultFits shape.result result →
    ∃ c', Machine.Reaches w (m.goOn x rest)
        { m.put c' with pending := rest, mode := .returning ((desc.ret.map FieldType.kind).map .zero) } ∧
      c'.states = Int32.ofNat s.site.index :: c.states ∧ c'.storage = s.left shape d
  /-- the level is uppermost, and a run of its coroutine begins -/
  resumed : ∀ (c : Coroutine Call Call) (body : Call),
    c.status = .suspended → c.body = some body → c.storage = s.left shape d →
    ((∃ c', c.beginRun = (.ok body, c') ∧ c'.storage = d.saved s.site s.frame shape) ↔
      Reentry.resumed.Agrees s.analysis.isStatic s.analysis.rootEntry)
  /-- the level lies below that of a caller, which restores its own one and makes the call again -/
  called : ∀ (caller : WovenSite) (desc' : MethodDesc) (shape' : CallShape) (at' : Places)
      (h' : Heap) (d' : LevelData) (receiver : Option String),
    caller.Stands desc' shape' at' → caller.site.unpatchable = false →
    d'.Ok w.program h' caller.analysis caller.site caller.frame shape' →
    w.resolve caller.site.kind caller.site.callee receiver = .ok (.code s.woven) →
    s.left shape d =
      (if shape'.hasReceiver then d'.storage.pushRef d'.companion else d'.storage) →
    ∀ (m : Machine) (x : Activation) (rest : List Pending) (c : Coroutine Call Call),
      KeepsClasses h' m.heap (d'.locals ++ (d'.window.reverse ++ d'.below)) →
      KeepsClasses h' m.heap [.ref d'.companion] →
      m.engine.Runs c → c.storage = d'.saved caller.site caller.frame shape' →
      x.method = caller.woven → x.position = at'.restore → x.stack = [] →
      caller.frame.locals.length ≤ x.locals.length →
      ∃ c' locals, Machine.Reaches w (m.goOn x rest) ((m.put c').goOn
          { x with
            position := at'.restore +
              (restoreCode caller.site.unpatchable caller.frame shape').length
            locals
            stack := operandsAgain caller.site shape' d'.window d'.companion ++ d'.below } rest) ∧
        (c'.storage = d.saved s.site s.frame shape ↔
          (Reentry.called caller.site.kind).Agrees s.analysis.isStatic s.analysis.rootEntry)

namespace WovenSite

variable {s : WovenSite} {shape : CallShape} {d : LevelData}

/-- what a method leaves, by the kind of method it is -/
theorem left_cases (shape : CallShape) (hslot : HoldsReceiver s.analysis.isStatic d.locals) :
    (s.analysis.isStatic = true ∧ s.analysis.rootEntry = false ∧
      s.left shape d = d.saved s.site s.frame shape) ∨
    ((s.analysis.isStatic = true → s.analysis.rootEntry = true) ∧
      ∃ r, s.left shape d = (d.saved s.site s.frame shape).pushRef r) := by
  unfold left
  cases hstatic : s.analysis.isStatic with
  | false =>
    obtain ⟨r, hr⟩ := hslot hstatic
    rw [companions_instance hr]
    exact .inr ⟨fun h => absurd h (by simp), r, rfl⟩
  | true =>
    rw [companions_static]
    cases hroot : s.analysis.rootEntry with
    | false => exact .inl ⟨rfl, rfl, rfl⟩
    | true => exact .inr ⟨fun _ => rfl, none, rfl⟩

/-- a run that begins finds the level if a reference was left for it -/
theorem resumed_iff (hslot : HoldsReceiver s.analysis.isStatic d.locals) {c : Coroutine Call Call}
    {body : Call} (hc : c.status = .suspended) (hb : c.body = some body)
    (hs : c.storage = s.left shape d) :
    (∃ c', c.beginRun = (.ok body, c') ∧ c'.storage = d.saved s.site s.frame shape) ↔
      Reentry.resumed.Agrees s.analysis.isStatic s.analysis.rootEntry := by
  rw [Coroutine.beginRun_iff hc hb, hs]
  rcases left_cases shape hslot with ⟨hstatic, hroot, hleft⟩ | ⟨hagrees, r, hleft⟩
  · rw [hleft, hstatic, hroot]
    constructor
    · rintro ⟨r, hr⟩
      exact absurd hr.symm (Storage.pushRef_ne _ r)
    · intro h
      exact absurd (h rfl) (by simp)
  · exact ⟨fun _ => hagrees, fun _ => ⟨r, hleft⟩⟩

/-- a call that is made again finds the level if it takes the reference that was left, or if none was
left and it takes none -/
theorem called_iff (hslot : HoldsReceiver s.analysis.isStatic d.locals) {kind : InvokeKind}
    {t : Storage} {r : Option Ref} (hkind : s.analysis.isStatic = (kind == .static))
    (hs : s.left shape d = if kind.hasReceiver then t.pushRef r else t) :
    t = d.saved s.site s.frame shape ↔
      (Reentry.called kind).Agrees s.analysis.isStatic s.analysis.rootEntry := by
  cases hstatic : s.analysis.isStatic with
  | false =>
    have hreceiver : kind.hasReceiver = true := by
      rw [hstatic] at hkind
      cases kind <;> first | rfl | exact absurd hkind (by simp)
    obtain ⟨x, hx⟩ := hslot hstatic
    unfold left at hs
    rw [hstatic, companions_instance hx, hreceiver, if_pos rfl] at hs
    exact ⟨fun _ h => absurd h (by simp), fun _ => (Storage.pushRef_inj hs).symm⟩
  | true =>
    have hreceiver : kind.hasReceiver = false := by
      rw [hstatic] at hkind
      cases kind <;> first | rfl | exact absurd hkind (by simp)
    rw [hreceiver, if_neg (by simp)] at hs
    rw [← hs]
    rcases left_cases shape hslot with ⟨-, hroot, hleft⟩ | ⟨hroot, x, hleft⟩
    · exact ⟨fun _ _ => hroot, fun _ => hleft⟩
    · rw [hleft, hroot hstatic]
      exact ⟨fun h => absurd h (Storage.pushRef_ne _ x), fun h => absurd (h rfl) (by simp)⟩

end WovenSite

/-- **Companion symmetry**: a suspended level is found again by every way in with which its method
agrees, and by no other one -/
theorem companion_symmetry_iff (s : WovenSite) :
    ∃ desc shape at_, s.Stands desc shape at_ ∧
      ∀ (w : World) (h : Heap) (d : LevelData), w.Supplies →
        d.Ok w.program h s.analysis s.site s.frame shape →
        CompanionSymmetry w s desc shape at_ h d := by
  obtain ⟨desc, shape, at_, hs⟩ := s.stands
  refine ⟨desc, shape, at_, hs, fun w h d hw hd => ?_⟩
  refine ⟨fun r hr => length_companions_iff hd.first hr, ?_, fun c body hc hb hstorage =>
    WovenSite.resumed_iff hd.first hc hb hstorage, ?_⟩
  · intro m x rest c result hh hc hstorage hx hpos hlocals hstack hresult
    obtain ⟨c', hrun, hstates, hleft, -, -⟩ := (hs.roundTrip hw hd).saved m x rest c result hh hc
      hstorage hx hpos hlocals hstack hresult
    exact ⟨c', hrun, hstates, hleft⟩
  · intro caller desc' shape' at' h' d' receiver hcaller hpatchable hd' hresolve hleft m x rest c
      hkeep hkeep' hc hstorage hx hpos hstack hlen
    obtain ⟨c', locals, hrun, -, hfound, -, -, -⟩ := (hcaller.roundTrip hw hd').restored m x rest c
      hkeep hkeep' hc hstorage hx hpos hstack hlen
    refine ⟨c', locals, hrun, ?_⟩
    obtain ⟨callee, -, hshape⟩ := hcaller.shaped
    rw [CallShape.of?_hasReceiver hshape] at hleft
    have hkind := World.resolve_isStatic hresolve
    rw [s.isStatic_woven] at hkind
    rw [hfound]
    exact WovenSite.called_iff hd.first hkind hleft

end Resumable
