import Resumable.Proofs.Companion
import Resumable.Proofs.Operands
import Resumable.Proofs.Tracks

/-!
# The receiver of a suspended activation

What an instance method leaves for whoever calls it again is what lies in its first local.  This is the
object on which it was called as long as no instruction has stored into the first local.  After a store the
method leaves another object, on which its caller then makes the call again.

* `Insn.Spares` : the instruction does not store into the first local;
* `Machine.first_kept` : without such a store the first local keeps the receiver;
* `ReceiverIdentity` : what is left, and what the call is made on again;
* `receiver_identity_iff` : both are the receiver exactly if the first local still holds it.
-/

namespace Resumable

open Effect

/-! ## instructions that spare the first local -/

/-- the instruction does not store into the first local -/
def Insn.Spares (i : Insn) : Prop := ∀ k slot, i = .store k slot → slot.toNat ≠ 0

namespace Exec

variable {α β : Type} {r : Option Ref}

/-- the activation is of the same method and at the same place, with the reference in its first local -/
structure SameFirst (r : Option Ref) (a b : Activation) : Prop where
  method : b.method = a.method
  position : b.position = a.position
  first : b.locals[0]? = some (.ref r)

/-- the computation keeps a reference in the first local -/
def KeepsFirst (r : Option Ref) (x : Exec α) : Prop :=
  ∀ s, s.activation.locals[0]? = some (.ref r) → SameFirst r s.activation (x.run s).2.activation

theorem Local.keepsFirst {x : Exec α} (hx : Local x) : KeepsFirst r x := by
  obtain ⟨f, hf⟩ := hx
  rintro ⟨h, g, a⟩ hfirst
  rw [hf]
  exact ⟨rfl, rfl, hfirst⟩

theorem KeepsFirst.bind {x : Exec α} {k : α → Exec β} (hx : KeepsFirst r x)
    (hk : ∀ v, KeepsFirst r (k v)) : KeepsFirst r (x >>= k) := by
  intro s hfirst
  have hsame := hx s hfirst
  rw [run_bind]
  generalize x.run s = y at hsame
  obtain ⟨result, s'⟩ := y
  cases result with
  | error t => exact hsame
  | ok v =>
    have hsame' := hk v s' hsame.first
    exact ⟨hsame'.method.trans hsame.method, hsame'.position.trans hsame.position, hsame'.first⟩

theorem keepsFirst_getLocal (slot : UInt16) : KeepsFirst r (getLocal slot) := by
  rintro ⟨h, g, a⟩ hfirst
  unfold getLocal
  rw [run_bind_ok (run_get _)]
  dsimp only
  split <;> exact ⟨rfl, rfl, hfirst⟩

theorem keepsFirst_setLocal {slot : UInt16} (hslot : slot.toNat ≠ 0) (v : Value) :
    KeepsFirst r (setLocal slot v) := by
  rintro ⟨h, g, a⟩ hfirst
  unfold setLocal
  rw [run_bind_ok (run_get _)]
  split
  · refine ⟨rfl, rfl, ?_⟩
    show (putLocal a.locals slot.toNat v)[0]? = _
    rw [getElem?_putLocal_of_ne a.locals (Ne.symm hslot) (fun _ => by omega)]
    exact hfirst
  · exact ⟨rfl, rfl, hfirst⟩

end Exec

namespace Insn

open Exec

variable {p : Program} {i : Insn} {r : Option Ref}

/-- what is in the first local is no integer, so it is not incremented -/
theorem keepsFirst_increment (slot : UInt16) (d : Int32) :
    KeepsFirst r (execPlain p (.increment slot d)) := by
  rintro ⟨h, g, a⟩ hfirst
  by_cases hslot : slot.toNat = 0
  · have hget : a.locals[slot.toNat]? = some (.ref r) := by rw [hslot]; exact hfirst
    show SameFirst r a ((getLocal slot >>= _).run ⟨h, g, a⟩).2.activation
    rw [run_bind_ok (run_getLocal hget)]
    exact ⟨rfl, rfl, hfirst⟩
  · refine KeepsFirst.bind (keepsFirst_getLocal slot) (fun v => ?_) ⟨h, g, a⟩ hfirst
    split
    · exact keepsFirst_setLocal hslot _
    · exact (local_illTyped _ _).keepsFirst

/-- **An instruction** that does not store into the first local keeps a reference there -/
theorem Spares.keepsFirst (hi : i.Spares) : KeepsFirst r (i.exec p) := by
  have hnext {x : Exec Unit} (hx : KeepsFirst r x) : KeepsFirst r (x >>= fun _ => pure After.next) :=
    hx.bind fun _ => (Local.pure _).keepsFirst
  cases i with
  | load k slot =>
    exact hnext ((keepsFirst_getLocal slot).bind fun v =>
      (Local.ite (local_push v) (local_illTyped k v)).keepsFirst)
  | store k slot =>
    exact hnext ((local_popKind k).keepsFirst.bind fun v => keepsFirst_setLocal (hi k slot rfl) v)
  | increment slot d => exact hnext (keepsFirst_increment slot d)
  | _ => exact (local_exec rfl).keepsFirst

end Insn

/-! ## runs -/

namespace Machine

variable {w : World} {s : Machine} {rest : List Pending} {m : Method} {r : Option Ref} {n : Nat}

/-- an activation of the method with the reference in its first local -/
structure HasFirst (m : Method) (r : Option Ref) (x : Activation) : Prop where
  method : x.method = m
  first : x.locals[0]? = some (.ref r)

/-- an activation that keeps a reference in its first local -/
abbrev KeepsFirst (m : Method) (r : Option Ref) (rest : List Pending) (s : Machine) : Prop :=
  s.Tracks (HasFirst m r) (HasFirst m r) (HasFirst m r) rest

theorem KeepsFirst.executed {x : Activation} (hp : s.pending = .activation x :: rest)
    (hmode : s.mode = .executing) (hx : HasFirst m r x)
    (hspares : ∀ i, m.code[x.position]? = some i → i.Spares)
    (hunder : rest.length < (s.step w).pending.length) : KeepsFirst m r rest (s.step w) := by
  have hstep : s.step w = s.execute w x rest := by
    unfold step
    rw [hp, hmode]
  rw [hstep] at hunder ⊢
  unfold execute at hunder ⊢
  rw [hx.method] at hunder ⊢
  split at hunder
  · exact absurd hunder (Nat.lt_irrefl _)
  · rename_i i hi
    have hkept := (hspares i hi).keepsFirst (p := w.program) ⟨s.heap, s.statics, x⟩ hx.first
    dsimp only at hunder ⊢
    generalize (i.exec w.program).run ⟨s.heap, s.statics, x⟩ = y at hkept hunder
    obtain ⟨result, sc⟩ := y
    have hfirst : HasFirst m r sc.activation := ⟨hkept.method.trans hx.method, hkept.first⟩
    cases result with
    | error t =>
      cases t with
      | exception e => exact .throws _ e rfl rfl hfirst
      | fault e => exact .fails _ e rfl rfl
    | ok o =>
      cases o with
      | next => exact .runs _ rfl rfl ⟨hfirst.method, hfirst.first⟩
      | call c => exact .calls _ c rfl rfl hfirst
      | finish v => exact absurd hunder (Nat.lt_irrefl _)
      | jump l =>
        dsimp only [follow] at hunder ⊢
        split at hunder
        · exact .runs _ rfl rfl ⟨hfirst.method, hfirst.first⟩
        · exact absurd hunder (Nat.lt_irrefl _)

theorem KeepsFirst.returned {x : Activation} {v : Option Value} (hp : s.pending = .activation x :: rest)
    (hmode : s.mode = .returning v) (hx : HasFirst m r x) : KeepsFirst m r rest (s.step w) := by
  have hstep : s.step w = s.deliver v rest (.activation x) := by
    unfold step
    rw [hp, hmode]
  rw [hstep]
  cases v <;> exact .runs _ rfl rfl ⟨hx.method, hx.first⟩

theorem KeepsFirst.thrown {x : Activation} {e : Ref} (hp : s.pending = .activation x :: rest)
    (hmode : s.mode = .throwing (.exception e)) (hx : HasFirst m r x)
    (hunder : rest.length < (s.step w).pending.length) : KeepsFirst m r rest (s.step w) := by
  have hstep : s.step w = s.catchIn w x rest (.exception e) := by
    unfold step
    rw [hp, hmode]
    rfl
  rw [hstep] at hunder ⊢
  unfold catchIn at hunder ⊢
  dsimp only at hunder ⊢
  split at hunder
  · exact .runs _ rfl rfl ⟨hx.method, hx.first⟩
  · exact absurd hunder (Nat.lt_irrefl _)
  · exact absurd hunder (Nat.lt_irrefl _)

/-- no instruction that the activation executes in so many steps stores into the first local -/
def Spares (w : World) (s : Machine) (rest : List Pending) (n : Nat) : Prop :=
  ∀ k, k < n → ∀ x i, (s.after w k).pending = .activation x :: rest → (s.after w k).mode = .executing →
    x.method.code[x.position]? = some i → i.Spares

/-- **As long as nothing is stored into the first local**, the receiver is kept there -/
theorem first_kept (hunder : s.UnderWay w rest n) (hspares : s.Spares w rest n)
    (hstart : KeepsFirst m r rest s) : ∀ k, k < n → KeepsFirst m r rest (s.after w k) := by
  intro k hk
  induction k with
  | zero => exact hstart
  | succ k ih =>
    have htracked := ih (by omega)
    have hlt := hunder (k + 1) hk
    rw [after_succ'] at hlt ⊢
    by_cases hcalls : (s.after w k).Calls rest
    · exact htracked.step_of_calls (fun _ h => h) hcalls
    cases htracked with
    | runs x hp hmode hx =>
      refine .executed hp hmode hx (fun i hi => ?_) hlt
      exact hspares k (by omega) x i hp hmode (by rw [hx.method]; exact hi)
    | returned x v hp hmode hx => exact .returned hp hmode hx
    | throws x e hp hmode hx => exact .thrown hp hmode hx hlt
    | calls x c hp hmode hx => exact absurd (.inl ⟨c, hmode⟩) hcalls
    | inside x q above hp hx =>
      refine absurd (.inr ?_) hcalls
      rw [hp]
      simp only [List.length_cons, List.length_append]
      omega
    | fails x e hp hmode =>
      have hended : ((s.after w k).step w).pending = rest := by
        unfold step
        rw [hp, hmode]
        rfl
      rw [hended] at hlt
      exact absurd hlt (Nat.lt_irrefl _)

end Machine

/-! ## what is left, and what the call is made on again -/

/-- A level of an instance method is suspended.  What it leaves on top of its values is a reference, and
its caller makes the call again on that reference: both are the receiver exactly if the first local held
the receiver. -/
structure ReceiverIdentity (w : World) (s : WovenSite) (desc : MethodDesc) (shape : CallShape)
    (at_ : Places) (h : Heap) (d : LevelData) (r : Option Ref) : Prop where
  /-- the save block leaves a reference above the level -/
  left : ∀ (m : Machine) (x : Activation) (rest : List Pending) (c : Coroutine Call Call)
      (result : List Value),
    m.heap = h → m.engine.Runs (c.during s.site shape d.window) →
    c.storage = (if leftCompanion c s.site shape then d.storage.pushRef d.companion
      else d.storage) →
    x.method = s.woven → x.position = at_.save → x.locals = d.locals → x.stack = result ++ d.below →
    ResultFits shape.result result →
    ∃ c' q, Machine.Reaches w (m.goOn x rest)
        { m.put c' with pending := rest, mode := .returning ((desc.ret.map FieldType.kind).map .zero) } ∧
      c'.storage = (d.saved s.site s.frame shape).pushRef q ∧
      (q = r ↔ d.locals[0]? = some (.ref r))
  /-- the restore block of the caller puts it under the arguments -/
  called : ∀ (caller : WovenSite) (desc' : MethodDesc) (shape' : CallShape) (at' : Places)
      (h' : Heap) (d' : LevelData) (receiver : Option String),
    caller.Stands desc' shape' at' → caller.site.unpatchable = false →
    d'.Ok w.program h' caller.analysis caller.site caller.frame shape' →
    w.resolve caller.site.kind caller.site.callee receiver = .ok (.code s.woven) →
    s.left shape d = d'.storage.pushRef d'.companion →
    ∀ (m : Machine) (x : Activation) (rest : List Pending) (c : Coroutine Call Call),
      KeepsClasses h' m.heap (d'.locals ++ (d'.window.reverse ++ d'.below)) →
      KeepsClasses h' m.heap [.ref d'.companion] →
      m.engine.Runs c → c.storage = d'.saved caller.site caller.frame shape' →
      x.method = caller.woven → x.position = at'.restore → x.stack = [] →
      caller.frame.locals.length ≤ x.locals.length →
      ∃ c' locals q, Machine.Reaches w (m.goOn x rest) ((m.put c').goOn
          { x with
            position := at'.restore +
              (restoreCode caller.site.unpatchable caller.frame shape').length
            locals
            stack := (zerosOf shape'.args).reverse ++ .ref q :: d'.below } rest) ∧
        c'.storage = d.saved s.site s.frame shape ∧ (q = r ↔ d.locals[0]? = some (.ref r))
  /-- the activation that is entered again has in its first local what was there, if the frame knows of
  it -/
  restored : ∀ category k, s.frame.locals[0]? = some category → category.kind? = some k →
    ∀ (m : Machine) (x : Activation) (rest : List Pending) (c : Coroutine Call Call),
      KeepsClasses h m.heap (d.locals ++ (d.window.reverse ++ d.below)) →
      KeepsClasses h m.heap [.ref d.companion] →
      m.engine.Runs c → c.storage = d.saved s.site s.frame shape →
      x.method = s.woven → x.position = at_.restore → x.stack = [] →
      s.frame.locals.length ≤ x.locals.length →
      ∃ c' y, Machine.Reaches w (m.goOn x rest) ((m.put c').goOn y rest) ∧
        (y.locals[0]? = some (.ref r) ↔ d.locals[0]? = some (.ref r))

section
variable {s : WovenSite} {shape : CallShape} {d : LevelData}

/-- an instance method leaves what lies in its first local -/
theorem WovenSite.left_instance (shape : CallShape) (hinstance : s.analysis.isStatic = false)
    {q : Option Ref} (hq : d.locals[0]? = some (.ref q)) :
    s.left shape d = (d.saved s.site s.frame shape).pushRef q := by
  unfold left
  rw [hinstance, companions_instance hq]
  rfl

theorem ref_eq_iff {locals : List Value} {q r : Option Ref} (hq : locals[0]? = some (.ref q)) :
    q = r ↔ locals[0]? = some (.ref r) := by
  rw [hq]
  simp

/-- what is pushed on storage last is uppermost -/
theorem Storage.pushRef_inj_ref {a b : Storage} {q r : Option Ref} (h : a.pushRef q = b.pushRef r) :
    q = r := by
  have hrefs := congrArg Storage.refs h
  exact (List.cons.inj hrefs).1

end

/-- **Receiver identity**: an activation of a woven instance method keeps its receiver in its first local
as long as nothing is stored there, and a level that it leaves when it is suspended is the one of its
receiver, and is called again on its receiver, exactly if the first local still holds the receiver then -/
theorem receiver_identity_iff (s : WovenSite) (hinstance : s.analysis.isStatic = false) :
    (∀ (w : World) (t : Machine) (r : Option Ref) (args : List Value) (n : Nat),
      (t.enter (.ref r :: args) (.code s.woven)).UnderWay w t.pending n →
      (t.enter (.ref r :: args) (.code s.woven)).Spares w t.pending n →
      ∀ k, k < n → ∀ x, ((t.enter (.ref r :: args) (.code s.woven)).after w k).pending =
          .activation x :: t.pending →
        ((t.enter (.ref r :: args) (.code s.woven)).after w k).mode = .executing →
        x.locals[0]? = some (.ref r)) ∧
    ∃ desc shape at_, s.Stands desc shape at_ ∧
      ∀ (w : World) (h : Heap) (d : LevelData), w.Supplies →
        d.Ok w.program h s.analysis s.site s.frame shape →
        ∀ r, ReceiverIdentity w s desc shape at_ h d r := by
  refine ⟨fun w t r args n hunder hspares k hk x hp hmode => ?_, ?_⟩
  · have hstart : Machine.KeepsFirst s.woven r t.pending (t.enter (.ref r :: args) (.code s.woven)) :=
      .runs _ rfl rfl ⟨rfl, rfl⟩
    exact ((Machine.first_kept hunder hspares hstart k hk).of_executing hp hmode).first
  obtain ⟨desc, shape, at_, hs⟩ := s.stands
  refine ⟨desc, shape, at_, hs, fun w h d hw hd r => ?_⟩
  obtain ⟨q, hq⟩ := hd.first hinstance
  have hleft := WovenSite.left_instance shape hinstance hq
  refine ⟨?_, ?_, ?_⟩
  · intro m x rest c result hh hc hstorage hx hpos hlocals hstack hresult
    obtain ⟨c', hrun, -, hsaved, -, -⟩ := (hs.roundTrip hw hd).saved m x rest c result hh hc hstorage
      hx hpos hlocals hstack hresult
    exact ⟨c', q, hrun, hsaved.trans hleft, ref_eq_iff hq⟩
  · intro caller desc' shape' at' h' d' receiver hcaller hpatchable hd' hresolve hlevel m x rest c
      hkeep hkeep' hc hstorage hx hpos hstack hlen
    obtain ⟨c', locals, hrun, -, hfound, -, -, -⟩ := (hcaller.roundTrip hw hd').restored m x rest c
      hkeep hkeep' hc hstorage hx hpos hstack hlen
    have hreceiver : shape'.hasReceiver = true := by
      obtain ⟨callee, -, hshape⟩ := hcaller.shaped
      have hkind := World.resolve_isStatic hresolve
      rw [s.isStatic_woven, hinstance] at hkind
      rw [CallShape.of?_hasReceiver hshape]
      generalize caller.site.kind = kind at hkind
      cases kind <;> first | rfl | exact absurd hkind (by simp)
    have hagain : operandsAgain caller.site shape' d'.window d'.companion =
        (zerosOf shape'.args).reverse ++ [.ref d'.companion] := by
      unfold operandsAgain
      rw [hpatchable, hreceiver]
      rfl
    rw [hagain, List.append_assoc] at hrun
    have hsame := hleft.symm.trans hlevel
    obtain rfl := Storage.pushRef_inj_ref hsame
    exact ⟨c', locals, _, hrun, hfound.trans (Storage.pushRef_inj hsame).symm, ref_eq_iff hq⟩
  · intro category k hcategory hk m x rest c hkeep hkeep' hc hstorage hx hpos hstack hlen
    obtain ⟨c', locals, hrun, hlive, -⟩ := (hs.roundTrip hw hd).restored m x rest c hkeep hkeep' hc
      hstorage hx hpos hstack hlen
    refine ⟨c', _, hrun, ?_⟩
    have hfirst := hlive 0 category k hcategory hk
    rw [Nat.zero_add] at hfirst
    show locals[0]? = _ ↔ _
    rw [hfirst]

/-! ## a method that puts its parameter in the place of its receiver -/

namespace Demo

def replacing : Method where
  name := "run"
  desc := "(Ldemo/R;)V"
  isStatic := false
  maxLocals := 2
  code := [.load .ref 1, .store .ref 0, .invoke .static step, .ret none]
  tryCatches := []
  localVars := []

/-- the frame of the site -/
def replacingFrame : Frame := ⟨[.ref owner, .ref owner], []⟩

def replacingAnalysis : Analysis :=
  analysisOf replacing [some replacingFrame, some ⟨[.ref owner, .ref owner], [.ref owner]⟩,
    some replacingFrame, some replacingFrame]

/-- the woven method -/
def replaced : Method :=
  match weaveMethod replacingAnalysis replacing with
  | .ok m => m
  | .error _ => replacing

def replacingSite : WovenSite where
  program := .empty
  table := table
  owner := owner
  method := replacing
  analysis := replacingAnalysis
  woven := replaced
  analyzed := rfl
  weaves := rfl
  site := ⟨0, 2, .static, step, false, some replacingFrame, ⟨0⟩⟩
  frame := replacingFrame
  listed := List.mem_singleton_self _
  reachable := rfl
  slots := by decide

/-- what is on its way when it was called with null -/
def replacingLevel : LevelData := ⟨[.null, .null], [], [], none, .empty⟩

theorem replacingLevel_ok : replacingLevel.Ok world.program .empty replacingAnalysis
    replacingSite.site replacingFrame (shape replacingFrame) := by
  have hadmits : Category.Admits world.program .empty (.ref owner) .null :=
    ⟨none, rfl, fun x hx => absurd hx (by simp)⟩
  refine ⟨⟨fun i c hi => ?_, rfl, fun i c v hi => absurd hi (by simp [replacingFrame])⟩, rfl,
    fun _ => by decide, fun _ => ⟨none, rfl⟩,
    fun _ r hr => absurd hr (by simp [CallShape.receiver, shape])⟩
  rcases i with _ | _ | i
  · obtain rfl : Category.ref owner = c := Option.some.inj hi
    exact ⟨.null, rfl, hadmits⟩
  · obtain rfl : Category.ref owner = c := Option.some.inj hi
    exact ⟨.null, rfl, hadmits⟩
  · exact absurd hi (by simp [replacingFrame])

/-- called on an object and with null, it leaves null -/
theorem receiver_identity_iff_replacing :
    replacingSite.analysis.isStatic = false ∧
    ∃ desc at_, replacingSite.Stands desc (shape replacingFrame) at_ ∧ world.Supplies ∧
      replacingLevel.Ok world.program .empty replacingAnalysis replacingSite.site replacingFrame
        (shape replacingFrame) ∧
      ReceiverIdentity world replacingSite desc (shape replacingFrame) at_ .empty replacingLevel
        (some (.object 0)) ∧
      replacingLevel.locals[0]? ≠ some (.ref (some (.object 0))) := by
  obtain ⟨desc, s, at_, hs, hall⟩ := (receiver_identity_iff replacingSite rfl).2
  obtain ⟨callee, hcallee, hshape⟩ := hs.shaped
  obtain rfl : callee = ⟨[], none⟩ := (Option.some.inj hcallee).symm
  obtain rfl : s = shape replacingFrame := (Option.some.inj hshape).symm
  exact ⟨rfl, desc, at_, hs, supplies_world, replacingLevel_ok,
    hall world .empty replacingLevel supplies_world replacingLevel_ok _, by simp [replacingLevel, Value.null]⟩

end Demo
end Resumable
