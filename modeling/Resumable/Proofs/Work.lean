import Resumable.Proofs.Injected
import Resumable.Proofs.Stored

/-!
# The work of straight injected code

Most injected code runs from its first instruction to its last one.  Then all that it changes is the
running coroutine, the locals and the operands of its activation, and what two pieces of it do one
after the other is what they do together.

* `Work` : what injected code changes;
* `Takes` : a piece of code takes one state of it to another;
* `Takes.append` : one piece of code after another;
* `Takes.pushCode`, `Takes.popCode`, … : single values moved.
-/

namespace Resumable

/-- what straight injected code changes -/
structure Work where
  coroutine : Coroutine Call Call
  locals : List Value
  /-- operands, the top first -/
  stack : List Value

namespace Activation

/-- the activation behind a piece of code that was run -/
def behind (a : Activation) (is : List Insn) (locals stack : List Value) : Activation :=
  { a with position := a.position + is.length, locals, stack }

theorem behind_append (a : Activation) (is js : List Insn) (l k l' k' : List Value) :
    (a.behind is l k).behind js l' k' = a.behind (is ++ js) l' k' := by
  simp only [behind, List.length_append, Nat.add_assoc]

end Activation

/-- Wherever the code stands and whatever waits below, the code takes the work from one state to the
other; the heap tells the classes of references. -/
structure Takes (w : World) (h : Heap) (is : List Insn) (s t : Work) : Prop where
  same : t.coroutine.id = s.coroutine.id
  passes : ∀ {S : Nat → Prop} {m : Machine} {a : Activation} (rest : List Pending),
    (∀ i, i < is.length → S (a.position + i)) → m.heap = h →
    m.engine.Runs s.coroutine → a.locals = s.locals → a.stack = s.stack →
    Holds a.method.code a.position is →
    Machine.Passes w S (m.goOn a rest) ((m.put t.coroutine).goOn (a.behind is t.locals t.stack) rest)

/-- the running coroutine with another storage and another mark of what lies on top of it -/
def Coroutine.stores {β κ : Type} (c : Coroutine β κ) (s : Storage) (mark : Bool) :
    Coroutine β κ := { c with storage := s, companionOnTop := mark }

namespace Takes

variable {w : World} {h : Heap} {is js : List Insn} {s t u : Work} {c d : Coroutine Call Call}
  {locals stack : List Value} {k : Kind} {v : Value}

theorem reaches (ht : Takes w h is s t) {m : Machine} {a : Activation} (rest : List Pending)
    (hh : m.heap = h) (hc : m.engine.Runs s.coroutine) (hl : a.locals = s.locals)
    (hs : a.stack = s.stack) (hcode : Holds a.method.code a.position is) :
    Machine.Reaches w (m.goOn a rest) ((m.put t.coroutine).goOn (a.behind is t.locals t.stack) rest) :=
  (ht.passes (S := fun _ => True) rest (fun _ _ => trivial) hh hc hl hs hcode).reaches

theorem nil (w : World) (h : Heap) (s : Work) : Takes w h [] s s := by
  refine ⟨rfl, fun {S m a} rest _ _ hc hl hs _ => ?_⟩
  rw [Machine.put_self hc]
  have ha : a.behind [] s.locals s.stack = a := by
    rw [← hl, ← hs]
    rfl
  rw [ha]
  exact .refl _

/-- one piece of code after another -/
theorem append (h1 : Takes w h is s t) (h2 : Takes w h js t u) : Takes w h (is ++ js) s u := by
  refine ⟨h2.same.trans h1.same, fun {S m a} rest hS hh hc hl hs hcode => ?_⟩
  rw [List.length_append] at hS
  have r1 := h1.passes rest (fun i hi => hS i (by omega)) hh hc hl hs hcode.left
  have r2 := h2.passes (S := S) (m := m.put t.coroutine) (a := a.behind is t.locals t.stack) rest
    (fun i hi => by
      show S (a.position + is.length + i)
      rw [Nat.add_assoc]
      exact hS _ (by omega)) hh (hc.put h1.same) rfl rfl hcode.right
  rw [Machine.put_put m h2.same.symm, Activation.behind_append] at r2
  exact r1.trans r2

theorem cons {i : Insn} (h1 : Takes w h [i] s t) (h2 : Takes w h is t u) :
    Takes w h (i :: is) s u := append h1 h2

/-- an instruction that only works on its activation -/
theorem insn {i : Insn} {locals' stack' : List Value}
    (hi : ∀ (g : Bindings) (a : Activation), a.locals = locals → a.stack = stack →
      (i.exec w.program).run ⟨h, g, a⟩ =
        (.ok .next, ⟨h, g, { a with locals := locals', stack := stack' }⟩)) :
    Takes w h [i] ⟨c, locals, stack⟩ ⟨c, locals', stack'⟩ := by
  refine ⟨rfl, fun {S m a} rest hS hh hc hl hs hcode => ?_⟩
  rw [Machine.put_self hc]
  refine .of_step (hS 0 Nat.one_pos) (Machine.step_next (b := { a with locals := locals', stack := stack' })
    hcode.head ?_) rfl
  rw [hh]
  exact hi m.statics a hl hs

/-- a call of a method of coroutines that works on the running one -/
theorem call {i : Intrinsic} (args : List Value) {r : Option Value} (hw : w.Supplies)
    (hi : i.isInjected = true) (hn : args.length = i.arity) (hd : d.id = c.id)
    (hp : ∀ m : Machine, m.engine.Runs c → m.heap = h →
      (i.perform args).run m = (.ok (.result r), m.put d)) :
    Takes w h [i.call] ⟨c, locals, args.reverse ++ stack⟩ ⟨d, locals, r.toList ++ stack⟩ := by
  refine ⟨hd, fun {S m a} rest hS hh hc hl hs hcode => ?_⟩
  have hrun : Machine.Passes w S (m.goOn a rest) ({ m with engine := m.engine.put d }.goOn
      { a with position := a.position + 1, stack := r.toList ++ stack } rest) :=
    Machine.passes_injected args (hS 0 Nat.one_pos) hw hi hcode.head hs hn fun m' he hh' => by
      rw [hp m' (by rw [he]; exact hc) (by rw [hh', hh])]
      simp only [Machine.put, he]
  dsimp only at hl
  subst hl
  exact hrun

/-! ## instructions -/

theorem const {i : Insn} (hi : ∀ s : Scope, (i.exec w.program).run s =
    (.ok .next, { s with activation := s.activation.push v })) :
    Takes w h [i] ⟨c, locals, stack⟩ ⟨c, locals, v :: stack⟩ := by
  refine insn fun g a hl hs => ?_
  rw [hi]
  subst hl hs
  rfl

theorem intConst (w : World) (h : Heap) (n : Int32) (s : Work) :
    Takes w h [.intConst n] s ⟨s.coroutine, s.locals, .int n :: s.stack⟩ :=
  const fun _ => rfl

theorem nullConst (w : World) (h : Heap) (s : Work) :
    Takes w h [.nullConst] s ⟨s.coroutine, s.locals, .null :: s.stack⟩ :=
  const fun _ => rfl

/-- the zero of a kind -/
theorem zeroInsn (w : World) (h : Heap) (k : Kind) (s : Work) :
    Takes w h [k.zeroInsn] s ⟨s.coroutine, s.locals, .zero k :: s.stack⟩ := by
  cases k <;> exact const fun _ => rfl

theorem label (w : World) (h : Heap) (l : Label) (s : Work) : Takes w h [.label l] s s := by
  refine insn (c := s.coroutine) fun g a hl hs => ?_
  rw [← hl, ← hs]
  rfl

theorem pop : Takes w h [.pop] ⟨c, locals, v :: stack⟩ ⟨c, locals, stack⟩ := by
  refine insn fun g a hl hs => ?_
  rw [Insn.run_pop hs, hl]

theorem discard (hk : v.kind? = some k) :
    Takes w h [k.discardInsn] ⟨c, locals, v :: stack⟩ ⟨c, locals, stack⟩ := by
  refine insn fun g a hl hs => ?_
  rw [Insn.run_discard hs hk, hl]

theorem load {slot : UInt16} (hl : locals[slot.toNat]? = some v) (hk : v.kind? = some k) :
    Takes w h [.load k slot] ⟨c, locals, stack⟩ ⟨c, locals, v :: stack⟩ := by
  refine insn fun g a hl' hs => ?_
  rw [Insn.run_load (by rw [hl']; exact hl) hk]
  subst hl' hs
  rfl

theorem store {slot : UInt16} (hk : v.kind? = some k)
    (hl : slot.toNat + v.width ≤ locals.length) :
    Takes w h [.store k slot] ⟨c, locals, v :: stack⟩
      ⟨c, Exec.putLocal locals slot.toNat v, stack⟩ := by
  refine insn fun g a hl' hs => ?_
  rw [Insn.run_store hs hk (by rw [hl']; exact hl), hl']

theorem checkCast {type : String} {r : Option Ref}
    (hr : ∀ x, r = some x → w.program.isAssignable (h.className x) type) :
    Takes w h [.checkCast type] ⟨c, locals, .ref r :: stack⟩ ⟨c, locals, .ref r :: stack⟩ := by
  refine insn fun g a hl hs => ?_
  rw [Insn.run_checkCast hs hr]
  subst hl
  rw [← hs]

/-- a branch that is not taken -/
theorem branch_next {cond : Cond} {l : Label} {n : Int32} (hn : cond.test n 0 = false) :
    Takes w h [.branch cond l] ⟨c, locals, .int n :: stack⟩ ⟨c, locals, stack⟩ := by
  refine insn fun g a hl hs => ?_
  rw [Insn.run_branch hs, hn, hl]
  rfl

/-! ## values moved -/

/-- the top of the operands moved into storage -/
theorem pushCode (hw : w.Supplies) (hk : v.kind? = some k) :
    Takes w h k.pushCode ⟨c, locals, v :: stack⟩
      ⟨c.stores (c.storage.put v) false, locals, stack⟩ := by
  have hpush : c.push v = (.ok (), c.stores (c.storage.put v) false) := by
    unfold Coroutine.push
    rw [Storage.push?_eq_put hk]
    rfl
  exact call [v] (r := none) hw rfl rfl rfl fun m hm _ => Intrinsic.run_push hm hpush

/-- a cast after a value of the kind, where it does not object -/
theorem castCode {category : Category} (hk : v.kind? = some k)
    (hcast : ∀ type x, category = .ref type → v = .ref (some x) →
      w.program.isAssignable (h.className x) type) :
    Takes w h (k.castCode category) ⟨c, locals, v :: stack⟩ ⟨c, locals, v :: stack⟩ := by
  cases k with
  | ref =>
    cases category with
    | ref type =>
      show Takes w h (if type = objectType then [] else [.checkCast type]) _ _
      by_cases ht : type = objectType
      · rw [if_pos ht]
        exact nil w h _
      · rw [if_neg ht]
        cases v with
        | ref r => exact checkCast fun x hx => hcast type x rfl (by rw [hx])
        | _ => exact absurd hk (by simp [Value.kind?])
    | _ => exact nil w h _
  | _ => exact nil w h _

/-- the top of storage moved onto the operands, where a cast does not object -/
theorem popCode {category : Category} {s : Storage} (hw : w.Supplies) (hk : v.kind? = some k)
    (hs : c.storage = s.put v)
    (hcast : ∀ type x, category = .ref type → v = .ref (some x) →
      w.program.isAssignable (h.className x) type) :
    Takes w h (k.popCode category) ⟨c, locals, stack⟩ ⟨c.stores s false, locals, v :: stack⟩ := by
  have hpop : c.pop k = (.ok v, c.stores s false) := by
    unfold Coroutine.pop
    rw [hs, Storage.pop?_put hk]
    rfl
  have hcall : Takes w h [(Intrinsic.pop k).call] ⟨c, locals, stack⟩
      ⟨c.stores s false, locals, v :: stack⟩ :=
    call [] (r := some v) hw rfl rfl rfl fun m hm _ => Intrinsic.run_pop hm hpop
  exact cons hcall (castCode hk hcast)

/-! ## questions -/

/-- injected code that works on a coroutine finds that there is one -/
theorem existsCall (hw : w.Supplies) :
    Takes w h [Intrinsic.exists.call] ⟨c, locals, stack⟩
      ⟨c, locals, .ofBool true :: stack⟩ := by
  refine call [] (r := some (.ofBool true)) hw rfl rfl rfl fun m hm _ => ?_
  rw [Intrinsic.run_exists, hm.exists_eq, Machine.put_self hm]

end Takes
end Resumable
