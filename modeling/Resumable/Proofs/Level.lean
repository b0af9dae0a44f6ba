import Resumable.Proofs.Staging

/-!
# One level

A suspended coroutine is a chain of calls, and each activation of the chain saves and restores its
own level: the operands below its call, its locals, the number of its site and the companion that it
leaves for whoever calls it again.  The save block ends the activation; the restore block takes the
level back, down to the companion that the callee has left.

* `companions`, `Coroutine.leaving` : what a level leaves behind;
* `Machine.reaches_saved` : the save block;
* `Takes.restorePatchable`, `Takes.restoreUnpatchable` : the restore block.
-/

namespace Resumable

/-- what a method leaves for whoever calls it again -/
def companions (isStatic rootEntry : Bool) (locals : List Value) : List Value :=
  if isStatic then if rootEntry then [.null] else [] else locals[0]?.toList

/-- the coroutine after a level was saved: its values, the number of its site, its companions -/
def Coroutine.leaving {β κ : Type} (c : Coroutine β κ) (vs : List Value) (n : Int32)
    (left : List Value) : Coroutine β κ :=
  { c with states := n :: c.states, storage := (c.storage.putAll vs).putAll left
           companionOnTop := !left.isEmpty }

/-- the values are the result of a call, or there are none -/
def ResultFits (k : Option Kind) (vs : List Value) : Prop :=
  match k with
  | none => vs = []
  | some k => ∃ v, vs = [v] ∧ v.kind? = some k

/-- an instance method still has a reference in its first local -/
def HoldsReceiver (isStatic : Bool) (locals : List Value) : Prop :=
  isStatic = false → ∃ r, locals[0]? = some (.ref r)

namespace Takes

variable {w : World} {h : Heap} {c d : Coroutine Call Call} {locals stack : List Value}

/-! ## saving -/

theorem discardResult {k : Option Kind} {vs : List Value} (hk : ResultFits k vs) :
    Takes w h (k.map Kind.discardInsn).toList ⟨c, locals, vs ++ stack⟩ ⟨c, locals, stack⟩ := by
  cases k with
  | none =>
    obtain rfl : vs = [] := hk
    exact nil w h _
  | some k =>
    obtain ⟨v, rfl, hv⟩ := hk
    exact discard hv

/-- the staging frame of the call becomes the lowest part of its level -/
theorem commitFrame {vs : List Value} {s : Storage} {companion : Option Ref} (hw : w.Supplies)
    (hs : c.storage = if c.companionOnTop then s.pushRef companion else s) :
    Takes w h [Intrinsic.discardCompanion.call, Intrinsic.commitStaging.call]
      ⟨c.opening vs, locals, stack⟩ ⟨c.stores (s.putAll vs) false, locals, stack⟩ := by
  have hdiscard : (c.opening vs).discardCompanion =
      (.ok (), (c.stores s false).opening vs) := by
    cases hmark : c.companionOnTop with
    | true =>
      rw [if_pos hmark] at hs
      simp only [Coroutine.discardCompanion, Coroutine.opening, hmark, if_true, hs,
        Storage.pop?_pushRef]
      rfl
    | false =>
      rw [if_neg (by rw [hmark]; simp)] at hs
      have hc : c.stores s false = c := by rw [← hs, ← hmark]; rfl
      rw [hc]
      simp only [Coroutine.discardCompanion, Coroutine.opening, hmark, Bool.false_eq_true, if_false]
  have h1 : Takes w h [Intrinsic.discardCompanion.call] ⟨c.opening vs, locals, stack⟩
      ⟨(c.stores s false).opening vs, locals, stack⟩ :=
    call [] (r := none) hw rfl rfl rfl fun m hm _ =>
      Intrinsic.run_discardCompanion hm hdiscard
  have h2 : Takes w h [Intrinsic.commitStaging.call]
      ⟨(c.stores s false).opening vs, locals, stack⟩
      ⟨c.stores (s.putAll vs) false, locals, stack⟩ :=
    call [] (r := none) hw rfl rfl rfl fun m hm _ =>
      Intrinsic.run_commitStaging hm (Coroutine.commitStaging_opening (c.stores s false) vs)
  exact cons h1 h2

/-- the number of the site, and the companion on top -/
theorem leave {isStatic rootEntry : Bool} {vs : List Value} {n : Int32} {b : Bool}
    (hw : w.Supplies) (hslot : HoldsReceiver isStatic locals) :
    Takes w h ([.intConst n, Intrinsic.pushState.call] ++ companionCode isStatic rootEntry)
      ⟨c.stores (c.storage.putAll vs) b, locals, stack⟩
      ⟨c.leaving vs n (companions isStatic rootEntry locals), locals, stack⟩ := by
  have hstate : Takes w h [.intConst n, Intrinsic.pushState.call]
      ⟨c.stores (c.storage.putAll vs) b, locals, stack⟩ ⟨c.leaving vs n [], locals, stack⟩ :=
    cons (intConst w h n _) (call [.int n] (r := none) hw rfl rfl rfl fun m hm _ =>
      Intrinsic.run_pushState hm n)
  have hcompanion (r : Option Ref) : Takes w h [Intrinsic.pushCompanion.call]
      ⟨c.leaving vs n [], locals, .ref r :: stack⟩
      ⟨c.leaving vs n [.ref r], locals, stack⟩ :=
    call [.ref r] (r := none) hw rfl rfl rfl fun m hm _ =>
      Intrinsic.run_pushCompanion hm r
  refine append hstate ?_
  cases isStatic with
  | true =>
    cases rootEntry with
    | true => exact cons (nullConst w h _) (hcompanion none)
    | false => exact nil w h _
  | false =>
    obtain ⟨r, hr⟩ := hslot rfl
    have hleft : companions false rootEntry locals = [.ref r] := by
      simp only [companions, Bool.false_eq_true, if_false, hr, Option.toList_some]
    rw [hleft]
    exact cons (load (k := .ref) hr rfl) (hcompanion r)

end Takes

/-! ## the end of the activation -/

namespace Machine

variable {w : World} {m : Machine} {x : Activation}

theorem reaches_defaultReturn (rest : List Pending) {ret : Option Kind}
    (hcode : Holds x.method.code x.position (defaultReturn ret)) :
    Reaches w (m.goOn x rest) { m with pending := rest, mode := .returning (ret.map Value.zero) } := by
  cases ret with
  | none => exact .of_step (step_finish (b := x) hcode.head rfl)
  | some k =>
    have hzero : (m.goOn x rest).step w = m.goOn (x.push (.zero k)).advance rest :=
      step_next (b := x.push (.zero k)) hcode.head (by cases k <;> rfl)
    have hret : (m.goOn (x.push (.zero k)).advance rest).step w =
        { m with pending := rest, mode := .returning (some (.zero k)) } :=
      step_finish (b := x.advance) hcode.tail.head (Insn.run_ret rfl (Value.kind?_zero k))
    exact (Reaches.of_step hzero).trans (.of_step hret)

/-- **The save block** leaves the level of its activation behind and ends it -/
theorem reaches_saved (rest : List Pending) (result more : List Value) {a : Analysis}
    {ret : Option Kind} {site : Site} {f : Frame} {s : CallShape} {c d : Coroutine Call Call}
    {es : List (Category × Value)}
    (hw : w.Supplies) (hm : m.engine.Runs c)
    (hcode : Holds x.method.code x.position (saveCode a ret site f s))
    (hbelow : es.map Prod.fst = s.below) (hes : Operands es)
    (hstack : x.stack = result ++ (es.map Prod.snd ++ more)) (hresult : ResultFits s.result result)
    (hlocals : LocalsFit x.locals 0 f.locals) (hslots : f.locals.length ≤ 65536)
    (hslot : HoldsReceiver a.isStatic x.locals)
    (hhead : Takes w m.heap (if site.unpatchable then
        [Intrinsic.discardCompanion.call, Intrinsic.commitStaging.call] else [])
      ⟨c, x.locals, es.map Prod.snd ++ more⟩ ⟨d, x.locals, es.map Prod.snd ++ more⟩) :
    Reaches w (m.goOn x rest)
      { m.put (d.leaving (keptOf es ++ keptLocals x.locals 0 f.locals) (Int32.ofNat site.index)
          (companions a.isStatic a.rootEntry x.locals)) with
        pending := rest, mode := .returning (ret.map Value.zero) } := by
  obtain ⟨b, hoperands⟩ := Takes.saveOperands (h := m.heap) (c := d) x.locals more hw hes
  rw [hbelow] at hoperands
  obtain ⟨b', hsaved⟩ := Takes.saveLocals (h := m.heap)
    (c := d.stores (d.storage.putAll (keptOf es)) b) more hw hlocals
    (by rw [Nat.zero_add]; exact hslots)
  rw [← slotted_eq] at hsaved
  have hvalues : (d.stores (d.storage.putAll (keptOf es)) b).stores
      ((d.stores (d.storage.putAll (keptOf es)) b).storage.putAll
        (keptLocals x.locals 0 f.locals)) b' =
      d.stores (d.storage.putAll (keptOf es ++ keptLocals x.locals 0 f.locals)) b' := by
    rw [Storage.putAll_append]
    rfl
  rw [hvalues] at hsaved
  have hleave : Takes w m.heap
      ([.intConst (Int32.ofNat site.index), Intrinsic.pushState.call] ++
        companionCode a.isStatic a.rootEntry)
      ⟨d.stores (d.storage.putAll (keptOf es ++ keptLocals x.locals 0 f.locals)) b', x.locals, more⟩
      ⟨d.leaving (keptOf es ++ keptLocals x.locals 0 f.locals) (Int32.ofNat site.index)
        (companions a.isStatic a.rootEntry x.locals), x.locals, more⟩ :=
    .leave hw hslot
  have htakes := (((Takes.discardResult hresult).append hhead).append hoperands).append hsaved
    |>.append hleave
  rw [← List.append_assoc] at htakes
  have hrun := htakes.reaches rest rfl hm rfl hstack hcode.left
  exact hrun.trans (reaches_defaultReturn rest hcode.right)

end Machine

/-! ## restoring -/

/-- the zeros that stand for arguments -/
def zerosOf (cs : List Category) : List Value := cs.filterMap fun c => c.kind?.map Value.zero

/-- what is known about locals that were restored: they are as saved wherever there is a value, and
the first one is as before if it holds none -/
structure RestoredLocals (f : Frame) (saved start restored : List Value) : Prop where
  length : restored.length = start.length
  live : SameLive f.locals 0 saved restored
  first : (∀ c, f.locals.head? = some c → c.kind? = none) → restored[0]? = start[0]?

namespace Takes

variable {w : World} {h : Heap} {c : Coroutine Call Call} {locals start stack : List Value}
  {f : Frame} {shape : CallShape} {es : List (Category × Value)} {s : Storage}

theorem zeros (cs : List Category) : Takes w h (cs.flatMap (restoreArg false))
    ⟨c, locals, stack⟩ ⟨c, locals, (zerosOf cs).reverse ++ stack⟩ := by
  induction cs generalizing stack with
  | nil => exact nil w h _
  | cons category cs ih =>
    rw [List.flatMap_cons]
    cases hk : category.kind? with
    | none =>
      have hcode : restoreArg false category = [] := by simp [restoreArg, hk]
      have hzeros : zerosOf (category :: cs) = zerosOf cs := by simp [zerosOf, hk]
      rw [hcode, hzeros]
      exact ih
    | some k =>
      have hcode : restoreArg false category = [k.zeroInsn] := by simp [restoreArg, hk]
      have hzeros : (zerosOf (category :: cs)).reverse ++ stack =
          (zerosOf cs).reverse ++ .zero k :: stack := by simp [zerosOf, hk]
      rw [hcode, hzeros]
      exact append (zeroInsn w h k _) ih

/-- the locals and the operands below the call come back, down to what lies under the level -/
theorem restoreLevel (stack : List Value) (hw : w.Supplies) (hwide : WideOk f.locals)
    (hslots : f.locals.length ≤ 65536)
    (hlocals : LocalsAdmitted w.program h locals 0 f.locals)
    (hlen : f.locals.length ≤ start.length) (hbelow : es.map Prod.fst = shape.below)
    (hes : Admitted w.program h es)
    (hs : c.storage = s.putAll (keptOf es ++ keptLocals locals 0 f.locals)) :
    ∃ b locals', RestoredLocals f locals start locals' ∧
      Takes w h ((slotted f.locals).reverse.flatMap (fun e => restoreLocal e.1 e.2) ++
        shape.below.reverse.flatMap Resumable.restoreValue)
      ⟨c, start, stack⟩ ⟨c.stores s b, locals', es.map Prod.snd ++ stack⟩ := by
  rw [Storage.putAll_append] at hs
  obtain ⟨b, locals', h1, hlen', hlive, -, hfirst⟩ := restoreLocals stack hw hlocals hwide
    (by rw [Nat.zero_add]; exact hslots) (by rw [Nat.zero_add]; exact hlen) hs
  obtain ⟨b', h2⟩ := restoreOperands (c := c.stores (s.putAll (keptOf es)) b) locals' stack hw hes rfl
  rw [hbelow] at h2
  exact ⟨b', locals', ⟨hlen', hlive, hfirst⟩, append h1 h2⟩

/-- **The restore block** of a call that is made again with zeros, on the companion of its callee -/
theorem restorePatchable (start stack : List Value) {companion : Option Ref} (hw : w.Supplies) (hwide : WideOk f.locals)
    (hslots : f.locals.length ≤ 65536) (hlocals : LocalsAdmitted w.program h locals 0 f.locals)
    (hlen : f.locals.length ≤ start.length) (hbelow : es.map Prod.fst = shape.below)
    (hes : Admitted w.program h es)
    (hreceiver : ∀ r, shape.receiver = some r →
      r.kind? = some .ref ∧ r ≠ .null ∧ r.Admits w.program h (.ref companion))
    (hs : c.storage = (if shape.receiver.isSome then s.pushRef companion else s).putAll
      (keptOf es ++ keptLocals locals 0 f.locals)) :
    ∃ b locals', RestoredLocals f locals start locals' ∧ (shape.receiver.isSome → b = false) ∧
      Takes w h (restoreCode false f shape) ⟨c, start, stack⟩
        ⟨c.stores s b, locals', (zerosOf shape.args).reverse ++
          ((if shape.receiver.isSome then [.ref companion] else []) ++
            (es.map Prod.snd ++ stack))⟩ := by
  obtain ⟨b, locals', hrestored, hlevel⟩ := restoreLevel stack hw hwide hslots hlocals hlen
    hbelow hes hs
  cases hr : shape.receiver with
  | none =>
    simp only [hr, Option.isSome_none, Bool.false_eq_true, if_false] at hlevel
    refine ⟨b, locals', hrestored, by simp, ?_⟩
    unfold restoreCode
    rw [hr]
    refine append ?_ (zeros shape.args)
    rw [Option.toList_none, List.flatMap_nil, List.append_nil]
    exact hlevel
  | some r =>
    obtain ⟨hk, hnull, hadmits⟩ := hreceiver r hr
    simp only [hr, Option.isSome_some, if_true] at hlevel
    have hpush : (c.stores (s.pushRef companion) b).storage =
        s.putAll (keptOf [(r, .ref companion)]) := by
      rw [keptOf_single_of_kept (Category.isKept_of_kind? hk hnull)]
      rfl
    obtain ⟨b', hpopped, hback⟩ := restoreValue locals' (es.map Prod.snd ++ stack)
      (e := (r, .ref companion)) hw hk hadmits hpush
    refine ⟨b', locals', hrestored, fun _ => hpopped hnull, ?_⟩
    unfold restoreCode
    rw [hr]
    refine append (append hlevel ?_) (zeros shape.args)
    rw [Option.toList_some, List.flatMap_singleton]
    exact hback

/-- the operands of a call are its receiver and its arguments -/
theorem receiver_append_args (shape : CallShape) :
    shape.receiver.toList ++ shape.args = shape.window := by
  unfold CallShape.receiver CallShape.args
  cases shape.hasReceiver with
  | false => rfl
  | true => cases shape.window <;> rfl

/-- **The restore block** of a call that is made again with the operands it had -/
theorem restoreUnpatchable (start stack : List Value) {ws : List (Category × Value)} (hw : w.Supplies)
    (hwide : WideOk f.locals) (hslots : f.locals.length ≤ 65536)
    (hlocals : LocalsAdmitted w.program h locals 0 f.locals)
    (hlen : f.locals.length ≤ start.length) (hbelow : es.map Prod.fst = shape.below)
    (hes : Admitted w.program h es) (hwindow : ws.map Prod.fst = shape.window)
    (hws : Admitted w.program h ws)
    (hs : c.storage = (s.putAll (keptOf ws.reverse)).putAll
      (keptOf es ++ keptLocals locals 0 f.locals)) :
    ∃ b locals', RestoredLocals f locals start locals' ∧
      Takes w h (restoreCode true f shape) ⟨c, start, stack⟩
        ⟨c.stores s b, locals', (ws.map Prod.snd).reverse ++ (es.map Prod.snd ++ stack)⟩ := by
  obtain ⟨b, locals', hrestored, hlevel⟩ := restoreLevel stack hw hwide hslots hlocals hlen
    hbelow hes hs
  have hreverse : Admitted w.program h ws.reverse := fun e he => hws e (List.mem_reverse.1 he)
  obtain ⟨b', hback⟩ := restoreOperands (c := c.stores (s.putAll (keptOf ws.reverse)) b)
    locals' (es.map Prod.snd ++ stack) hw hreverse rfl
  refine ⟨b', locals', hrestored, ?_⟩
  have hcode : restoreCode true f shape =
      ((slotted f.locals).reverse.flatMap (fun e => restoreLocal e.1 e.2) ++
        shape.below.reverse.flatMap Resumable.restoreValue) ++
        shape.window.flatMap Resumable.restoreValue := by
    rw [← receiver_append_args, List.flatMap_append, ← List.append_assoc]
    rfl
  rw [List.map_reverse, List.map_reverse, List.reverse_reverse, hwindow] at hback
  rw [hcode]
  exact append hlevel hback

end Takes
end Resumable
