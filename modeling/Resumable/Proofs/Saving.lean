import Resumable.Proofs.Frames
import Resumable.Proofs.Work
import Resumable.Weave.Blocks

/-!
# Saving and restoring

A frame says of which category each local and each operand is.  Values that their categories admit
go into storage and come out of it again: the operands from the top down and then the locals upwards,
and in exactly the opposite order on the way back.  Exact nulls are never in storage; a wide local
empties the slot behind it when it comes back, which therefore must not hold a value.

* `Category.Admits` : a value is what its category says;
* `keptOf` : the operands that go into storage;
* `Takes.saveOperands`, `Takes.restoreOperands` : operands there and back;
* `Takes.saveLocals`, `Takes.restoreLocals` : locals there and back.
-/

namespace Resumable

/-! ## values and their categories -/

namespace Category

/-- the value is what the category says; the heap tells the classes of references -/
def Admits (p : Program) (h : Heap) : Category → Value → Prop
  | .null, v => v = .null
  | .ref t, v => ∃ r, v = .ref r ∧ ∀ x, r = some x → p.isAssignable (h.className x) t = true
  | c, v => ∀ k, c.kind? = some k → v.kind? = some k

section
variable {p : Program} {h : Heap} {c : Category} {v : Value} {k : Kind}

/-- what counts of a program is what is assignable in it -/
theorem Admits.program {p' : Program} (hpr : ∀ a b, p'.isAssignable a b = p.isAssignable a b)
    (ha : c.Admits p h v) : c.Admits p' h v := by
  cases c with
  | ref t =>
    obtain ⟨r, hr, hx⟩ := ha
    exact ⟨r, hr, fun x h => (hpr _ _).trans (hx x h)⟩
  | _ => exact ha

theorem Admits.kind? (ha : c.Admits p h v) (hk : c.kind? = some k) : v.kind? = some k := by
  cases c with
  | null =>
    have hv : v = .null := ha
    rw [hv, ← hk]
    rfl
  | ref t =>
    obtain ⟨r, rfl, -⟩ := ha
    rw [← hk]
    rfl
  | _ => exact ha k hk

/-- a cast to the type of a category lets its values pass -/
theorem Admits.assignable {t : String} {x : Ref} (ha : (Category.ref t).Admits p h (.ref (some x))) :
    p.isAssignable (h.className x) t = true := by
  obtain ⟨r, hr, hx⟩ := ha
  exact hx x (by injection hr with hr; exact hr.symm)

end

/-- storage keeps the values of the category -/
def isKept (c : Category) : Bool := c.kind?.isSome && c != .null

theorem isKept_of_kind? {c : Category} {k : Kind} (hk : c.kind? = some k) (hn : c ≠ .null) :
    c.isKept = true := by
  simp [isKept, hk, hn]

end Category

/-- the operands that go into storage -/
def keptOf (es : List (Category × Value)) : List Value :=
  (es.filter fun e => e.1.isKept).map Prod.snd

section
variable {es fs : List (Category × Value)} {e : Category × Value}

theorem keptOf_nil : keptOf [] = [] := rfl

theorem keptOf_append (es fs : List (Category × Value)) :
    keptOf (es ++ fs) = keptOf es ++ keptOf fs := by
  simp only [keptOf, List.filter_append, List.map_append]

theorem keptOf_cons (e : Category × Value) (es : List (Category × Value)) :
    keptOf (e :: es) = keptOf [e] ++ keptOf es := keptOf_append [e] es

theorem keptOf_single_of_kept (h : e.1.isKept = true) : keptOf [e] = [e.2] := by
  simp [keptOf, h]

theorem keptOf_single_null (v : Value) : keptOf [(.null, v)] = [] := by
  simp [keptOf, Category.isKept]

theorem keptOf_reverse (es : List (Category × Value)) : keptOf es.reverse = (keptOf es).reverse := by
  simp only [keptOf, List.filter_reverse, List.map_reverse]

end

/-- operands with categories that hold values, each of the kind of its category -/
def Operands (es : List (Category × Value)) : Prop :=
  ∀ e ∈ es, ∃ k, e.1.kind? = some k ∧ e.2.kind? = some k

/-- operands with categories that admit them -/
def Admitted (p : Program) (h : Heap) (es : List (Category × Value)) : Prop :=
  ∀ e ∈ es, (∃ k, e.1.kind? = some k) ∧ e.1.Admits p h e.2

theorem Admitted.operands {p : Program} {h : Heap} {es : List (Category × Value)}
    (he : Admitted p h es) : Operands es := by
  intro e hmem
  obtain ⟨⟨k, hk⟩, ha⟩ := he e hmem
  exact ⟨k, hk, ha.kind? hk⟩

namespace Takes

variable {w : World} {h : Heap} {c : Coroutine Call Call} {locals stack : List Value}

/-! ## operands -/

/-- one operand into storage -/
theorem saveValue (locals stack : List Value) {e : Category × Value} {k : Kind} (hw : w.Supplies) (hk : e.1.kind? = some k)
    (hv : e.2.kind? = some k) :
    ∃ b, Takes w h (Resumable.saveValue e.1) ⟨c, locals, e.2 :: stack⟩
      ⟨c.stores (c.storage.putAll (keptOf [e])) b, locals, stack⟩ := by
  obtain ⟨category, v⟩ := e
  by_cases hn : category = .null
  · subst hn
    refine ⟨c.companionOnTop, ?_⟩
    rw [keptOf_single_null, Storage.putAll_nil]
    exact pop
  · refine ⟨false, ?_⟩
    rw [keptOf_single_of_kept (Category.isKept_of_kind? hk hn)]
    simp only [Resumable.saveValue, hk, if_neg hn]
    exact pushCode hw hv

/-- operands into storage, from the top down -/
theorem saveOperands (locals stack : List Value) {es : List (Category × Value)} (hw : w.Supplies)
    (he : Operands es) :
    ∃ b, Takes w h ((es.map Prod.fst).flatMap Resumable.saveValue)
      ⟨c, locals, es.map Prod.snd ++ stack⟩
      ⟨c.stores (c.storage.putAll (keptOf es)) b, locals, stack⟩ := by
  induction es generalizing c with
  | nil => exact ⟨c.companionOnTop, nil w h _⟩
  | cons e es ih =>
    obtain ⟨k, hk, hv⟩ := he e List.mem_cons_self
    obtain ⟨b, h1⟩ := saveValue (h := h) (c := c) locals (es.map Prod.snd ++ stack) hw hk hv
    obtain ⟨b', h2⟩ := ih (c := c.stores (c.storage.putAll (keptOf [e])) b)
      (fun f hf => he f (List.mem_cons_of_mem _ hf))
    refine ⟨b', ?_⟩
    rw [keptOf_cons, Storage.putAll_append]
    exact append h1 h2

/-- one operand out of storage -/
theorem restoreValue (locals stack : List Value) {e : Category × Value} {k : Kind} {s : Storage} (hw : w.Supplies)
    (hk : e.1.kind? = some k) (ha : e.1.Admits w.program h e.2)
    (hs : c.storage = s.putAll (keptOf [e])) :
    ∃ b, (e.1 ≠ .null → b = false) ∧ Takes w h (Resumable.restoreValue e.1) ⟨c, locals, stack⟩
      ⟨c.stores s b, locals, e.2 :: stack⟩ := by
  obtain ⟨category, v⟩ := e
  by_cases hn : category = .null
  · subst hn
    refine ⟨c.companionOnTop, fun hnull => absurd rfl hnull, ?_⟩
    rw [keptOf_single_null, Storage.putAll_nil] at hs
    have hv : v = .null := ha
    have hc : c.stores s c.companionOnTop = c := by rw [← hs]; rfl
    rw [hv, hc]
    exact nullConst w h _
  · refine ⟨false, fun _ => rfl, ?_⟩
    rw [keptOf_single_of_kept (Category.isKept_of_kind? hk hn)] at hs
    have hcode : Resumable.restoreValue category = k.popCode category := by
      cases category with
      | null => exact absurd rfl hn
      | empty => exact absurd hk (by simp [Category.kind?])
      | returnAddress => exact absurd hk (by simp [Category.kind?])
      | _ => cases hk; rfl
    show Takes w h (Resumable.restoreValue category) _ _
    rw [hcode]
    refine popCode hw (ha.kind? hk) hs ?_
    intro type x hc hx
    subst hc hx
    exact ha.assignable

/-- operands out of storage, from the bottom up -/
theorem restoreOperands (locals stack : List Value) {es : List (Category × Value)} {s : Storage}
    (hw : w.Supplies) (he : Admitted w.program h es) (hs : c.storage = s.putAll (keptOf es)) :
    ∃ b, Takes w h ((es.map Prod.fst).reverse.flatMap Resumable.restoreValue)
      ⟨c, locals, stack⟩ ⟨c.stores s b, locals, es.map Prod.snd ++ stack⟩ := by
  induction es generalizing s with
  | nil =>
    refine ⟨c.companionOnTop, ?_⟩
    have hc : c.stores s c.companionOnTop = c := by
      rw [keptOf_nil, Storage.putAll_nil] at hs
      rw [← hs]
      rfl
    rw [hc]
    exact nil w h _
  | cons e es ih =>
    obtain ⟨⟨k, hk⟩, ha⟩ := he e List.mem_cons_self
    rw [keptOf_cons, Storage.putAll_append] at hs
    -- what was saved last lies uppermost, so the operands below come back first
    obtain ⟨b, h1⟩ := ih (fun f hf => he f (List.mem_cons_of_mem _ hf)) hs
    obtain ⟨b', -, h2⟩ := restoreValue (c := c.stores (s.putAll (keptOf [e])) b) locals
      (es.map Prod.snd ++ stack) (s := s) hw hk ha rfl
    refine ⟨b', ?_⟩
    rw [List.map_cons, List.reverse_cons, List.flatMap_append, List.flatMap_singleton]
    exact append h1 h2

end Takes

/-! ## locals -/

namespace Exec

theorem length_putLocal (locals : List Value) (i : Nat) (v : Value) :
    (putLocal locals i v).length = locals.length := by
  unfold putLocal
  dsimp only
  split
  · rw [List.length_set, List.length_set]
  · rw [List.length_set]

theorem getElem?_putLocal_self {locals : List Value} {i : Nat} (v : Value)
    (hi : i < locals.length) : (putLocal locals i v)[i]? = some v := by
  unfold putLocal
  dsimp only
  split
  · rw [List.getElem?_set_ne (by omega), List.getElem?_set_self hi]
  · rw [List.getElem?_set_self hi]

/-- a store changes its slot and, if the value is wide, the slot behind it -/
theorem getElem?_putLocal_of_ne (locals : List Value) {i j : Nat} {v : Value} (h : j ≠ i)
    (hw : v.width = 2 → j ≠ i + 1) : (putLocal locals i v)[j]? = locals[j]? := by
  unfold putLocal
  dsimp only
  split
  · rename_i h2
    rw [List.getElem?_set_ne (Ne.symm (hw h2)), List.getElem?_set_ne (Ne.symm h)]
  · rw [List.getElem?_set_ne (Ne.symm h)]

end Exec

/-- locals with their slots, counted from one on -/
def slottedFrom (n : Nat) (cs : List Category) : List (UInt16 × Category) :=
  (cs.zipIdx n).map fun e => (UInt16.ofNat e.2, e.1)

theorem slotted_eq (cs : List Category) : slotted cs = slottedFrom 0 cs := rfl

theorem slottedFrom_cons (n : Nat) (c : Category) (cs : List Category) :
    slottedFrom n (c :: cs) = (UInt16.ofNat n, c) :: slottedFrom (n + 1) cs := by
  simp only [slottedFrom, List.zipIdx_cons, List.map_cons]

/-- the locals that go into storage, counted from a slot on -/
def keptLocals (locals : List Value) : Nat → List Category → List Value
  | _, [] => []
  | n, c :: cs =>
    (if c.kind?.isSome then locals[n]?.toList else []) ++ keptLocals locals (n + 1) cs

/-- the locals from a slot on are of the kinds of their categories -/
def LocalsFit (locals : List Value) (n : Nat) (cs : List Category) : Prop :=
  ∀ (i : Nat) (c : Category) (k : Kind), cs[i]? = some c → c.kind? = some k →
    ∃ v, locals[n + i]? = some v ∧ v.kind? = some k

/-- the locals from a slot on are what their categories say -/
def LocalsAdmitted (p : Program) (h : Heap) (locals : List Value) (n : Nat)
    (cs : List Category) : Prop :=
  ∀ (i : Nat) (c : Category) (k : Kind), cs[i]? = some c → c.kind? = some k →
    ∃ v, locals[n + i]? = some v ∧ c.Admits p h v

/-- two lists of locals hold the same values wherever the categories say that there are some -/
def SameLive (cs : List Category) (n : Nat) (locals locals' : List Value) : Prop :=
  ∀ (i : Nat) (c : Category) (k : Kind), cs[i]? = some c → c.kind? = some k →
    locals'[n + i]? = locals[n + i]?

section
variable {p : Program} {h : Heap} {locals locals' : List Value} {n : Nat} {c : Category}
  {cs : List Category}

theorem LocalsAdmitted.fit (ha : LocalsAdmitted p h locals n cs) : LocalsFit locals n cs := by
  intro i c k hc hk
  obtain ⟨v, hv, hadm⟩ := ha i c k hc hk
  exact ⟨v, hv, hadm.kind? hk⟩

theorem LocalsFit.tail (hf : LocalsFit locals n (c :: cs)) : LocalsFit locals (n + 1) cs := by
  intro i d k hd hk
  rw [show n + 1 + i = n + (i + 1) by omega]
  exact hf (i + 1) d k hd hk

theorem LocalsAdmitted.tail (ha : LocalsAdmitted p h locals n (c :: cs)) :
    LocalsAdmitted p h locals (n + 1) cs := by
  intro i d k hd hk
  rw [show n + 1 + i = n + (i + 1) by omega]
  exact ha (i + 1) d k hd hk

end

namespace Takes

variable {w : World} {h : Heap} {c : Coroutine Call Call} {locals stack : List Value}

/-- locals into storage, upwards from a slot -/
theorem saveLocals (stack : List Value) {cs : List Category} {n : Nat} (hw : w.Supplies)
    (hf : LocalsFit locals n cs) (hn : n + cs.length ≤ 65536) :
    ∃ b, Takes w h ((slottedFrom n cs).flatMap fun e => saveLocal e.1 e.2)
      ⟨c, locals, stack⟩
      ⟨c.stores (c.storage.putAll (keptLocals locals n cs)) b, locals, stack⟩ := by
  induction cs generalizing n c with
  | nil => exact ⟨c.companionOnTop, nil w h _⟩
  | cons category cs ih =>
    rw [List.length_cons] at hn
    rw [slottedFrom_cons, List.flatMap_cons]
    have hslot : (UInt16.ofNat n).toNat = n := by
      rw [UInt16.toNat_ofNat']
      exact Nat.mod_eq_of_lt (by omega)
    cases hk : category.kind? with
    | none =>
      obtain ⟨b, h2⟩ := ih (c := c) hf.tail (by omega)
      refine ⟨b, ?_⟩
      simp only [saveLocal, keptLocals, hk]
      exact h2
    | some k =>
      obtain ⟨v, hv, hvk⟩ := hf 0 category k rfl hk
      rw [Nat.add_zero] at hv
      obtain ⟨b, h2⟩ := ih (c := c.stores (c.storage.put v) false) hf.tail (by omega)
      refine ⟨b, ?_⟩
      simp only [saveLocal, keptLocals, hk, hv]
      exact append (cons (load (by rw [hslot]; exact hv) hvk) (pushCode hw hvk)) h2

/-- Locals out of storage, downwards to a slot.  They come back into every slot that holds a value;
the slots before the first one, and the first one if it holds none, stay as they were. -/
theorem restoreLocals (stack : List Value) {cs : List Category} {n : Nat} {start : List Value}
    {s : Storage} (hw : w.Supplies) (ha : LocalsAdmitted w.program h locals n cs) (hwide : WideOk cs)
    (hn : n + cs.length ≤ 65536) (hlen : n + cs.length ≤ start.length)
    (hs : c.storage = s.putAll (keptLocals locals n cs)) :
    ∃ b locals', Takes w h ((slottedFrom n cs).reverse.flatMap fun e => restoreLocal e.1 e.2)
        ⟨c, start, stack⟩ ⟨c.stores s b, locals', stack⟩ ∧
      locals'.length = start.length ∧ SameLive cs n locals locals' ∧
      (∀ j < n, locals'[j]? = start[j]?) ∧
      ((∀ d, cs.head? = some d → d.kind? = none) → locals'[n]? = start[n]?) := by
  induction cs generalizing n s with
  | nil =>
    have hc : c.stores s c.companionOnTop = c := by
      rw [keptLocals, Storage.putAll_nil] at hs
      rw [← hs]
      rfl
    refine ⟨c.companionOnTop, start, ?_, rfl, fun i d k hd _ => absurd hd (by simp),
      fun _ _ => rfl, fun _ => rfl⟩
    rw [hc]
    exact nil w h _
  | cons category cs ih =>
    rw [List.length_cons] at hn hlen
    rw [slottedFrom_cons, List.reverse_cons, List.flatMap_append, List.flatMap_singleton]
    rw [keptLocals, Storage.putAll_append] at hs
    have hslot : (UInt16.ofNat n).toNat = n := by
      rw [UInt16.toNat_ofNat']
      exact Nat.mod_eq_of_lt (by omega)
    obtain ⟨b, locals', h1, hlen', hsame, hbelow, -⟩ := ih ha.tail hwide.tail (by omega)
      (by omega) hs
    cases hk : category.kind? with
    | none =>
      have hcode : restoreLocal (UInt16.ofNat n) category = [] := by
        simp only [restoreLocal, hk]
      refine ⟨b, locals', ?_, hlen', ?_, fun j hj => hbelow j (by omega), fun _ => hbelow n (by omega)⟩
      · rw [hcode, List.append_nil]
        simpa only [hk, Option.isSome_none, Bool.false_eq_true, if_false, Storage.putAll_nil] using h1
      · intro i d k hd hdk
        cases i with
        | zero =>
          obtain rfl : category = d := by simpa using hd
          exact absurd hdk (by rw [hk]; simp)
        | succ i =>
          rw [show n + (i + 1) = n + 1 + i by omega]
          exact hsame i d k hd hdk
    | some k =>
      obtain ⟨v, hv, hadm⟩ := ha 0 category k rfl hk
      rw [Nat.add_zero] at hv
      have hvk : v.kind? = some k := hadm.kind? hk
      have hwidth : v.width = category.width := by
        rw [Value.width_eq_of_kind? hvk, Category.width_eq_of_kind? hk]
      -- a wide local reaches into the slot behind it, which is there and holds nothing
      have hfits : n + v.width ≤ start.length := by
        by_cases h2 : category.width = 2
        · obtain ⟨d, hd, -⟩ := hwide 0 category rfl h2
          have hcs : 0 < cs.length := (List.getElem?_eq_some_iff.1 hd).1 |> fun h => by
            rw [List.length_cons] at h
            omega
          rw [hwidth, h2]
          omega
        · have h1 : v.width = 1 := by
            rw [Value.width_eq_of_kind? hvk]
            rw [Category.width_eq_of_kind? hk] at h2
            cases k <;> first | rfl | exact absurd rfl h2
          omega
      have hcode : restoreLocal (UInt16.ofNat n) category =
          k.popCode category ++ [.store k (UInt16.ofNat n)] := by
        simp only [restoreLocal, hk]
      have hpop : Takes w h (k.popCode category)
          ⟨c.stores (s.put v) b, locals', stack⟩ ⟨(c.stores (s.put v) b).stores s false, locals',
            v :: stack⟩ := by
        refine popCode hw hvk rfl ?_
        intro type x hc hx
        subst hc hx
        exact hadm.assignable
      have hstore : Takes w h [.store k (UInt16.ofNat n)]
          ⟨c.stores s false, locals', v :: stack⟩
          ⟨c.stores s false, Exec.putLocal locals' n v, stack⟩ := by
        have hst : Takes w h [.store k (UInt16.ofNat n)] ⟨c.stores s false, locals', v :: stack⟩
            ⟨c.stores s false, Exec.putLocal locals' (UInt16.ofNat n).toNat v, stack⟩ :=
          store hvk (by rw [hslot, hlen']; exact hfits)
        rwa [hslot] at hst
      refine ⟨false, Exec.putLocal locals' n v, ?_, ?_, ?_, ?_, ?_⟩
      · rw [hcode]
        have h1' : Takes w h ((slottedFrom (n + 1) cs).reverse.flatMap fun e => restoreLocal e.1 e.2)
            ⟨c, start, stack⟩ ⟨c.stores (s.put v) b, locals', stack⟩ := by
          simpa only [hk, hv, Option.isSome_some, if_true, Option.toList_some, Storage.putAll_cons,
            Storage.putAll_nil] using h1
        exact append h1' (append hpop hstore)
      · rw [Exec.length_putLocal, hlen']
      · intro i d k' hd hdk
        cases i with
        | zero =>
          rw [Nat.add_zero, Exec.getElem?_putLocal_self v (by omega), hv]
        | succ i =>
          rw [Exec.getElem?_putLocal_of_ne locals' (by omega), show n + (i + 1) = n + 1 + i by omega]
          · exact hsame i d k' hd hdk
          · intro h2 hi
            obtain ⟨e, he, hnone⟩ := hwide 0 category rfl (by rw [← hwidth]; exact h2)
            obtain rfl : i = 0 := by omega
            obtain rfl : e = d := by
              rw [List.getElem?_cons_succ] at he hd
              rw [he] at hd
              injection hd
            exact absurd hdk (by rw [hnone]; simp)
      · intro j hj
        rw [Exec.getElem?_putLocal_of_ne locals' (by omega) (fun _ => by omega)]
        exact hbelow j (by omega)
      · intro hnone
        exact absurd hk (by rw [hnone category rfl]; simp)

end Takes
end Resumable
