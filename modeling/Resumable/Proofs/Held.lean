import Resumable.Proofs.Saving
import Resumable.Proofs.Taken

/-!
# What frames say about values

A category with a kind says that a value is of it, and the category of the null constant says that it is
null.  A frame says this of all locals and of all operands, of which there are as many as it has.  Of
references a category may be taken to say more, such as the class of what they name; what is done with
values that are not made anew does not depend on it.

* `Category.Holds`, `Frame.Holds` : what a frame says of the kinds of values is the case;
* `Category.Reading`, `Frame.Reads` : what a frame may be taken to say is the case;
* `Frame.Above.reads` : so is what a frame above it says;
* `Frame.Takes.reads`, `Frame.reads_putLocal` : operands taken, and stores;
* `Frame.reads_entry` : the start of a method.
-/

namespace Resumable

/-! ## categories -/

/-- what a category says about a value is the case -/
structure Category.Holds (c : Category) (v : Value) : Prop where
  kind : ∀ k, c.kind? = some k → v.kind? = some k
  null : c = .null → v = .null

namespace Category

variable {R : Category → Value → Prop} {c d : Category} {v : Value} {k : Kind}

/-- What categories may be taken to say about values: the kinds of values, which is all there is to say of
numbers, and that a value is null.  Null is a reference of any type. -/
class Reading (R : Category → Value → Prop) : Prop where
  free : ∀ {c v}, c.kind? = none → R c v
  kind : ∀ {c v k}, R c v → c.kind? = some k → v.kind? = some k
  number : ∀ {c v k}, k ≠ .ref → c.kind? = some k → v.kind? = some k → R c v
  null : ∀ {v}, R .null v ↔ v = .null
  ref : ∀ t, R (.ref t) .null

/-- a category without a kind says nothing -/
theorem holds_of_kind?_eq_none (hc : c.kind? = none) (v : Value) : c.Holds v :=
  ⟨fun k hk => absurd (hc.symm.trans hk) (by simp), fun h => absurd hc (by rw [h]; simp [kind?])⟩

theorem holds_of_kind? (hc : c ≠ .null) (hk : c.kind? = some k) (hv : v.kind? = some k) :
    c.Holds v :=
  ⟨fun k' hk' => by rw [hv, ← hk, hk'], fun h => absurd h hc⟩

instance : Reading Holds where
  free hc := holds_of_kind?_eq_none hc _
  kind h hk := h.kind _ hk
  number hne hk hv := holds_of_kind? (fun hc => hne (Option.some.inj (by rw [← hk, hc]; rfl))) hk hv
  null := ⟨fun h => h.null rfl, fun h => h ▸ ⟨fun _ hk => hk, fun _ => rfl⟩⟩
  ref _ := ⟨fun _ hk => hk, fun h => absurd h (by simp)⟩

/-- references to a type may be taken for references to a wider one -/
def Widened (p : Program) (R : Category → Value → Prop) : Prop :=
  ∀ s t v, p.Widens s t → R (.ref s) v → R (.ref t) v

theorem widened_holds (p : Program) : Widened p Holds :=
  fun _ _ _ _ h => ⟨fun k hk => h.kind k hk, fun hc => absurd hc (by simp)⟩

/-- what a category says, a category above it says as well -/
theorem Above.reads [Reading R] {p : Program} (hwide : Widened p R) (h : c.Above p d) (hv : R d v) :
    R c v := by
  cases hk : c.kind? with
  | none => exact Reading.free hk
  | some k =>
    cases c with
    | null => rwa [h.null rfl] at hv
    | ref t =>
      rcases h.type t rfl with rfl | ⟨s, rfl, hst⟩
      · rw [Reading.null.1 hv]
        exact Reading.ref t
      · exact hwide s t v hst hv
    | _ => exact Reading.number (by rintro rfl; exact absurd hk (by simp [kind?])) hk
            (Reading.kind hv (h.kind k hk))

theorem Above.reads_forall₂ [Reading R] {p : Program} (hwide : Widened p R) {cs ds : List Category}
    {vs : List Value} (h : List.Forall₂ (Above p) cs ds) (hv : List.Forall₂ R ds vs) :
    List.Forall₂ R cs vs := by
  induction h generalizing vs with
  | nil => exact hv
  | cons hcd _ ih =>
    cases hv with
    | cons hd hrest => exact .cons (hcd.reads hwide hd) (ih hrest)

theorem reads_ofKind [Reading R] (hk : k ≠ .ref) (hv : v.kind? = some k) : R (ofKind k) v :=
  Reading.number hk (kind?_ofKind k) hv

/-- the zero of a kind is what each category of the kind says -/
theorem reads_zero [Reading R] (hc : c.kind? = some k) : R c (.zero k) := by
  cases c with
  | ref t =>
    obtain rfl : Kind.ref = k := Option.some.inj hc
    exact Reading.ref t
  | null =>
    obtain rfl : Kind.ref = k := Option.some.inj hc
    exact Reading.null.2 rfl
  | _ => exact Reading.number (by rintro rfl; exact absurd hc (by simp [kind?])) hc (Value.kind?_zero k)

theorem ofType_ne_null (t : FieldType) : ofType t ≠ .null := by cases t <;> simp [ofType]

/-- a value takes as many slots as its category -/
theorem Reading.width [Reading R] (h : R c v) (hk : c.kind? = some k) : v.width = c.width := by
  rw [Value.width_eq_of_kind? (Reading.kind h hk), width_eq_of_kind? hk]

end Category

theorem Value.exists_int {v : Value} (h : v.kind? = some .int) : ∃ n, v = .int n := by
  cases v <;> first | exact ⟨_, rfl⟩ | exact absurd h (by simp [kind?])

theorem Value.exists_ref {v : Value} (h : v.kind? = some .ref) : ∃ r, v = .ref r := by
  cases v <;> first | exact ⟨_, rfl⟩ | exact absurd h (by simp [kind?])

/-! ## frames -/

/-- what a frame says about locals and operands is the case -/
structure Frame.Holds (f : Frame) (locals stack : List Value) : Prop where
  locals : List.Forall₂ Category.Holds f.locals locals
  stack : List.Forall₂ Category.Holds f.stack stack

/-- what a frame may be taken to say about locals and operands is the case -/
structure Frame.Reads (R : Category → Value → Prop) (f : Frame) (locals stack : List Value) :
    Prop where
  locals : List.Forall₂ R f.locals locals
  stack : List.Forall₂ R f.stack stack

namespace Frame

open Category (Reading)

theorem holds_iff {f : Frame} {locals stack : List Value} :
    f.Holds locals stack ↔ f.Reads Category.Holds locals stack :=
  ⟨fun h => ⟨h.locals, h.stack⟩, fun h => ⟨h.locals, h.stack⟩⟩

section

variable {R : Category → Value → Prop} {f g : Frame} {locals stack : List Value}
  {cs : List Category} {c : Category} {v : Value} {k : Kind} {ks : List Kind}

theorem forall₂_iff {as : List Category} {vs : List Value} :
    List.Forall₂ R as vs ↔ as.length = vs.length ∧
      ∀ (i : Nat) (c : Category) (v : Value), as[i]? = some c → vs[i]? = some v → R c v := by
  rw [List.forall₂_iff_get]
  refine and_congr_right fun hlen => ⟨fun h i c v hc hv => ?_, fun h i h1 h2 => ?_⟩
  · obtain ⟨h1, rfl⟩ := List.getElem?_eq_some_iff.1 hc
    obtain ⟨h2, rfl⟩ := List.getElem?_eq_some_iff.1 hv
    exact h i h1 h2
  · exact h i _ _ (List.getElem?_eq_getElem h1) (List.getElem?_eq_getElem h2)

/-- a local that a frame has is there, and is what the frame says -/
theorem Reads.local (h : f.Reads R locals stack) {i : Nat} (hc : f.locals[i]? = some c) :
    ∃ v, locals[i]? = some v ∧ R c v := by
  obtain ⟨hlen, hall⟩ := forall₂_iff.1 h.locals
  have hlt : i < locals.length := by rw [← hlen]; exact (List.getElem?_eq_some_iff.1 hc).1
  have hv := List.getElem?_eq_getElem hlt
  exact ⟨_, hv, hall i c _ hc hv⟩

/-! ## operands -/

/-- operands taken by a frame are there -/
theorem Takes.reads (h : f.Takes cs g) (hs : List.Forall₂ R f.stack stack) :
    ∃ vs rest, stack = vs ++ rest ∧ List.Forall₂ R cs vs ∧ List.Forall₂ R g.stack rest := by
  rw [h.stack] at hs
  clear h
  induction cs generalizing stack with
  | nil => exact ⟨[], stack, rfl, .nil, hs⟩
  | cons c cs ih =>
    cases hs with
    | cons hc hs =>
      obtain ⟨vs, rest, rfl, hvs, hrest⟩ := ih hs
      exact ⟨_ :: vs, rest, rfl, .cons hc hvs, hrest⟩

theorem Takes.reads_one (h : f.Takes [c] g) (hs : List.Forall₂ R f.stack stack) :
    ∃ v rest, stack = v :: rest ∧ R c v ∧ List.Forall₂ R g.stack rest := by
  rw [h.stack] at hs
  cases hs with
  | cons hc hs => exact ⟨_, _, rfl, hc, hs⟩

/-- a computed result takes the place of its operands -/
theorem replace_ok (h : f.replace ks c = .ok g) : ∃ e, f.popKinds ks = .ok e ∧ g = e.push c := by
  obtain ⟨e, he, h⟩ := Effect.bind_eq_ok h
  exact ⟨e, he, (Except.ok.inj h).symm⟩

/-- a value of the same category in place of a narrow one -/
theorem reads_set {as : List Category} (h : List.Forall₂ R as locals) {i : Nat}
    (hi : as[i]? = some c) (hc : R c v) : List.Forall₂ R as (locals.set i v) := by
  obtain ⟨hlen, hall⟩ := forall₂_iff.1 h
  refine forall₂_iff.2 ⟨by rw [List.length_set, hlen], fun n d w hd hw => ?_⟩
  by_cases hn : i = n
  · subst hn
    have hlt : i < locals.length := by rw [← hlen]; exact (List.getElem?_eq_some_iff.1 hd).1
    rw [List.getElem?_set_self hlt] at hw
    rw [hi] at hd
    rw [← Option.some.inj hd, ← Option.some.inj hw]
    exact hc
  · rw [List.getElem?_set_ne hn] at hw
    exact hall n d w hd hw

variable [Reading R]

/-- what a frame says, a frame above it says as well -/
theorem Above.reads {p : Program} (hwide : Category.Widened p R) (h : f.Above p g)
    (hlen : f.locals.length = g.locals.length) (hg : g.Reads R locals stack) :
    f.Reads R locals stack := by
  constructor
  · obtain ⟨hlen', hall⟩ := forall₂_iff.1 hg.locals
    refine forall₂_iff.2 ⟨hlen.trans hlen', fun i c v hc hv => ?_⟩
    cases hk : c.kind? with
    | none => exact Reading.free hk
    | some k =>
      obtain ⟨d, hd, hcd⟩ := h.locals i c k hc hk
      exact hcd.reads hwide (hall i d v hd hv)
  · exact Category.Above.reads_forall₂ hwide h.stack hg.stack

theorem kinds_of_reads {vs : List Value} (h : List.Forall₂ R cs vs)
    (hk : cs.map Category.kind? = ks.map some) : vs.map Value.kind? = ks.map some := by
  induction h generalizing ks with
  | nil => simpa using hk
  | cons hc _ ih =>
    cases ks with
    | nil => exact absurd hk (by simp)
    | cons k ks =>
      rw [List.map_cons, List.map_cons, List.cons.injEq] at hk
      rw [List.map_cons, List.map_cons, Reading.kind hc hk.1, ih hk.2]

/-- operands of given kinds are there -/
theorem popKinds_reads (h : f.popKinds ks = .ok g) (hs : List.Forall₂ R f.stack stack) :
    ∃ vs rest, stack = vs ++ rest ∧ vs.map Value.kind? = ks.map some ∧
      List.Forall₂ R g.stack rest := by
  obtain ⟨cs, htakes, hkinds⟩ := popKinds_ok h
  obtain ⟨vs, rest, hstack, hvs, hrest⟩ := htakes.reads hs
  exact ⟨vs, rest, hstack, kinds_of_reads hvs hkinds, hrest⟩

theorem popKinds_reads_one (h : f.popKinds [k] = .ok g) (hs : List.Forall₂ R f.stack stack) :
    ∃ v rest, stack = v :: rest ∧ v.kind? = some k ∧ List.Forall₂ R g.stack rest := by
  obtain ⟨vs, rest, rfl, hkinds, hrest⟩ := popKinds_reads h hs
  obtain ⟨v, rfl, hv⟩ : ∃ v, vs = [v] ∧ v.kind? = some k := by
    simpa [List.map_eq_singleton_iff] using hkinds
  exact ⟨v, rest, rfl, hv, hrest⟩

theorem popKinds_reads_two {k' : Kind} (h : f.popKinds [k, k'] = .ok g)
    (hs : List.Forall₂ R f.stack stack) :
    ∃ v w rest, stack = v :: w :: rest ∧ v.kind? = some k ∧ w.kind? = some k' ∧
      List.Forall₂ R g.stack rest := by
  obtain ⟨vs, rest, rfl, hkinds, hrest⟩ := popKinds_reads h hs
  obtain ⟨v, ws, rfl, hv, hkinds⟩ := List.map_eq_cons_iff.1 hkinds
  obtain ⟨w, rfl, hw⟩ : ∃ w, ws = [w] ∧ w.kind? = some k' := by
    simpa [List.map_eq_singleton_iff] using hkinds
  exact ⟨v, w, rest, rfl, hv, hw, hrest⟩

/-! ## locals -/

/-- **A store** in a frame and in the locals -/
theorem reads_putLocal {as : List Category} (h : List.Forall₂ R as locals) (hc : R c v)
    (hk : c.kind? = some k) {i : Nat} (hi : i + c.width ≤ as.length) :
    List.Forall₂ R (putLocal as i c) (Exec.putLocal locals i v) := by
  obtain ⟨hlen, hall⟩ := forall₂_iff.1 h
  have hwidth := Reading.width hc hk
  have hpos := Value.width_pos v
  refine forall₂_iff.2 ⟨?_, fun n d w hd hw => ?_⟩
  · rw [length_putLocal, Exec.length_putLocal, hlen]
  · cases hdk : d.kind? with
    | none => exact Reading.free hdk
    | some k' =>
      by_cases hn : n = i
      · subst hn
        rw [getElem?_putLocal_self (by omega)] at hd
        rw [Exec.getElem?_putLocal_self v (by omega)] at hw
        rw [← Option.some.inj hd, ← Option.some.inj hw]
        exact hc
      · -- what is still known about a slot was known before, and the value there was not touched
        have hold := getElem?_of_putLocal hn hd hdk
        have hbehind (h2 : v.width = 2) : n ≠ i + 1 := by
          rintro rfl
          rw [getElem?_putLocal_behind (by omega) (by omega)] at hd
          exact not_kind?_empty hd.symm hdk
        rw [Exec.getElem?_putLocal_of_ne locals hn hbehind] at hw
        exact hall n d w hold hw

/-! ## the start of a method -/

theorem reads_slots (hv : R c v) (hk : c.kind? = some k) :
    List.Forall₂ R (slots c) (Activation.slots v) := by
  unfold slots Activation.slots
  rw [Reading.width hv hk]
  split
  · exact .cons hv (.cons (Reading.free rfl) .nil)
  · exact .cons hv .nil

theorem reads_flatMap_slots {vs : List Value} (h : List.Forall₂ R cs vs)
    (hk : ∀ c ∈ cs, ∃ k, c.kind? = some k) :
    List.Forall₂ R (cs.flatMap slots) (vs.flatMap Activation.slots) := by
  induction h with
  | nil => exact .nil
  | cons hc _ ih =>
    obtain ⟨k, hck⟩ := hk _ List.mem_cons_self
    exact List.rel_append (reads_slots hc hck) (ih fun c hmem => hk c (List.mem_cons_of_mem _ hmem))

theorem reads_replicate (n : Nat) :
    List.Forall₂ R (List.replicate n .empty) (List.replicate n .top) := by
  induction n with
  | zero => exact .nil
  | succ n ih => exact .cons (Reading.free rfl) ih

end

/-- categories of given kinds that are not the one of the null constant -/
theorem holds_of_kinds {cs : List Category} {vs : List Value} (hcs : ∀ c ∈ cs, c ≠ .null)
    (h : vs.map Value.kind? = cs.map Category.kind?) (hk : ∀ c ∈ cs, ∃ k, c.kind? = some k) :
    List.Forall₂ Category.Holds cs vs := by
  induction cs generalizing vs with
  | nil =>
    obtain rfl : vs = [] := by simpa using h
    exact .nil
  | cons c cs ih =>
    obtain ⟨v, ws, rfl, hv, hws⟩ := List.map_eq_cons_iff.1 h
    obtain ⟨k, hck⟩ := hk c List.mem_cons_self
    exact .cons (Category.holds_of_kind? (hcs c List.mem_cons_self) hck (hv.trans hck))
      (ih (fun c hmem => hcs c (List.mem_cons_of_mem _ hmem)) hws
        fun c hmem => hk c (List.mem_cons_of_mem _ hmem))

end Frame

namespace Method

/-- the kinds of a method's arguments, the receiver first -/
def argumentKinds (m : Method) (desc : MethodDesc) : List Kind :=
  (if m.isStatic then [] else [.ref]) ++ desc.params.map FieldType.kind

/-- the arguments are of the kinds that a method takes -/
def Accepts (m : Method) (args : List Value) : Prop :=
  ∀ desc, MethodDesc.parse? m.desc = some desc →
    args.map Value.kind? = (m.argumentKinds desc).map some

/-- the categories of a method's arguments, the receiver first -/
def arguments (m : Method) (owner : String) (desc : MethodDesc) : List Category :=
  (if m.isStatic then [] else [.ref owner]) ++ desc.params.map Category.ofType

variable {m : Method} {desc : MethodDesc} {owner : String} {c : Category}

theorem kind?_arguments (m : Method) (owner : String) (desc : MethodDesc) :
    (m.arguments owner desc).map Category.kind? = (m.argumentKinds desc).map some := by
  unfold arguments argumentKinds
  rw [List.map_append, List.map_append, List.map_map, List.map_map]
  congr 1
  · split <;> rfl
  · exact List.map_congr_left fun t _ => Category.kind?_ofType t

theorem exists_kind?_of_mem (hc : c ∈ m.arguments owner desc) : ∃ k, c.kind? = some k := by
  have hmem : c.kind? ∈ (m.arguments owner desc).map Category.kind? := List.mem_map_of_mem hc
  rw [kind?_arguments] at hmem
  obtain ⟨k, -, hk⟩ := List.mem_map.1 hmem
  exact ⟨k, hk.symm⟩

theorem ne_null_of_mem (hc : c ∈ m.arguments owner desc) : c ≠ .null := by
  rcases List.mem_append.1 hc with hc | hc
  · split at hc
    · exact absurd hc (by simp)
    · rw [List.mem_singleton.1 hc]
      simp
  · obtain ⟨t, -, rfl⟩ := List.mem_map.1 hc
    exact Category.ofType_ne_null t

/-- arguments of the right kinds are what the categories say of kinds -/
theorem Accepts.holds {args : List Value} (h : m.Accepts args)
    (hdesc : MethodDesc.parse? m.desc = some desc) (owner : String) :
    List.Forall₂ Category.Holds (m.arguments owner desc) args :=
  Frame.holds_of_kinds (fun _ hc => ne_null_of_mem hc)
    ((h desc hdesc).trans (kind?_arguments m owner desc).symm) fun _ hc => exists_kind?_of_mem hc

end Method

/-- **At the start of a method** its entry frame tells what its arguments are -/
theorem Frame.reads_entry {R : Category → Value → Prop} [Category.Reading R] {m : Method}
    {args : List Value} {desc : MethodDesc} {owner : String}
    (hargs : List.Forall₂ R (m.arguments owner desc) args) :
    (Frame.entry owner m.isStatic desc m.maxLocals.toNat).Reads R
      (Activation.entry m args).locals (Activation.entry m args).stack := by
  have hfilled := reads_flatMap_slots hargs fun c hc => Method.exists_kind?_of_mem hc
  have hcs : (m.arguments owner desc).flatMap slots =
      (if m.isStatic then [] else [.ref owner]) ++ desc.params.flatMap fun t => slots (.ofType t) := by
    unfold Method.arguments
    rw [List.flatMap_append, List.flatMap_map]
    congr 1
    split <;> rfl
  constructor
  · show List.Forall₂ _ (_ ++ List.replicate _ _) (_ ++ List.replicate _ _)
    rw [hcs] at hfilled
    rw [hfilled.length_eq]
    exact List.rel_append hfilled (reads_replicate _)
  · exact .nil

end Resumable
