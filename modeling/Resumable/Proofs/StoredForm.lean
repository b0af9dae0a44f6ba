import Resumable.Model.Table
import Resumable.Proofs.Documents

/-!
# Stored forms

A program or a table that is written as JSON and read again is the same, in either layout of the text.  What is left
out where there is nothing to say, such as a missing superclass, an empty list of interfaces or a pattern that is
patchable, has the value where it is missing that it was left out for.

Floating constants are read with the arithmetic of doubles, which may miss the nearest one: they have to be among those
that are read back from their numbers, which leaves out all that are not finite.  Classes stand in the order of their
keys, as in every program that is read.

* `Insn.ReadsBack`, `Program.ReadsBack` : floating constants that are read back;
* `Insn.ofJson?_toJson`, `Method.ofJson?_toJson`, `ClassDef.ofJson?_toJson` : the parts of a program;
* `Program.ofJson?_toJson`, `RestoreTable.ofRecord?_toJson` : documents are read back as what they were made of;
* `Program.sorted_of_ofJson?` : programs that are read are in order;
* `Program.fits`, `RestoreTable.fits` : their documents can be written;
* `stored_round_trip` : texts are read back.
-/

namespace Resumable

open Json

/-! ## small parts -/

namespace Json

section
variable {α β : Type}

@[simp] theorem str?_str (s : String) : str? (.str s) = some s := rfl
@[simp] theorem bool?_bool (b : Bool) : bool? (.bool b) = some b := rfl

@[simp] theorem uint16?_ofNat (n : UInt16) : uint16? (.ofNat n.toNat) = some n := by
  have hn := n.toNat_lt
  have hread : int? 0 65535 (.ofInt n.toNat) = some (n.toNat : Int) := int?_ofInt (by omega) (by omega)
  show (int? 0 65535 (.ofInt n.toNat)).map _ = _
  rw [hread]
  simp

@[simp] theorem uint32?_ofNat (n : UInt32) : uint32? (.ofNat n.toNat) = some n := by
  have hn := n.toNat_lt
  have hread : int? 0 4294967295 (.ofInt n.toNat) = some (n.toNat : Int) := int?_ofInt (by omega) (by omega)
  show (int? 0 4294967295 (.ofInt n.toNat)).map _ = _
  rw [hread]
  simp

@[simp] theorem int32?_ofInt (n : Int32) : int32? (.ofInt n.toInt) = some n := by
  have hread : int? (-2147483648) 2147483647 (.ofInt n.toInt) = some n.toInt :=
    int?_ofInt n.le_toInt (Int.le_of_lt_add_one n.toInt_lt)
  rw [int32?, hread]
  simp

@[simp] theorem int64?_ofInt (n : Int64) : int64? (.ofInt n.toInt) = some n := by
  have hread : int? (-9223372036854775808) 9223372036854775807 (.ofInt n.toInt) = some n.toInt :=
    int?_ofInt n.le_toInt (Int.le_of_lt_add_one n.toInt_lt)
  rw [int64?, hread]
  simp

theorem list?_map {elem : Json → Option α} {toJson : α → Json} {as : List α} (h : ∀ a ∈ as, elem (toJson a) = some a) :
    list? elem (.arr (as.map toJson)) = some as := by
  rw [list?]
  induction as with
  | nil => rfl
  | cons a as ih =>
    rw [List.map_cons, List.mapM_cons, h a List.mem_cons_self, ih fun b hb => h b (List.mem_cons_of_mem _ hb)]
    rfl

@[simp] theorem list?_strings (xs : List String) : list? str? (.strings xs) = some xs := list?_map fun _ _ => rfl

theorem nullable?_eq_some {value : Json → Option α} {j : Json} {a : α} (hj : j ≠ .null) (h : value j = some a) :
    nullable? value j = some (some a) := by
  unfold nullable?
  split
  · exact absurd rfl hj
  · rw [h, Option.map_some]

end

end Json

@[simp] theorem Cond.ofJson?_name (c : Cond) : Cond.ofJson? false (.str c.name) = some c := by
  cases c <;> decide

@[simp] theorem ArithOp.ofJson?_name (o : ArithOp) : ArithOp.ofJson? false (.str o.name) = some o := by
  cases o <;> decide

@[simp] theorem CompareOp.ofJson?_name (o : CompareOp) : CompareOp.ofJson? false (.str o.name) = some o := by
  cases o <;> decide

@[simp] theorem InvokeKind.ofJson?_name (k : InvokeKind) : InvokeKind.ofJson? false (.str k.name) = some k := by
  cases k <;> decide

@[simp] theorem Kind.ofJson?_toJson (k : Kind) : Kind.ofJson? false k.toJson = some k := Kind.ofKey?_key k

@[simp] theorem Label.ofJson?_toJson (l : Label) : Label.ofJson? l.toJson = some l := by
  rw [Label.ofJson?, Label.toJson, uint32?_ofNat, Option.map_some]

@[simp] theorem MethodId.ofJson?_toJson (m : MethodId) : MethodId.ofJson? m.toJson = some m := by
  simp [MethodId.ofJson?, MethodId.toJson, record?, field?, required?, str?]

@[simp] theorem FieldRef.ofJson?_toJson (f : FieldRef) : FieldRef.ofJson? f.toJson = some f := by
  have hread := MethodId.ofJson?_toJson ⟨f.owner, f.name, f.desc⟩
  rw [FieldRef.ofJson?, FieldRef.toJson]
  rw [MethodId.toJson] at hread
  rw [hread, Option.map_some]

/-! ## instructions -/

namespace Insn

/-- the number that is written for a floating constant is read as the constant -/
def ReadsBack : Insn → Prop
  | .floatConst v => ∃ t, Decimal.jsonSingle? v = some t ∧ single? (.num t) = some v
  | .doubleConst v => ∃ t, Decimal.jsonDouble? v = some t ∧ double? (.num t) = some v
  | _ => True

theorem ofJson?_bare (op : String) : ofJson? (bare op) = ofOp? false op none := by
  simp [ofJson?, bare, ofMembers?, record?, field?, required?, opName?, constant?]

theorem ofJson?_withArgs {op : String} (h : bareOps.lookup op = none) (args : Json) :
    ofJson? (withArgs op args) = ofArgs? false op args := by
  simp [ofJson?, withArgs, ofMembers?, record?, field?, required?, opName?, constant?, ofOp?, h]

theorem ofJson?_toJson {i : Insn} (h : i.ReadsBack) : ofJson? i.toJson = some i := by
  cases i with
  | nop | nullConst | throw | arrayLength | pop | pop2 | dup | dupX1 | dup2 | swap =>
    rw [toJson, ofJson?_bare]
    rfl
  | floatConst v =>
    obtain ⟨t, ht, hread⟩ := h
    rw [toJson, ofJson?_withArgs (by decide), ht]
    simp [ofArgs?, floatJson, hread]
  | doubleConst v =>
    obtain ⟨t, ht, hread⟩ := h
    rw [toJson, ofJson?_withArgs (by decide), ht]
    simp [ofArgs?, floatJson, hread]
  | tableSwitch low d ts =>
    have htargets := list?_map fun l (_ : l ∈ ts) => l.ofJson?_toJson
    rw [toJson, ofJson?_withArgs (by decide)]
    simp [ofArgs?, tableSwitchOfJson?, record?, field?, required?, htargets]
  | lookupSwitch d cs =>
    have hpairs : list? (pair? int32? Label.ofJson?) (.arr (cs.map fun c => .arr [.ofInt c.1.toInt, c.2.toJson])) =
        some cs := list?_map fun c _ => by simp [pair?]
    rw [toJson, ofJson?_withArgs (by decide)]
    simp [ofArgs?, lookupSwitchOfJson?, record?, field?, required?, hpairs]
  | ret k =>
    cases k with
    | none =>
      rw [toJson, ofJson?_withArgs (by decide)]
      rfl
    | some k =>
      have hkind := nullable?_eq_some (by simp [Kind.toJson]) k.ofJson?_toJson
      rw [toJson, ofJson?_withArgs (by decide)]
      simp [ofArgs?, hkind]
  | _ =>
    rw [toJson, ofJson?_withArgs (by decide)]
    simp [ofArgs?, pair?, slotJson]

end Insn

/-! ## methods, classes, programs -/

@[simp] theorem TryCatch.ofJson?_toJson (t : TryCatch) : TryCatch.ofJson? t.toJson = some t := by
  obtain ⟨start, stop, handler, catchType⟩ := t
  cases catchType <;>
    simp [TryCatch.ofJson?, TryCatch.toJson, memberIf, record?, field?, required?, optional?, nullable?]

@[simp] theorem LocalVar.ofJson?_toJson (v : LocalVar) : LocalVar.ofJson? v.toJson = some v := by
  simp [LocalVar.ofJson?, LocalVar.toJson, record?, field?, required?]

theorem Method.ofJson?_toJson {m : Method} (h : ∀ i ∈ m.code, i.ReadsBack) : Method.ofJson? m.toJson = some m := by
  have hcode := list?_map fun i hi => Insn.ofJson?_toJson (h i hi)
  have htable := list?_map fun t (_ : t ∈ m.tryCatches) => t.ofJson?_toJson
  have hhints := list?_map fun v (_ : v ∈ m.localVars) => v.ofJson?_toJson
  simp [Method.ofJson?, Method.toJson, record?, field?, required?, defaulted?, hcode, htable, hhints]

@[simp] theorem Field.ofJson?_toJson (f : Field) : Field.ofJson? f.toJson = some f := by
  simp [Field.ofJson?, Field.toJson, record?, field?, required?, defaulted?]

theorem ClassDef.ofJson?_toJson {c : ClassDef} (h : ∀ m ∈ c.methods, ∀ i ∈ m.code, i.ReadsBack) :
    ClassDef.ofJson? c.toJson = some c := by
  have hfields := list?_map fun f (_ : f ∈ c.fields) => f.ofJson?_toJson
  have hmethods := list?_map fun m hm => Method.ofJson?_toJson (h m hm)
  obtain ⟨name, superName, interfaces, fields, methods⟩ := c
  cases superName <;> cases interfaces <;>
    simp [ClassDef.ofJson?, ClassDef.toJson, memberIf, record?, field?, required?, defaulted?, optional?, nullable?,
      hfields, hmethods]

/-- every floating constant of a program is read back from its number -/
def Program.ReadsBack (p : Program) : Prop := ∀ e ∈ p.classes, ∀ m ∈ e.2.methods, ∀ i ∈ m.code, i.ReadsBack

namespace Program

/-- the class of one more member, added to those already read -/
def addMember (p : Program) (m : String × Json) : Option Program :=
  (ClassDef.ofJson? m.2).map fun c => p.insertAt m.1 c

/-- classes behind those already read -/
theorem foldlM_addMember (done : List (String × ClassDef)) {es : List (String × ClassDef)}
    (hsorted : (done ++ es).Pairwise fun a b => a.1 < b.1) (h : ∀ e ∈ es, ClassDef.ofJson? e.2.toJson = some e.2) :
    (es.map fun e => (e.1, e.2.toJson)).foldlM addMember ⟨done⟩ = some ⟨done ++ es⟩ := by
  induction es generalizing done with
  | nil => simp
  | cons e es ih =>
    have hlast : ∀ d ∈ done, d.1 < e.1 := fun d hd =>
      (List.pairwise_append.1 hsorted).2.2 d hd e List.mem_cons_self
    have hrest := ih (done ++ [e]) (by simpa using hsorted) fun e' he' => h e' (List.mem_cons_of_mem _ he')
    have hhead : addMember ⟨done⟩ (e.1, e.2.toJson) = some ⟨done ++ [e]⟩ := by
      rw [addMember, h e List.mem_cons_self, Option.map_some]
      show some (Program.mk (insertEntry e.1 e.2 done)) = _
      rw [insertEntry_last hlast]
    rw [List.map_cons, List.foldlM_cons, hhead]
    simpa using hrest

/-- a program is read back from its document -/
theorem ofJson?_toJson {p : Program} (hsorted : p.Sorted) (h : p.ReadsBack) : ofJson? p.toJson = some p := by
  have hread := foldlM_addMember [] hsorted fun e he => ClassDef.ofJson?_toJson (h e he)
  simp only [ofJson?, toJson, record?]
  exact hread

theorem sorted_of_foldlM {ms : List (String × Json)} {p q : Program} (hp : p.Sorted)
    (h : ms.foldlM addMember p = some q) : q.Sorted := by
  induction ms generalizing p with
  | nil =>
    obtain rfl := Option.some.inj h
    exact hp
  | cons m ms ih =>
    rw [List.foldlM_cons] at h
    obtain ⟨r, hr, h⟩ := Option.bind_eq_some_iff.1 h
    obtain ⟨c, -, rfl⟩ := Option.map_eq_some_iff.1 hr
    exact ih (hp.insertAt m.1 c) h

/-- the classes of a program that is read are in order, wherever they stand in the document -/
theorem sorted_of_ofJson? {j : Json} {p : Program} (h : ofJson? j = some p) : p.Sorted := by
  unfold ofJson? at h
  split at h
  · rename_i classes _
    cases classes with
    | none => exact absurd h (by simp [required?])
    | some classes =>
      cases classes with
      | obj ms => exact sorted_of_foldlM sorted_empty h
      | _ => exact absurd h (by simp [required?, classesOfJson?])
  · exact absurd h (by simp)

end Program

/-! ## tables -/

@[simp] theorem RestorePoint.ofRecord?_toJson (r : RestorePoint) : RestorePoint.ofRecord? record? r.toJson = some r := by
  obtain ⟨name, desc, owner, patchable⟩ := r
  by_cases hdesc : desc = "" <;> by_cases howner : owner = "" <;> cases patchable <;>
    simp [RestorePoint.ofRecord?, RestorePoint.toJson, textIf, memberIf, record?, field?, required?, defaulted?,
      hdesc, howner]

@[simp] theorem Declaration.ofRecord?_toJson (d : Declaration) : Declaration.ofRecord? record? d.toJson = some d := by
  have hpoints := list?_map fun r (_ : r ∈ d.restorePoints) => r.ofRecord?_toJson
  obtain ⟨owner, name, desc, entry, points⟩ := d
  by_cases hdesc : desc = "" <;> cases entry <;>
    simp [Declaration.ofRecord?, Declaration.toJson, textIf, memberIf, record?, field?, required?, defaulted?,
      optional?, nullable?, hdesc, hpoints]

/-- a table is read back from its document -/
theorem RestoreTable.ofRecord?_toJson (t : RestoreTable) : RestoreTable.ofRecord? record? t.toJson = some t := by
  have hmethods := list?_map fun d (_ : d ∈ t.declarations) => d.ofRecord?_toJson
  obtain ⟨names, declarations⟩ := t
  cases names with
  | none => simp [RestoreTable.ofRecord?, RestoreTable.toJson, memberIf, record?, field?, defaulted?, optional?, hmethods]
  | some names =>
    have hnames := nullable?_eq_some (by simp [strings]) (list?_strings names)
    simp [RestoreTable.ofRecord?, RestoreTable.toJson, memberIf, record?, field?, defaulted?, optional?, hnames,
      hmethods]

/-! ## their documents can be written -/

namespace Json

section
variable {d : Nat} {xs : List Json} {ms : List (String × Json)}

@[simp] theorem fits_null : Fits d .null := .null
@[simp] theorem fits_bool (b : Bool) : Fits d (.bool b) := .bool b
@[simp] theorem fits_str (s : String) : Fits d (.str s) := .str s
@[simp] theorem fits_ofInt (n : Int) : Fits d (.ofInt n) := .num (Token.isNumber_integer n)
@[simp] theorem fits_ofNat (n : Nat) : Fits d (.ofNat n) := fits_ofInt n

@[simp] theorem fits_arr : Fits (d + 1) (.arr xs) ↔ ∀ x ∈ xs, Fits d x := by
  refine ⟨fun h => ?_, .arr⟩
  cases h with
  | arr h => exact h

@[simp] theorem fits_obj : Fits (d + 1) (.obj ms) ↔ ∀ m ∈ ms, Fits d m.2 := by
  refine ⟨fun h => ?_, .obj⟩
  cases h with
  | obj h => exact h

end

end Json

section
variable {d : Nat}

@[simp] theorem Label.fits (l : Label) : l.toJson.Fits d := fits_ofNat _
@[simp] theorem Kind.fits (k : Kind) : k.toJson.Fits d := .str _

@[simp] theorem MethodId.fits (m : MethodId) : m.toJson.Fits (d + 1) := by simp [MethodId.toJson]
@[simp] theorem FieldRef.fits (f : FieldRef) : f.toJson.Fits (d + 1) := by simp [FieldRef.toJson]

theorem fits_floatJson {number : Option String} (h : ∀ t ∈ number, Token.isNumber t.toList) :
    (Insn.floatJson number).Fits d := by
  cases number with
  | none => exact .null
  | some t => exact .num (h t rfl)

@[simp] theorem fits_single (x : Float32) : (Insn.floatJson (Decimal.jsonSingle? x)).Fits d := by
  refine fits_floatJson fun t ht => ?_
  unfold Decimal.jsonSingle? at ht
  split at ht
  · obtain rfl := Option.some.inj ht
    exact Token.isNumber_finite _ _ _ _ _
  · exact absurd ht (by simp)

@[simp] theorem fits_double (x : Float) : (Insn.floatJson (Decimal.jsonDouble? x)).Fits d := by
  refine fits_floatJson fun t ht => ?_
  unfold Decimal.jsonDouble? at ht
  split at ht
  · obtain rfl := Option.some.inj ht
    exact Token.isNumber_finite _ _ _ _ _
  · exact absurd ht (by simp)

@[simp] theorem Insn.fits (i : Insn) : i.toJson.Fits (d + 4) := by
  cases i with
  | ret k => cases k <;> simp [toJson, withArgs]
  | lookupSwitch l cs =>
    have hpairs : ∀ j ∈ cs.map fun c => Json.arr [.ofInt c.1.toInt, c.2.toJson], j.Fits (d + 1) := by
      intro j hj
      obtain ⟨c, -, rfl⟩ := List.mem_map.1 hj
      simp
    simpa [toJson, withArgs] using hpairs
  | _ => simp [toJson, bare, withArgs, slotJson]

@[simp] theorem fits_strings (xs : List String) : (strings xs).Fits (d + 1) := by simp [strings]

@[simp] theorem TryCatch.fits (t : TryCatch) : t.toJson.Fits (d + 1) := by
  obtain ⟨start, stop, handler, catchType⟩ := t
  cases catchType <;> simp [TryCatch.toJson, memberIf]

@[simp] theorem LocalVar.fits (v : LocalVar) : v.toJson.Fits (d + 1) := by simp [LocalVar.toJson]

@[simp] theorem Method.fits (m : Method) : m.toJson.Fits (d + 6) := by simp [Method.toJson]

@[simp] theorem Field.fits (f : Field) : f.toJson.Fits (d + 1) := by simp [Field.toJson]

@[simp] theorem ClassDef.fits (c : ClassDef) : c.toJson.Fits (d + 8) := by
  obtain ⟨name, superName, interfaces, fields, methods⟩ := c
  cases superName <;> cases interfaces <;> simp [ClassDef.toJson, memberIf]

theorem Program.fits (p : Program) : p.toJson.Fits (d + 10) := by
  have hclasses : ∀ m ∈ p.classes.map fun e => (e.1, e.2.toJson), m.2.Fits (d + 8) := by
    intro m hm
    obtain ⟨e, -, rfl⟩ := List.mem_map.1 hm
    exact e.2.fits
  rw [Program.toJson, fits_obj]
  simpa using hclasses

@[simp] theorem RestorePoint.fits (r : RestorePoint) : r.toJson.Fits (d + 1) := by
  obtain ⟨name, desc, owner, patchable⟩ := r
  by_cases hdesc : desc = "" <;> by_cases howner : owner = "" <;> cases patchable <;>
    simp [RestorePoint.toJson, textIf, memberIf, hdesc, howner]

@[simp] theorem Declaration.fits (r : Declaration) : r.toJson.Fits (d + 3) := by
  obtain ⟨owner, name, desc, entry, points⟩ := r
  by_cases hdesc : desc = "" <;> cases entry <;> simp [Declaration.toJson, textIf, memberIf, hdesc]

theorem RestoreTable.fits (t : RestoreTable) : t.toJson.Fits (d + 5) := by
  obtain ⟨names, declarations⟩ := t
  cases names <;> simp [RestoreTable.toJson, memberIf]

end

/-! ## there and back -/

/-- Programs and tables are read back from their texts, in either layout: a program whose classes stand in increasing
order of their keys and whose floating constants are read back from their numbers, and every table. -/
theorem stored_round_trip :
    (∀ p : Program, p.Sorted → p.ReadsBack →
      (Json.read? p.toJson.compact).bind Program.ofJson? = some p ∧
      (Json.read? p.toJson.pretty).bind Program.ofJson? = some p) ∧
    ∀ t : RestoreTable,
      RestoreTable.parse? .json t.toJson.compact = some t ∧ RestoreTable.parse? .json t.toJson.pretty = some t := by
  refine ⟨?_, ?_⟩
  · intro p hsorted hfloats
    have hfits : p.toJson.Fits maxDepth := p.fits (d := 117)
    have hmodel := Program.ofJson?_toJson hsorted hfloats
    constructor
    · rw [read?_compact hfits, Option.bind_some, hmodel]
    · rw [read?_pretty hfits, Option.bind_some, hmodel]
  · intro t
    have hfits : t.toJson.Fits maxDepth := t.fits (d := 122)
    have hmodel := t.ofRecord?_toJson
    constructor
    · rw [RestoreTable.parse?, read?_compact hfits, Option.bind_some, hmodel]
    · rw [RestoreTable.parse?, read?_pretty hfits, Option.bind_some, hmodel]

namespace Demo

/-- a class with nothing above it whose method has floating constants, a switch without cases, a range that catches
everything and a return without a value -/
def measures : Program := ⟨[("Measures", {
  name := "Measures", superName := none, interfaces := [], fields := [],
  methods := [{
    name := "run", desc := "()V", isStatic := true, maxLocals := 2,
    code := [.label ⟨0⟩, .doubleConst 1.5, .store .double 0, .floatConst (-0.25), .pop, .intConst 7,
      .lookupSwitch ⟨1⟩ [], .label ⟨1⟩, .ret none],
    tryCatches := [⟨⟨0⟩, ⟨1⟩, ⟨1⟩, none⟩], localVars := [] }] })]⟩

theorem double?_measure : double? (.num "1.5") = some 1.5 := by
  have hscale : Number.scale? (Number.rounded 15) (-1) = some 1.5 := by
    rw [Number.scale?]
    decide +kernel
  show (Number.scale? (Number.rounded 15) (-1)).map (fun x => x) = _
  rw [hscale, Option.map_some]

theorem single?_measure : single? (.num "-0.25") = some (-0.25) := by
  have hscale : Number.scale? (Number.rounded 25) (-2) = some 0.25 := by
    rw [Number.scale?]
    decide +kernel
  have hdouble : double? (.num "-0.25") = some (-0.25) := by
    show (Number.scale? (Number.rounded 25) (-2)).map (fun x => -x) = _
    rw [hscale, Option.map_some]
  rw [single?, if_neg (by decide +kernel), hdouble]
  decide +kernel

theorem readsBack_measures : measures.ReadsBack := by
  have hdouble : Insn.ReadsBack (.doubleConst 1.5) := ⟨"1.5", by decide +kernel, double?_measure⟩
  have hsingle : Insn.ReadsBack (.floatConst (-0.25)) := ⟨"-0.25", by decide +kernel, single?_measure⟩
  intro e he m hm i hi
  obtain rfl := List.mem_singleton.1 he
  obtain rfl := List.mem_singleton.1 hm
  simp only [List.mem_cons, List.not_mem_nil, or_false] at hi
  rcases hi with rfl | rfl | rfl | rfl | rfl | rfl | rfl | rfl | rfl
  case inr.inl => exact hdouble
  case inr.inr.inr.inl => exact hsingle
  all_goals trivial

/-- the program is read back -/
theorem stored_round_trip_measures : measures.Sorted ∧ measures.ReadsBack ∧
    (Json.read? measures.toJson.compact).bind Program.ofJson? = some measures ∧
    (Json.read? measures.toJson.pretty).bind Program.ofJson? = some measures := by
  have hsorted : measures.Sorted := List.pairwise_singleton _ _
  exact ⟨hsorted, readsBack_measures, stored_round_trip.1 measures hsorted readsBack_measures⟩

end Demo

end Resumable
