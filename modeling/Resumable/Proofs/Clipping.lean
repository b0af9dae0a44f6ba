import Resumable.Proofs.Found
import Resumable.Machine.Step

/-!
# Clipped regions

Clipping takes nothing from a region but what lies in excluded ranges, however often it is done, and
cuts only at the ends of regions and of excluded ranges.  All of these are positions of labels, so each
piece that protects an instruction becomes an entry of the table.

* `Region.Has` : a position lies in a region;
* `Region.pieces_has` : a position that is not excluded lies in a piece if it lies in the region;
* `splitRegion_ok` : the entries that remain of one entry;
* `findHandler_split` : the handler that is found in the table that remains.
-/

namespace Resumable
namespace Region

/-- a position lies in a region -/
def Has (r : Region) (q : Nat) : Prop := r.start ≤ q ∧ q < r.stop

/-- the ends of a region are such positions -/
def Ends (ok : Nat → Prop) (r : Region) : Prop := ok r.start ∧ ok r.stop

section
variable {r ex : Region} {exs rs : List Region} {q : Nat} {ok : Nat → Prop}

/-- what a clip leaves of a region has the same positions, but for those that are excluded -/
def Clip.Has : Clip → Region → Nat → Prop
  | .keep, r, q => r.Has q
  | .split a b, _, q => a.Has q ∨ b.Has q
  | .trim a, _, q => a.Has q
  | .inside, _, _ => False

def Clip.Ends (ok : Nat → Prop) : Clip → Prop
  | .keep => True
  | .split a b => Region.Ends ok a ∧ Region.Ends ok b
  | .trim a => Region.Ends ok a
  | .inside => True

theorem clip_has (hq : ¬ ex.Has q) : (r.clip ex).Has r q ↔ r.Has q := by
  unfold Has at hq
  unfold clip
  split
  · exact Iff.rfl
  · rename_i hmeet
    by_cases h1 : r.start < ex.start <;> by_cases h2 : ex.stop < r.stop <;>
      simp only [h1, h2, decide_true, decide_false, Clip.Has, Has, false_iff] <;> omega

theorem clip_ends (hr : r.Ends ok) (hex : ex.Ends ok) : (r.clip ex).Ends ok := by
  unfold clip
  split
  · trivial
  · by_cases h1 : r.start < ex.start <;> by_cases h2 : ex.stop < r.stop <;>
      simp only [h1, h2, decide_true, decide_false, Clip.Ends, Ends]
    · exact ⟨⟨hr.1, hex.1⟩, hex.2, hr.2⟩
    · exact ⟨hr.1, hex.1⟩
    · exact ⟨hex.2, hr.2⟩

theorem firstClip_has (hq : ∀ ex ∈ exs, ¬ ex.Has q) : (r.firstClip exs).Has r q ↔ r.Has q := by
  induction exs with
  | nil => exact Iff.rfl
  | cons ex exs ih =>
    rw [firstClip]
    split
    · exact ih fun ex hex => hq ex (List.mem_cons_of_mem _ hex)
    · exact clip_has (hq ex List.mem_cons_self)

theorem firstClip_ends (hr : r.Ends ok) (hexs : ∀ ex ∈ exs, ex.Ends ok) :
    (r.firstClip exs).Ends ok := by
  induction exs with
  | nil => trivial
  | cons ex exs ih =>
    rw [firstClip]
    split
    · exact ih fun ex hex => hexs ex (List.mem_cons_of_mem _ hex)
    · exact clip_ends hr (hexs ex List.mem_cons_self)

/-- a position that is not excluded lies in a piece exactly if it lies in the region -/
theorem piecesFrom_has {fuel : Nat} (hq : ∀ ex ∈ exs, ¬ ex.Has q)
    (h : piecesFrom exs fuel r = some rs) : (∃ s ∈ rs, s.Has q) ↔ r.Has q := by
  induction fuel generalizing r rs with
  | zero =>
    obtain rfl : [r] = rs := by simpa [piecesFrom] using h
    simp
  | succ fuel ih =>
    have hclip := firstClip_has (r := r) hq
    rw [piecesFrom] at h
    split at h
    · obtain rfl : [r] = rs := by simpa using h
      simp
    · rename_i a b hsplit
      rw [hsplit] at hclip
      obtain ⟨left, hleft, h⟩ := Option.bind_eq_some_iff.1 h
      obtain ⟨right, hright, h⟩ := Option.bind_eq_some_iff.1 h
      obtain rfl : left ++ right = rs := by simpa using h
      rw [← hclip]
      show _ ↔ a.Has q ∨ b.Has q
      rw [← ih hleft, ← ih hright]
      simp only [List.mem_append, or_and_right, exists_or]
    · rename_i a htrim
      rw [htrim] at hclip
      rw [← hclip]
      exact ih h
    · exact absurd h (by simp)

theorem piecesFrom_ends {fuel : Nat} (hr : r.Ends ok) (hexs : ∀ ex ∈ exs, ex.Ends ok)
    (h : piecesFrom exs fuel r = some rs) : ∀ s ∈ rs, s.Ends ok := by
  induction fuel generalizing r rs with
  | zero =>
    obtain rfl : [r] = rs := by simpa [piecesFrom] using h
    simpa using hr
  | succ fuel ih =>
    have hclip := firstClip_ends hr hexs
    rw [piecesFrom] at h
    split at h
    · obtain rfl : [r] = rs := by simpa using h
      simpa using hr
    · rename_i a b hsplit
      rw [hsplit] at hclip
      obtain ⟨left, hleft, h⟩ := Option.bind_eq_some_iff.1 h
      obtain ⟨right, hright, h⟩ := Option.bind_eq_some_iff.1 h
      obtain rfl : left ++ right = rs := by simpa using h
      intro s hs
      rcases List.mem_append.1 hs with hs | hs
      · exact ih hclip.1 hleft s hs
      · exact ih hclip.2 hright s hs
    · rename_i a htrim
      rw [htrim] at hclip
      exact ih hclip h
    · exact absurd h (by simp)

theorem mem_insertByStart {s t : Region} : s ∈ insertByStart t rs ↔ s = t ∨ s ∈ rs := by
  induction rs with
  | nil => simp [insertByStart]
  | cons u us ih =>
    rw [insertByStart]
    split
    · rw [List.mem_cons]
    · rw [List.mem_cons, ih, List.mem_cons]
      grind

theorem mem_sortByStart {s : Region} : s ∈ sortByStart rs ↔ s ∈ rs := by
  induction rs with
  | nil => exact Iff.rfl
  | cons t ts ih =>
    show s ∈ insertByStart t (sortByStart ts) ↔ _
    rw [mem_insertByStart, ih, List.mem_cons]

/-- **Clipping** takes only what is excluded, and cuts only at ends -/
theorem pieces_has (ok : Nat → Prop) {length : Nat} (h : pieces exs length r = some rs) :
    ((∀ ex ∈ exs, ¬ ex.Has q) → ((∃ s ∈ rs, s.Has q) ↔ r.Has q)) ∧
    (r.Ends ok → (∀ ex ∈ exs, ex.Ends ok) → ∀ s ∈ rs, s.Ends ok) := by
  unfold pieces at h
  obtain ⟨ps, hps, rfl⟩ := Option.map_eq_some_iff.1 h
  refine ⟨fun hq => ?_, fun hr hexs s hs => ?_⟩
  · rw [← piecesFrom_has hq hps]
    simp only [mem_sortByStart]
  · exact piecesFrom_ends hr hexs hps s (mem_sortByStart.1 hs)

end

end Region

/-! ## what an entry protects -/

/-- a label stands at the position, and is found there -/
def Marked (code : List Insn) (n : Nat) : Prop := ∃ l, labelPosition l code = some n

/-- an entry of a table protects a position -/
def TryCatch.Protects (t : TryCatch) (code : List Insn) (q : Nat) : Prop :=
  ∃ start stop, labelPosition t.start code = some start ∧ labelPosition t.stop code = some stop ∧
    start ≤ q ∧ q < stop

/-- a label stands in the code -/
def Defines (code : List Insn) (l : Label) : Prop := ∃ n, labelPosition l code = some n

/-- the entries take the place of another one wherever `kept` says so -/
structure Replaces (code : List Insn) (t : TryCatch) (es : List TryCatch) (kept : Nat → Prop)
    (has : Nat → Prop) : Prop where
  handler : ∀ e ∈ es, e.handler = t.handler ∧ e.catchType = t.catchType
  defined : ∀ e ∈ es, Defines code e.start ∧ Defines code e.stop
  protects : ∀ q, kept q → ((∃ e ∈ es, e.Protects code q) ↔ has q)

section
variable {code : List Insn} {t : TryCatch} {es : List TryCatch} {r : Region} {n q : Nat}

/-- what an entry protects is the region between its labels -/
theorem TryCatch.protects_iff {start stop : Nat} (hstart : labelPosition t.start code = some start)
    (hstop : labelPosition t.stop code = some stop) : t.Protects code q ↔ Region.Has ⟨start, stop⟩ q := by
  simp only [Protects, hstart, hstop, Option.some.injEq]
  constructor
  · rintro ⟨_, _, rfl, rfl, hq⟩
    exact hq
  · exact fun hq => ⟨_, _, rfl, rfl, hq⟩

theorem Marked.labelAt? (h : Marked code n) :
    ∃ l, Resumable.labelAt? code n = some l ∧ labelPosition l code = some n := by
  obtain ⟨l, hl⟩ := h
  refine ⟨l, ?_, hl⟩
  unfold Resumable.labelAt?
  rw [getElem?_of_labelPosition hl]
  simp [Insn.label?, hl]

/-- a region with an instruction in it protects code -/
theorem protectsCode_of_has {i : Insn} (hq : r.Has q) (hi : code[q]? = some i)
    (hl : i.isLabel = false) : protectsCode code r = true := by
  unfold protectsCode
  rw [List.any_eq_true]
  refine ⟨i, ?_, by rw [hl]; rfl⟩
  obtain ⟨h1, h2⟩ := hq
  refine List.mem_iff_getElem?.2 ⟨q - r.start, ?_⟩
  rw [List.getElem?_take_of_lt (by omega), List.getElem?_drop]
  rwa [show r.start + (q - r.start) = q by omega]

/-- an instruction stands at the position -/
def Occupied (code : List Insn) (q : Nat) : Prop := ∃ i, code[q]? = some i ∧ i.isLabel = false

/-- a piece becomes an entry, unless it protects nothing -/
theorem pieceEntry_ok (h : pieceEntry code t r = .ok es) (hr : r.Ends (Marked code)) :
    Replaces code t es (Occupied code) r.Has := by
  unfold pieceEntry at h
  split at h
  · exact absurd h (by simp)
  · split at h
    · obtain ⟨start, hstart, hstart'⟩ := hr.1.labelAt?
      obtain ⟨stop, hstop, hstop'⟩ := hr.2.labelAt?
      rw [hstart, hstop] at h
      obtain rfl : [{ t with start, stop }] = es := by simpa using h
      refine ⟨fun e he => ?_, fun e he => ?_, fun q _ => ?_⟩
      · rw [List.mem_singleton.1 he]
        exact ⟨rfl, rfl⟩
      · rw [List.mem_singleton.1 he]
        exact ⟨⟨_, hstart'⟩, _, hstop'⟩
      · simp only [List.mem_singleton, exists_eq_left]
        exact TryCatch.protects_iff hstart' hstop'
    · rename_i hempty
      obtain rfl : [] = es := by simpa using h
      refine ⟨fun e he => absurd he (by simp), fun e he => absurd he (by simp), fun q hq => ?_⟩
      obtain ⟨i, hi, hl⟩ := hq
      constructor
      · rintro ⟨e, he, -⟩
        exact absurd he (by simp)
      · exact fun hq => absurd (protectsCode_of_has hq hi hl) hempty

/-- the entries of all pieces -/
theorem collectEntries_pieces {rs : List Region}
    (h : collectEntries (pieceEntry code t) rs = .ok es) (hr : ∀ r ∈ rs, r.Ends (Marked code)) :
    Replaces code t es (Occupied code) fun q => ∃ r ∈ rs, r.Has q := by
  induction rs generalizing es with
  | nil =>
    obtain rfl : [] = es := by simpa [collectEntries] using h
    exact ⟨fun e he => absurd he (by simp), fun e he => absurd he (by simp), fun q _ => by simp⟩
  | cons r rs ih =>
    rw [collectEntries] at h
    obtain ⟨first, hfirst, h⟩ := Effect.bind_eq_ok h
    obtain ⟨others, hothers, h⟩ := Effect.bind_eq_ok h
    obtain rfl : first ++ others = es := by simpa using h
    have h1 := pieceEntry_ok hfirst (hr r List.mem_cons_self)
    have h2 := ih hothers fun r hmem => hr r (List.mem_cons_of_mem _ hmem)
    refine ⟨fun e he => ?_, fun e he => ?_, fun q hq => ?_⟩
    · exact (List.mem_append.1 he).elim (h1.handler e) (h2.handler e)
    · exact (List.mem_append.1 he).elim (h1.defined e) (h2.defined e)
    · have hfirst := h1.protects q hq
      have hothers := h2.protects q hq
      simp only [List.mem_append, or_and_right, exists_or, List.mem_cons, exists_eq_left]
      rw [hfirst, hothers]

/-- a position is in no excluded range -/
def Outside (excluded : List Region) (q : Nat) : Prop := ∀ ex ∈ excluded, ¬ ex.Has q

theorem regionPosition_ok {l : Label} {n : Nat} (h : regionPosition code l = .ok n) :
    labelPosition l code = some n := by
  unfold regionPosition at h
  split at h
  · rename_i n' hn
    rw [hn, Except.ok.inj h]
  · exact absurd h (by simp)

/-- **The entries that remain of one entry** take its place outside of what is excluded -/
theorem splitRegion_ok {excluded : List Region} (h : splitRegion code excluded t = .ok es)
    (hexcluded : ∀ ex ∈ excluded, ex.Ends (Marked code)) :
    Replaces code t es (fun q => Occupied code q ∧ Outside excluded q) (t.Protects code) := by
  unfold splitRegion at h
  obtain ⟨start, hstart, h⟩ := Effect.bind_eq_ok h
  obtain ⟨stop, hstop, h⟩ := Effect.bind_eq_ok h
  have hstart := regionPosition_ok hstart
  have hstop := regionPosition_ok hstop
  split at h
  · exact absurd h (by simp)
  · rename_i rs hrs
    obtain ⟨hhas, hends⟩ := And.intro
      (fun q => (Region.pieces_has (q := q) (Marked code) hrs).1)
      (Region.pieces_has (q := 0) (Marked code) hrs).2
    have hpieces := collectEntries_pieces h (hends ⟨⟨_, hstart⟩, _, hstop⟩ hexcluded)
    refine ⟨hpieces.handler, hpieces.defined, fun q hq => ?_⟩
    rw [hpieces.protects q hq.1, hhas q hq.2, TryCatch.protects_iff hstart hstop]

end

/-! ## handlers -/

section
variable {code : List Insn} {p : Program} {type : String} {t : TryCatch} {ts es : List TryCatch}
  {q n : Nat}

theorem positionOf_ok {l : Label} (h : labelPosition l code = some n) :
    positionOf code l = .ok n := by
  unfold positionOf
  rw [h]

/-- an entry that protects the position and accepts what is thrown -/
theorem findHandler_hit (hq : t.Protects code q) (ht : t.accepts p type = true)
    (hn : labelPosition t.handler code = some n) :
    findHandler p code q type (t :: ts) = .ok (some n) := by
  obtain ⟨start, stop, hstart, hstop, h1, h2⟩ := hq
  rw [findHandler, positionOf_ok hstart, positionOf_ok hstop]
  show (if _ then _ else _) = _
  rw [if_pos (by simp [h1, h2, ht]), positionOf_ok hn]
  rfl

/-- an entry that does not -/
theorem findHandler_miss (hdefined : Defines code t.start ∧ Defines code t.stop)
    (h : ¬ (t.Protects code q ∧ t.accepts p type = true)) :
    findHandler p code q type (t :: ts) = findHandler p code q type ts := by
  obtain ⟨⟨start, hstart⟩, stop, hstop⟩ := hdefined
  rw [findHandler, positionOf_ok hstart, positionOf_ok hstop]
  show (if _ then _ else _) = _
  rw [if_neg]
  intro hall
  simp only [Bool.and_eq_true, decide_eq_true_eq] at hall
  exact h ⟨⟨start, stop, hstart, hstop, hall.1⟩, hall.2⟩

/-- entries of which one catches what is thrown, and all that do so lead to one place -/
theorem findHandler_entries_hit (hdefined : ∀ e ∈ es, Defines code e.start ∧ Defines code e.stop)
    (hn : ∀ e ∈ es, e.Protects code q → labelPosition e.handler code = some n)
    (hq : ∃ e ∈ es, e.Protects code q ∧ e.accepts p type = true) :
    findHandler p code q type (es ++ ts) = .ok (some n) := by
  induction es with
  | nil => exact absurd hq (by simp)
  | cons e es ih =>
    by_cases he : e.Protects code q ∧ e.accepts p type = true
    · exact findHandler_hit he.1 he.2 (hn e List.mem_cons_self he.1)
    · rw [List.cons_append, findHandler_miss (hdefined e List.mem_cons_self) he]
      refine ih (fun e he => hdefined e (List.mem_cons_of_mem _ he))
        (fun e he => hn e (List.mem_cons_of_mem _ he)) ?_
      obtain ⟨e', hmem, hcatches⟩ := hq
      rcases List.mem_cons.1 hmem with rfl | hmem
      · exact absurd hcatches he
      · exact ⟨e', hmem, hcatches⟩

/-- entries that pass by what is thrown -/
theorem findHandler_entries_miss (hdefined : ∀ e ∈ es, Defines code e.start ∧ Defines code e.stop)
    (h : ∀ e ∈ es, ¬ (e.Protects code q ∧ e.accepts p type = true)) :
    findHandler p code q type (es ++ ts) = findHandler p code q type ts := by
  induction es with
  | nil => rfl
  | cons e es ih =>
    rw [List.cons_append, findHandler_miss (hdefined e List.mem_cons_self) (h e List.mem_cons_self)]
    exact ih (fun e he => hdefined e (List.mem_cons_of_mem _ he))
      fun e he => h e (List.mem_cons_of_mem _ he)

end

/-- the handler that is found belongs to an entry that protects the position and accepts what is thrown -/
theorem findHandler_found {code : List Insn} {pr : Program} {type : String} {ts : List TryCatch}
    {q n : Nat} (h : findHandler pr code q type ts = .ok (some n)) :
    ∃ t ∈ ts, t.Protects code q ∧ labelPosition t.handler code = some n ∧
      t.accepts pr type = true := by
  have hposition {l : Label} {n : Nat} (hl : positionOf code l = .ok n) :
      labelPosition l code = some n := by
    unfold positionOf at hl
    split at hl
    · rename_i n' hn
      injection hl with hl
      rw [hn, hl]
    · exact absurd hl (by simp)
  induction ts with
  | nil => exact absurd h (by simp [findHandler])
  | cons t ts ih =>
    rw [findHandler] at h
    obtain ⟨start, hstart, h⟩ := Effect.bind_eq_ok h
    obtain ⟨stop, hstop, h⟩ := Effect.bind_eq_ok h
    split at h
    · rename_i hin
      simp only [Bool.and_eq_true, decide_eq_true_eq] at hin
      obtain ⟨n', hn', h⟩ := Effect.bind_eq_ok h
      obtain rfl : n' = n := by simpa [pure, Except.pure] using h
      exact ⟨t, List.mem_cons_self, ⟨start, stop, hposition hstart, hposition hstop, hin.1⟩,
        hposition hn', hin.2⟩
    · obtain ⟨t', ht', hfound⟩ := ih h
      exact ⟨t', List.mem_cons_of_mem _ ht', hfound⟩

/-- entries whose labels stand in the code lead to a handler or to none -/
theorem findHandler_defined {code : List Insn} {pr : Program} {type : String} {ts : List TryCatch}
    {q : Nat} (h : ∀ t ∈ ts, Defines code t.start ∧ Defines code t.stop ∧ Defines code t.handler) :
    ∃ found, findHandler pr code q type ts = .ok found := by
  induction ts with
  | nil => exact ⟨none, rfl⟩
  | cons t ts ih =>
    obtain ⟨hstart, hstop, n, hn⟩ := h t List.mem_cons_self
    by_cases ht : t.Protects code q ∧ t.accepts pr type = true
    · exact ⟨_, findHandler_hit ht.1 ht.2 hn⟩
    · rw [findHandler_miss ⟨hstart, hstop⟩ ht]
      exact ih fun t ht => h t (List.mem_cons_of_mem _ ht)

/-- what is known about a position of woven code and the one of the method that it belongs to -/
structure SameHandlers (code woven : List Insn) (p q : Nat) (place : Nat → Nat)
    (excluded : List Region) (ts : List TryCatch) : Prop where
  occupied : Occupied woven q
  outside : Outside excluded q
  defined : ∀ t ∈ ts, Defines code t.start ∧ Defines code t.stop
  handler : ∀ t ∈ ts, ∃ n, labelPosition t.handler code = some n ∧
    labelPosition t.handler woven = some (place n)
  protects : ∀ t ∈ ts, t.Protects woven q ↔ t.Protects code p

/-- **The handler that is found** in the table of woven code is the one found before -/
theorem findHandler_split {code woven : List Insn} {pr pr' : Program} {type : String}
    {ts table : List TryCatch} {p q : Nat} {place : Nat → Nat} {excluded : List Region}
    (hpr : ∀ a b, pr'.isAssignable a b = pr.isAssignable a b)
    (h : collectEntries (splitRegion woven excluded) ts = .ok table)
    (hexcluded : ∀ ex ∈ excluded, ex.Ends (Marked woven))
    (hs : SameHandlers code woven p q place excluded ts) :
    findHandler pr' woven q type table =
      (findHandler pr code p type ts).map (Option.map place) := by
  induction ts generalizing table with
  | nil =>
    obtain rfl : [] = table := by simpa [collectEntries] using h
    rfl
  | cons t ts ih =>
    rw [collectEntries] at h
    obtain ⟨es, hes, h⟩ := Effect.bind_eq_ok h
    obtain ⟨others, hothers, h⟩ := Effect.bind_eq_ok h
    obtain rfl : es ++ others = table := by simpa using h
    have hrest := ih hothers ⟨hs.occupied, hs.outside,
      fun t ht => hs.defined t (List.mem_cons_of_mem _ ht),
      fun t ht => hs.handler t (List.mem_cons_of_mem _ ht),
      fun t ht => hs.protects t (List.mem_cons_of_mem _ ht)⟩
    have hsplit := splitRegion_ok hes hexcluded
    have hprotects := hsplit.protects q ⟨hs.occupied, hs.outside⟩
    rw [hs.protects t List.mem_cons_self] at hprotects
    obtain ⟨n, hn, hn'⟩ := hs.handler t List.mem_cons_self
    have haccepts (e : TryCatch) (he : e.catchType = t.catchType) :
        e.accepts pr' type = t.accepts pr type := by
      unfold TryCatch.accepts
      rw [he]
      split <;> simp [hpr]
    by_cases hboth : t.Protects code p ∧ t.accepts pr type = true
    · obtain ⟨e, he, hprotects⟩ := hprotects.2 hboth.1
      rw [findHandler_hit hboth.1 hboth.2 hn, findHandler_entries_hit hsplit.defined
        (fun e he _ => by rw [(hsplit.handler e he).1, hn'])
        ⟨e, he, hprotects, by rw [haccepts e (hsplit.handler e he).2]; exact hboth.2⟩]
      rfl
    · rw [findHandler_miss (hs.defined t List.mem_cons_self) hboth, findHandler_entries_miss
        hsplit.defined ?_, hrest]
      rintro e he ⟨he1, he2⟩
      rw [haccepts e (hsplit.handler e he).2] at he2
      exact hboth ⟨hprotects.1 ⟨e, he, he1⟩, he2⟩

end Resumable
