import Mathlib.Data.List.Forall2
import Mathlib.Data.List.TakeWhile
import Resumable.Descriptor

/-!
# The grammar of descriptors

A field descriptor is known at its end: none is the beginning of another one.  So a text has at most one field
descriptor at its head, and a sequence of them can be taken apart in one way only.

* `FieldType.Denotes` : field descriptors and the types that they stand for;
* `FieldType.read?_eq_some_iff` : reading takes exactly a field descriptor off a text;
* `MethodDesc.Denotes` : method descriptors, taken apart;
* `MethodDesc.parse?_eq_some_iff` : they are read exactly;
* `MethodDesc.Denotes.unique` : they can be taken apart in one way.
-/

namespace Resumable

/-! ## the part of a text before a separator -/

section
variable {cs before : List Char} {sep : Char}

theorem takeWhile_before (free : sep ∉ before) (r : List Char) :
    (before ++ sep :: r).takeWhile (· != sep) = before := by
  rw [List.takeWhile_append_of_pos fun c hc => bne_iff_ne.2 (ne_of_mem_of_not_mem hc free)]
  simp

theorem dropWhile_before (free : sep ∉ before) (r : List Char) :
    (before ++ sep :: r).dropWhile (· != sep) = sep :: r := by
  rw [List.dropWhile_append_of_pos fun c hc => bne_iff_ne.2 (ne_of_mem_of_not_mem hc free)]
  simp

/-- what is left of a text begins at its first separator -/
theorem exists_of_dropWhile {c : Char} {r : List Char} (h : cs.dropWhile (· != sep) = c :: r) :
    ∃ before, cs.takeWhile (· != sep) = before ∧ sep ∉ before ∧ cs = before ++ sep :: r := by
  obtain rfl : c = sep := by
    have hfirst := List.head?_dropWhile_not (· != sep) cs
    rw [h] at hfirst
    simpa using hfirst
  refine ⟨_, rfl, fun hmem => by simpa using List.mem_takeWhile_imp hmem, ?_⟩
  rw [← h, List.takeWhile_append_dropWhile]

end

/-! ## field descriptors -/

namespace FieldType

/-- a field descriptor stands for a type -/
inductive Denotes : List Char → FieldType → Prop
  /-- the small integer types are integers -/
  | int (c : Char) (letter : c ∈ ['Z', 'B', 'C', 'S', 'I']) : Denotes [c] .int
  | long : Denotes ['J'] .long
  | float : Denotes ['F'] .float
  | double : Denotes ['D'] .double
  /-- a class, by its name -/
  | object (name : List Char) (ne : name ≠ []) (free : ';' ∉ name) :
    Denotes ('L' :: (name ++ [';'])) (.ref (String.ofList name))
  /-- an array, by its whole descriptor -/
  | array {elem : List Char} {t : FieldType} (h : Denotes elem t) :
    Denotes ('[' :: elem) (.ref (String.ofList ('[' :: elem)))

variable {cs x y r r' : List Char} {t u : FieldType}

/-- **A field descriptor at the head of a text** is read -/
theorem Denotes.read? (h : Denotes x t) (r : List Char) : FieldType.read? (x ++ r) = some ⟨t, x, r⟩ := by
  induction h with
  | int c letter =>
    simp only [List.mem_cons, List.not_mem_nil, or_false] at letter
    rcases letter with rfl | rfl | rfl | rfl | rfl <;> rfl
  | long => rfl
  | float => rfl
  | double => rfl
  | object name ne free =>
    have htext : 'L' :: (name ++ [';']) ++ r = 'L' :: (name ++ ';' :: r) := by simp
    rw [htext, FieldType.read?]
    simp only [takeWhile_before free, dropWhile_before free, List.isEmpty_iff, ne, if_false]
    rfl
  | array _ ih =>
    rw [List.cons_append, FieldType.read?, ih]

/-- **What is read** is a field descriptor -/
theorem denotes_of_read? {d : Read} (h : FieldType.read? cs = some d) :
    cs = d.text ++ d.rest ∧ Denotes d.text d.type := by
  fun_induction FieldType.read? cs generalizing d
  case case2 | case3 | case4 | case5 | case6 =>
    obtain rfl := Option.some.inj h
    exact ⟨rfl, .int _ (by decide)⟩
  case case7 =>
    obtain rfl := Option.some.inj h
    exact ⟨rfl, .long⟩
  case case8 =>
    obtain rfl := Option.some.inj h
    exact ⟨rfl, .float⟩
  case case9 =>
    obtain rfl := Option.some.inj h
    exact ⟨rfl, .double⟩
  case case11 r name head rest hdrop hname =>
    obtain rfl := Option.some.inj h
    obtain ⟨_, rfl, hfree, hr⟩ := exists_of_dropWhile hdrop
    refine ⟨?_, .object name (by simpa using hname) hfree⟩
    show 'L' :: r = 'L' :: (name ++ [';'] ++ rest)
    rw [List.append_assoc]
    exact congrArg ('L' :: ·) hr
  case case13 r elem helem ih =>
    obtain rfl := Option.some.inj h
    obtain ⟨hr, hdenotes⟩ := ih helem
    exact ⟨congrArg ('[' :: ·) hr, .array hdenotes⟩
  all_goals exact nomatch h

/-- reading takes exactly a field descriptor off a text -/
theorem read?_eq_some_iff : FieldType.read? cs = some ⟨t, x, r⟩ ↔ cs = x ++ r ∧ Denotes x t :=
  ⟨denotes_of_read?, fun ⟨hcs, h⟩ => hcs ▸ h.read? r⟩

/-- **No field descriptor is the beginning of another one** -/
theorem Denotes.unique (h : Denotes x t) (h' : Denotes y u) (heq : x ++ r = y ++ r') : x = y ∧ t = u ∧ r = r' := by
  have hread := (h.read? r).symm.trans ((congrArg FieldType.read? heq).trans (h'.read? r'))
  obtain ⟨rfl, rfl, rfl⟩ := Read.mk.inj (Option.some.inj hread)
  exact ⟨rfl, rfl, rfl⟩

/-- a field descriptor begins with a character, and not with the end of the parameters -/
theorem Denotes.head (h : Denotes x t) : ∃ c r, x = c :: r ∧ c ≠ ')' := by
  cases h with
  | int c letter => exact ⟨c, [], rfl, fun hc => absurd (hc ▸ letter) (by decide)⟩
  | _ => exact ⟨_, _, rfl, by decide⟩

/-- **A whole field descriptor** is parsed as the type that it stands for -/
theorem parse?_eq_some_iff {s : String} : FieldType.parse? s = some t ↔ Denotes s.toList t := by
  unfold FieldType.parse?
  constructor
  · intro h
    split at h
    · rename_i u x hread
      obtain ⟨hs, hdenotes⟩ := denotes_of_read? hread
      rw [hs, List.append_nil, ← Option.some.inj h]
      exact hdenotes
    · exact nomatch h
  · intro h
    have hread := h.read? []
    rw [List.append_nil] at hread
    rw [hread]

/-- the slots that a type takes -/
theorem Denotes.width (h : Denotes x t) : t.width = if x = ['J'] ∨ x = ['D'] then 2 else 1 := by
  cases h with
  | int c letter =>
    have hne : ¬ ([c] = ['J'] ∨ [c] = ['D']) := by
      simp only [List.mem_cons, List.not_mem_nil, or_false] at letter
      rcases letter with rfl | rfl | rfl | rfl | rfl <;> decide
    rw [if_neg hne]
    rfl
  | long => rfl
  | float => rfl
  | double => rfl
  | object name _ _ => simp [FieldType.width, FieldType.kind, Kind.width]
  | array _ => simp [FieldType.width, FieldType.kind, Kind.width]

end FieldType

/-! ## method descriptors -/

namespace MethodDesc

open FieldType (Read)

/-- what stands for a result -/
inductive Returns : List Char → Option FieldType → Prop
  | void : Returns ['V'] none
  | type {x : List Char} {t : FieldType} (h : FieldType.Denotes x t) : Returns x (some t)

/-- a method descriptor, taken apart into the descriptors of its parameters and its result -/
structure Denotes (cs : List Char) (xs : List (List Char)) (d : MethodDesc) : Prop where
  params : List.Forall₂ FieldType.Denotes xs d.params
  ret : ∃ y, Returns y d.ret ∧ cs = '(' :: (xs.flatten ++ ')' :: y)

variable {cs r r' y : List Char} {xs ys : List (List Char)} {ts us : List FieldType} {d e : MethodDesc} {fuel : Nat}
  {ret : Option FieldType}

theorem result?_eq_some_iff : result? cs = some ret ↔ Returns cs ret := by
  unfold result?
  constructor
  · intro h
    split at h
    · rename_i hcs
      rw [hcs, ← Option.some.inj h]
      exact .void
    · split at h
      · rename_i hread
        obtain ⟨hcs, hdenotes⟩ := FieldType.denotes_of_read? hread
        rw [hcs, List.append_nil, ← Option.some.inj h]
        exact .type hdenotes
      · exact nomatch h
  · intro h
    cases h with
    | void => rfl
    | type h =>
      have hread := h.read? []
      rw [List.append_nil] at hread
      rw [hread, if_neg]
      rintro rfl
      exact nomatch hread

/-- **Field descriptors up to a closing parenthesis** are read as parameters, each with the fuel of one step -/
theorem params?_flatten (h : List.Forall₂ FieldType.Denotes xs ts) (hfuel : xs.length ≤ fuel) :
    params? fuel (xs.flatten ++ ')' :: r) = some (ts, r) := by
  induction h generalizing fuel with
  | nil => simp [params?]
  | @cons x t xs ts hx _ ih =>
    obtain ⟨fuel, rfl⟩ : ∃ n, fuel = n + 1 := ⟨fuel - 1, by simp only [List.length_cons] at hfuel; omega⟩
    have hread : FieldType.read? ((x :: xs).flatten ++ ')' :: r) = some ⟨t, x, xs.flatten ++ ')' :: r⟩ := by
      rw [List.flatten_cons, List.append_assoc]
      exact hx.read? _
    obtain ⟨c, x', rfl, hc⟩ := hx.head
    rw [params?]
    · rw [hread]
      simp only [ih (Nat.le_of_succ_le_succ hfuel), Option.map_some]
    · -- a parameter does not begin as the parameters end
      intro r' heq
      exact hc (List.cons.inj heq).1

/-- **What is read up to the end of the parameters** are field descriptors -/
theorem exists_of_params? (h : params? fuel cs = some (ts, r)) :
    ∃ xs, List.Forall₂ FieldType.Denotes xs ts ∧ cs = xs.flatten ++ ')' :: r := by
  fun_induction params? fuel cs generalizing ts r
  case case1 =>
    obtain ⟨rfl, rfl⟩ := Prod.mk.inj (Option.some.inj h)
    exact ⟨[], .nil, rfl⟩
  case case3 hread ih =>
    obtain ⟨⟨us, r'⟩, hparams, heq⟩ := Option.map_eq_some_iff.1 h
    obtain ⟨rfl, rfl⟩ := Prod.mk.inj heq
    obtain ⟨hcs, hx⟩ := FieldType.denotes_of_read? hread
    obtain ⟨xs, hxs, hrest⟩ := ih hparams
    refine ⟨_ :: xs, .cons hx hxs, ?_⟩
    rw [hcs, hrest, List.flatten_cons, List.append_assoc]
  all_goals exact nomatch h

/-- every parameter takes a character -/
theorem length_le_flatten (h : List.Forall₂ FieldType.Denotes xs ts) : xs.length ≤ xs.flatten.length := by
  induction h with
  | nil => exact Nat.le_refl _
  | cons hx _ ih =>
    obtain ⟨c, x', rfl, -⟩ := hx.head
    simp only [List.length_cons, List.flatten_cons, List.length_append]
    omega

/-- **A whole method descriptor** is parsed as the method that it stands for -/
theorem parse?_eq_some_iff {s : String} : MethodDesc.parse? s = some d ↔ ∃ xs, Denotes s.toList xs d := by
  unfold MethodDesc.parse?
  constructor
  · intro h
    split at h
    · rename_i r hs
      split at h
      · rename_i ts rest hparams
        obtain ⟨ret, hret, rfl⟩ := Option.map_eq_some_iff.1 h
        obtain ⟨xs, hxs, rfl⟩ := exists_of_params? hparams
        exact ⟨xs, hxs, rest, result?_eq_some_iff.1 hret, hs⟩
      · exact nomatch h
    · exact nomatch h
  · rintro ⟨xs, hparams, y, hret, hs⟩
    have hfuel : xs.length ≤ (xs.flatten ++ ')' :: y).length :=
      (length_le_flatten hparams).trans (by simp)
    simp only [hs, params?_flatten hparams hfuel, result?_eq_some_iff.2 hret, Option.map_some]

/-- two sequences of field descriptors up to a closing parenthesis are the same -/
theorem flatten_unique (h : List.Forall₂ FieldType.Denotes xs ts) (h' : List.Forall₂ FieldType.Denotes ys us)
    (heq : xs.flatten ++ ')' :: r = ys.flatten ++ ')' :: r') : xs = ys := by
  induction h generalizing ys us with
  | nil =>
    cases h' with
    | nil => rfl
    | cons hy _ =>
      obtain ⟨c, y, rfl, hc⟩ := hy.head
      exact absurd (List.cons.inj heq).1.symm hc
  | cons hx _ ih =>
    cases h' with
    | nil =>
      obtain ⟨c, x, rfl, hc⟩ := hx.head
      exact absurd (List.cons.inj heq).1 hc
    | cons hy hys =>
      rw [List.flatten_cons, List.flatten_cons, List.append_assoc, List.append_assoc] at heq
      obtain ⟨rfl, -, hrest⟩ := hx.unique hy heq
      rw [ih hys hrest]

/-- **A method descriptor can be taken apart in one way**, and stands for one method -/
theorem Denotes.unique (h : Denotes cs xs d) (h' : Denotes cs ys e) : xs = ys ∧ d = e := by
  obtain ⟨y, -, heq⟩ := h.ret
  obtain ⟨y', -, heq'⟩ := h'.ret
  have hxs := flatten_unique h.params h'.params (List.cons.inj (heq.symm.trans heq')).2
  refine ⟨hxs, ?_⟩
  rw [← String.toList_ofList (l := cs)] at h h'
  exact Option.some.inj ((parse?_eq_some_iff.2 ⟨xs, h⟩).symm.trans (parse?_eq_some_iff.2 ⟨ys, h'⟩))

/-- **The slots of the parameters**: two for each long and double one, and one for each other -/
theorem Denotes.paramSlots (h : Denotes cs xs d) :
    d.paramSlots = xs.foldr (fun x n => (if x = ['J'] ∨ x = ['D'] then 2 else 1) + n) 0 := by
  obtain ⟨ts, ret⟩ := d
  have hparams : List.Forall₂ FieldType.Denotes xs ts := h.params
  show ts.foldr (fun t n => t.width + n) 0 = _
  clear h
  induction hparams with
  | nil => rfl
  | cons hx _ ih => rw [List.foldr_cons, List.foldr_cons, hx.width, ih]

end MethodDesc
end Resumable
