import Mathlib.Data.Fintype.Pigeonhole
import Mathlib.Logic.Relation
import Resumable.Proofs.RoundTrip

/-!
# Where the text of a value ends

The text of an instance goes on with the text of its message, and a program may write any reference
into the field of the message.  So the text of a value ends if and only if no instance on the way is
its own message, directly or over others.

* `Heap.Renders` : the text of a reference, message after message;
* `Heap.refText?_eq_some_iff` : it is what the recursion gives when it ends;
* `Heap.Circles`, `Heap.refText?_isSome_iff` : it ends if and only if the messages do;
* `rendering_ends_iff` : the same for everything that makes texts.
-/

namespace Resumable
namespace Heap

variable {h : Heap} {r m : Ref} {t : String}

/-- an instance has a message -/
def Shows (h : Heap) (r m : Ref) : Prop := h.message? r = some m

inductive Renders (h : Heap) : Ref → String → Prop where
  | own {r : Ref} (hr : h.message? r = none) : Renders h r (h.ownText r)
  | message {r m : Ref} {t : String} (hr : h.Shows r m) (ht : Renders h m t) :
    Renders h r (h.className r ++ ": " ++ t)

theorem refText?_of_none (hr : h.message? r = none) : h.refText? r = some (h.ownText r) := by
  rw [refText?, hr]

theorem refText?_of_shows (hr : h.Shows r m) :
    h.refText? r = (h.refText? m).map fun t => h.className r ++ ": " ++ t := by
  rw [refText?, show h.message? r = some m from hr]
  show (h.refText? m >>= fun t => pure (h.className r ++ ": " ++ t)) = _
  cases h.refText? m <;> rfl

theorem Renders.refText? (ht : h.Renders r t) : h.refText? r = some t := by
  induction ht with
  | own hr => exact refText?_of_none hr
  | message hr _ ih => rw [refText?_of_shows hr, ih, Option.map_some]

theorem renders_of_refText? : ∀ r t, h.refText? r = some t → h.Renders r t := by
  apply refText?.partial_correctness
  intro next ih r t ht
  cases hr : h.message? r with
  | none =>
    rw [hr] at ht
    obtain rfl : h.ownText r = t := Option.some.inj ht
    exact .own hr
  | some m =>
    rw [hr] at ht
    obtain ⟨u, hu, rfl⟩ : ∃ u, next m = some u ∧ h.className r ++ ": " ++ u = t := by
      simpa [Option.bind_eq_some_iff] using ht
    exact .message hr (ih m u hu)

theorem refText?_eq_some_iff : h.refText? r = some t ↔ h.Renders r t :=
  ⟨renders_of_refText? r t, Renders.refText?⟩

/-! ## circles of messages -/

/-- the messages from a reference on lead to an instance that is its own message, directly or over
others -/
def Circles (h : Heap) (r : Ref) : Prop :=
  ∃ m, Relation.ReflTransGen h.Shows r m ∧ Relation.TransGen h.Shows m m

theorem Shows.unique {m' : Ref} (hm : h.Shows r m) (hm' : h.Shows r m') : m = m' :=
  Option.some.inj (hm.symm.trans hm')

/-- a circle that is reached is reached over the next message -/
theorem Circles.next (hc : h.Circles r) (hr : h.Shows r m) : h.Circles m := by
  obtain ⟨c, hto, hround⟩ := hc
  rcases hto.cases_head with rfl | ⟨m', hr', hto⟩
  · obtain ⟨m', hr', hback⟩ := Relation.TransGen.head'_iff.1 hround
    obtain rfl := hr.unique hr'
    exact ⟨r, hback, hround⟩
  · obtain rfl := hr.unique hr'
    exact ⟨c, hto, hround⟩

theorem Circles.shows (hc : h.Circles r) : ∃ m, h.Shows r m := by
  obtain ⟨c, hto, hround⟩ := hc
  rcases hto.cases_head with rfl | ⟨m, hr, -⟩
  · obtain ⟨m, hr, -⟩ := Relation.TransGen.head'_iff.1 hround
    exact ⟨m, hr⟩
  · exact ⟨m, hr⟩

theorem Renders.not_circles (ht : h.Renders r t) : ¬ h.Circles r := by
  induction ht with
  | own hr =>
    intro hc
    obtain ⟨m, hm⟩ := hc.shows
    exact absurd (hr.symm.trans hm) (by simp)
  | message hr _ ih => exact fun hc => ih (hc.next hr)

/-! ## without a circle -/

/-- the reference after a number of messages; the last one stays -/
def after (h : Heap) (r : Ref) : Nat → Ref
  | 0 => r
  | n + 1 => (h.message? (h.after r n)).getD (h.after r n)

/-- only objects of the heap have messages -/
theorem Shows.object (hr : h.Shows r m) : ∃ a, r = .object a ∧ a < h.objects.size := by
  cases r with
  | coroutine id => exact absurd hr (by simp [Shows, message?, get?])
  | object a =>
    refine ⟨a, rfl, ?_⟩
    by_contra hlt
    have hnone : h.get? (.object a) = none := Array.getElem?_eq_none (Nat.not_lt.1 hlt)
    exact absurd hr (by simp [Shows, message?, hnone])

/-- what has no text has a message without one -/
theorem exists_shows (hr : ¬ ∃ t, h.Renders r t) : ∃ m, h.Shows r m ∧ ¬ ∃ t, h.Renders m t := by
  cases hm : h.message? r with
  | none => exact absurd ⟨_, .own hm⟩ hr
  | some m => exact ⟨m, hm, fun ⟨t, ht⟩ => hr ⟨_, .message hm ht⟩⟩

theorem shows_after (hr : ¬ ∃ t, h.Renders r t) (n : Nat) :
    h.Shows (h.after r n) (h.after r (n + 1)) ∧ ¬ ∃ t, h.Renders (h.after r n) t := by
  have hnext : ∀ n, (¬ ∃ t, h.Renders (h.after r n) t) →
      h.Shows (h.after r n) (h.after r (n + 1)) ∧ ¬ ∃ t, h.Renders (h.after r (n + 1)) t := by
    intro n hn
    obtain ⟨m, hm, ht⟩ := exists_shows hn
    have heq : h.after r (n + 1) = m := by
      rw [after, show h.message? (h.after r n) = some m from hm, Option.getD_some]
    rw [heq]
    exact ⟨hm, ht⟩
  have hall : ¬ ∃ t, h.Renders (h.after r n) t := by
    induction n with
    | zero => exact hr
    | succ n ih => exact (hnext n ih).2
  exact ⟨(hnext n hall).1, hall⟩

theorem reflTransGen_after (hr : ¬ ∃ t, h.Renders r t) (n k : Nat) :
    Relation.ReflTransGen h.Shows (h.after r n) (h.after r (n + k)) := by
  induction k with
  | zero => exact .refl
  | succ k ih => exact ih.tail (shows_after hr (n + k)).1

-- of more messages than there are objects two are the same
theorem circles_of_not_renders (hr : ¬ ∃ t, h.Renders r t) : h.Circles r := by
  choose place hplace hlt using fun n => (shows_after hr n).1.object
  obtain ⟨i, j, hne, hij⟩ := Fintype.exists_ne_map_eq_of_card_lt
    (fun i : Fin (h.objects.size + 1) => (⟨place i, hlt i⟩ : Fin h.objects.size)) (by simp)
  have hsame : h.after r i = h.after r j := by
    rw [hplace i, hplace j, show place i = place j from congrArg Fin.val hij]
  have hlarger : ∀ i j : Nat, i < j → h.after r i = h.after r j → h.Circles r := by
    intro i j hlt hsame
    obtain ⟨k, rfl⟩ := Nat.exists_eq_add_of_le (Nat.succ_le_of_lt hlt)
    have hto : Relation.ReflTransGen h.Shows (h.after r 0) (h.after r (0 + i)) :=
      reflTransGen_after hr 0 i
    rw [Nat.zero_add] at hto
    have hround : Relation.TransGen h.Shows (h.after r i) (h.after r (i + 1 + k)) :=
      .head' (shows_after hr i).1 (reflTransGen_after hr (i + 1) k)
    rw [← hsame] at hround
    exact ⟨h.after r i, hto, hround⟩
  rcases Nat.lt_or_gt_of_ne (Fin.val_ne_of_ne hne) with hlt | hlt
  · exact hlarger i j hlt hsame
  · exact hlarger j i hlt hsame.symm

theorem refText?_isSome_iff : (∃ t, h.refText? r = some t) ↔ ¬ h.Circles r := by
  constructor
  · rintro ⟨t, ht⟩
    exact (renders_of_refText? r t ht).not_circles
  · intro hc
    by_contra ht
    exact hc (circles_of_not_renders fun ⟨t, hr⟩ => ht ⟨t, hr.refText?⟩)

/-- a value whose text does not end -/
def Endless (h : Heap) : Value → Prop
  | .ref (some r) => h.Circles r
  | _ => False

theorem text?_isSome_iff {v : Value} : (∃ t, h.text? v = some t) ↔ ¬ h.Endless v := by
  cases v with
  | ref r =>
    cases r with
    | none => exact ⟨fun _ hf => hf, fun _ => ⟨_, rfl⟩⟩
    | some r => exact refText?_isSome_iff
  | _ => exact ⟨fun _ hf => hf, fun _ => ⟨_, rfl⟩⟩

end Heap

theorem Printable.text?_isSome_iff {p : Printable} {h : Heap} {v : Value} :
    (∃ t, p.text? h v = some t) ↔ ¬ h.Endless v := by
  by_cases hp : p = .boolean ∧ ∃ n, v = .int n
  · obtain ⟨rfl, n, rfl⟩ := hp
    exact ⟨fun _ hf => hf, fun _ => ⟨_, rfl⟩⟩
  · have htext : p.text? h v = h.text? v := by
      unfold Printable.text?
      split
      · exact absurd ⟨rfl, _, rfl⟩ hp
      · rfl
    rw [htext]
    exact Heap.text?_isSome_iff

/-! ## what makes texts -/

namespace Machine

/-- the method of the console prints a line -/
def Prints (m : Machine) (p : Printable) (v : Value) (line : String) : Prop :=
  ((LibraryMethod.println p).perform [v]).run m =
    (.ok none, { m with console := line :: m.console })

/-- a method of the library makes a string -/
def MakesText (m : Machine) (l : LibraryMethod) (v : Value) (t : String) : Prop :=
  (l.perform [v]).run m =
    (.ok (some (m.heap.makeString t).1), { m with heap := (m.heap.makeString t).2 })

variable {m : Machine} {v : Value} {t : String}

theorem prints_iff {p : Printable} : m.Prints p v t ↔ p.text? m.heap v = some t := by
  have hgives : ∀ u, p.text? m.heap v = some u → m.Prints p v u := by
    intro u hu
    show (Performing.textOf (p.text? m.heap v) >>= fun _ => _).run m = _
    rw [hu]
    rfl
  refine ⟨fun ht => ?_, hgives t⟩
  cases htext : p.text? m.heap v with
  | some u =>
    have hline : t :: m.console = u :: m.console :=
      congrArg (fun s => s.2.console) (ht.symm.trans (hgives u htext))
    rw [List.head_eq_of_cons_eq hline]
  | none =>
    have hrun : (Performing.textOf (p.text? m.heap v) >>= fun line => _).run m = _ := ht
    rw [htext] at hrun
    exact absurd (congrArg Prod.fst hrun) (by rintro ⟨⟩)

/-- what makes a string out of a text gives the text -/
theorem makesText_iff {l : LibraryMethod} {text : Option String}
    (hl : (l.perform [v]).run m = (Performing.textOf text >>= stringResult).run m) :
    m.MakesText l v t ↔ text = some t := by
  have hgives : ∀ u, text = some u → m.MakesText l v u := by
    rintro u rfl
    exact hl
  refine ⟨fun ht => ?_, hgives t⟩
  cases htext : text with
  | some u =>
    have hheap : m.heap.objects.push (.string t) = m.heap.objects.push (.string u) :=
      congrArg (fun s => s.2.heap.objects) (ht.symm.trans (hgives u htext))
    obtain ⟨h⟩ := Array.push_inj_right.1 hheap
    rfl
  | none =>
    have hrun := hl.symm.trans ht
    rw [htext] at hrun
    exact absurd (congrArg Prod.fst hrun) (by rintro ⟨⟩)

end Machine

/-- **Texts end where messages do.**  Printing a value, making a string of it and reporting it as an
uncaught exception give a text if and only if no instance that is shown is its own message, directly or
over others. -/
theorem rendering_ends_iff (m : Machine) (v : Value) :
    (∀ p, (∃ line, m.Prints p v line) ↔ ¬ m.heap.Endless v) ∧
      (∀ p, (∃ t, m.MakesText (.valueOf p) v t) ↔ ¬ m.heap.Endless v) ∧
      ∀ r, v = .ref (some r) →
        ((∃ t, m.MakesText .objectToString v t) ↔ ¬ m.heap.Endless v) ∧
          ((∃ t, (Throw.exception r).text? m.heap = some t) ↔ ¬ m.heap.Endless v) := by
  refine ⟨fun p => ?_, fun p => ?_, ?_⟩
  · simp only [Machine.prints_iff]
    exact Printable.text?_isSome_iff
  · have hl : ((LibraryMethod.valueOf p).perform [v]).run m =
        (Performing.textOf (p.text? m.heap v) >>= stringResult).run m := rfl
    simp only [Machine.makesText_iff hl]
    exact Printable.text?_isSome_iff
  · rintro r rfl
    refine ⟨?_, ?_⟩
    · have hl : (LibraryMethod.objectToString.perform [.ref (some r)]).run m =
          (Performing.textOf (m.heap.refText? r) >>= stringResult).run m := rfl
      simp only [Machine.makesText_iff hl]
      exact Heap.refText?_isSome_iff
    · show (∃ t, (m.heap.refText? r).map _ = some t) ↔ _
      rw [← Option.isSome_iff_exists, Option.isSome_map, Option.isSome_iff_exists]
      exact Heap.refText?_isSome_iff

namespace Demo

/-- a method that makes an instance its own message and asks for its text -/
def selfNaming : Method where
  name := "run"
  desc := "()V"
  isStatic := true
  maxLocals := 0
  code := [.new "demo/M", .dup, .dup, .putField ⟨"demo/M", "message", "Ljava/lang/Object;"⟩,
    .invoke .static (LibraryMethod.valueOf .object).id, .pop, .ret none]
  tryCatches := []
  localVars := []

/-- the machine at the call for the text -/
def asking : Machine := (machine.goOn ⟨selfNaming, 0, [], []⟩ []).after world 5

theorem shows_asking : asking.heap.Shows (.object 0) (.object 0) := rfl

/-- code builds an instance whose text does not end -/
theorem no_rendering_selfNamed :
    Machine.Reaches world (machine.goOn ⟨selfNaming, 0, [], []⟩ []) asking ∧
      asking.mode = .calling
        ⟨.static, (LibraryMethod.valueOf .object).id, [.ref (some (.object 0))]⟩ ∧
      ¬ ∃ t, asking.MakesText (.valueOf .object) (.ref (some (.object 0))) t := by
  refine ⟨⟨5, rfl⟩, rfl, ?_⟩
  rintro ⟨t, ht⟩
  have hl : ((LibraryMethod.valueOf .object).perform [.ref (some (.object 0))]).run asking =
      (Performing.textOf (asking.heap.refText? (.object 0)) >>= stringResult).run asking := rfl
  have htext : asking.heap.refText? (.object 0) = some t := (Machine.makesText_iff hl).1 ht
  have hround : Relation.TransGen asking.heap.Shows (.object 0) (.object 0) := .single shows_asking
  exact Heap.refText?_isSome_iff.1 ⟨t, htext⟩ ⟨.object 0, .refl, hround⟩

end Demo

end Resumable
