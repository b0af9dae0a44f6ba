import Resumable.Machine.Native
import Resumable.Proofs.Effects
import Resumable.Proofs.Heaps

/-!
# What built-in methods work on

The library and the replies of host methods work on the heap and on the console only; they see
neither coroutines nor what is under way, and the heap only grows by them.  The same holds for the
arguments of every built-in method.

* `Performing.Confined` : a computation that sees heap and console only;
* `LibraryMethod.confined_perform`, `Reply.confined_perform` : the library and the replies.
-/

namespace Resumable
namespace Performing

open Effect

variable {α β : Type}

/-- what a confined computation gives: its result, the heap and the console -/
abbrev Written (α : Type) := Except Throw α × Heap × List String

/-- the computation sees heap and console only, and changes nothing else; the heap grows -/
def Confined (x : Performing α) : Prop :=
  ∃ f : Heap → List String → Written α, (∀ m : Machine,
    x.run m = ((f m.heap m.console).1,
      { m with heap := (f m.heap m.console).2.1, console := (f m.heap m.console).2.2 })) ∧
    ∀ (h : Heap) (l : List String), h.Grows (f h l).2.1

namespace Confined

theorem pure (v : α) : Confined (Pure.pure v : Performing α) :=
  ⟨fun h l => (.ok v, h, l), fun _ => rfl, fun h _ => .refl h⟩

theorem throw (t : Throw) : Confined (MonadExcept.throw t : Performing α) :=
  ⟨fun h l => (.error t, h, l), fun _ => rfl, fun h _ => .refl h⟩

theorem bind {x : Performing α} {k : α → Performing β} (hx : Confined x)
    (hk : ∀ v, Confined (k v)) : Confined (x >>= k) := by
  obtain ⟨f, hf, hgrows⟩ := hx
  refine ⟨fun h l => match (f h l).1 with
    | .ok v => (hk v).choose (f h l).2.1 (f h l).2.2
    | .error t => (.error t, (f h l).2), fun m => ?_, fun h l => ?_⟩
  · rw [run_bind, hf]
    dsimp only
    cases hr : (f m.heap m.console).1 with
    | error t => rfl
    | ok v =>
      exact (hk v).choose_spec.1
        { m with heap := (f m.heap m.console).2.1, console := (f m.heap m.console).2.2 }
  · dsimp only
    cases hr : (f h l).1 with
    | error t => exact hgrows h l
    | ok v => exact (hgrows h l).trans ((hk v).choose_spec.2 _ _)

end Confined

/-! ## parts of methods -/

theorem confined_fault (f : Fault) : Confined (fault f : Performing α) := .throw _

theorem confined_throwNew (type message : String) :
    Confined (throwNew type message : Performing α) :=
  ⟨fun h l => (.error (.exception (h.makeThrowable type message).1),
    (h.makeThrowable type message).2, l), fun _ => rfl, fun h _ => h.grows_makeThrowable _ _⟩

theorem confined_heap : Confined heap :=
  ⟨fun h l => (.ok h, h, l), fun _ => rfl, fun h _ => .refl h⟩

theorem confined_make (o : Object) : Confined (make fun h => h.make o) :=
  ⟨fun h l => (.ok (h.make o).1, (h.make o).2, l), fun _ => rfl, fun h _ => h.grows_make o⟩

theorem confined_arg (args : List Value) (i : Nat) : Confined (arg args i) := by
  unfold arg
  split
  · exact .pure _
  · exact confined_fault _

theorem confined_intArg (args : List Value) (i : Nat) : Confined (intArg args i) :=
  .bind (confined_arg args i) fun v => by
    cases v <;> first | exact .pure _ | exact .bind confined_heap fun _ => confined_fault _

theorem confined_refArg (args : List Value) (i : Nat) : Confined (refArg args i) :=
  .bind (confined_arg args i) fun v => by
    cases v <;> first | exact .pure _ | exact .bind confined_heap fun _ => confined_fault _

theorem confined_nonNullArg (args : List Value) (i : Nat) : Confined (nonNullArg args i) :=
  .bind (confined_refArg args i) fun r => by
    cases r <;> first | exact .pure _ | exact confined_throwNew _ _

theorem confined_coroutineArg (args : List Value) (i : Nat) : Confined (coroutineArg args i) :=
  .bind (confined_nonNullArg args i) fun r => by
    cases r <;> first | exact .pure _ | exact .bind confined_heap fun _ => confined_fault _

theorem confined_stringArg (args : List Value) (i : Nat) : Confined (stringArg args i) :=
  .bind (confined_nonNullArg args i) fun r => .bind confined_heap fun h => by
    split
    · exact .pure _
    · exact confined_fault _

theorem confined_textOf (text : Option String) : Confined (textOf text) := by
  cases text
  · exact confined_fault _
  · exact .pure _

theorem confined_stringResult (s : String) : Confined (stringResult s) :=
  .bind (confined_make (.string s)) fun _ => .pure _

end Performing

open Performing

/-! ## the library and the replies -/

/-- **The library** works on heap and console -/
theorem LibraryMethod.confined_perform (l : LibraryMethod) (args : List Value) :
    Confined (l.perform args) := by
  cases l with
  | objectInit => exact .pure _
  | throwableInit => exact .pure _
  | objectToString =>
    exact .bind (confined_nonNullArg args 0) fun _ => .bind confined_heap fun _ =>
      .bind (confined_textOf _) fun _ => confined_stringResult _
  | throwableInitMessage =>
    exact .bind (confined_nonNullArg args 0) fun this => .bind (confined_refArg args 1) fun message =>
      .bind ⟨fun h l => (.ok ⟨⟩, (h.putField? this "message" (.ref message)).getD h, l), fun _ => rfl,
        fun h _ => h.grows_getD fun _ => Heap.grows_putField?⟩ fun _ => .pure _
  | throwableGetMessage =>
    exact .bind (confined_nonNullArg args 0) fun _ => .bind confined_heap fun _ => .pure _
  | println p =>
    exact .bind (confined_arg args 0) fun v => .bind confined_heap fun _ =>
      .bind (confined_textOf _) fun line =>
        .bind ⟨fun h l => (.ok ⟨⟩, h, line :: l), fun _ => rfl, fun h _ => .refl h⟩ fun _ => .pure _
  | valueOf p =>
    exact .bind (confined_arg args 0) fun _ => .bind confined_heap fun _ =>
      .bind (confined_textOf _) fun _ => confined_stringResult _
  | concat =>
    exact .bind (confined_stringArg args 0) fun _ => .bind (confined_stringArg args 1) fun _ =>
      confined_stringResult _
  | equals =>
    exact .bind (confined_stringArg args 0) fun _ => .bind (confined_refArg args 1) fun _ =>
      .bind confined_heap fun _ => .pure _
  | length => exact .bind (confined_stringArg args 0) fun _ => .pure _

/-- what a host method answers once a literal is built, with the heap and the console after it -/
def Literal.answered : Except String (Value × Heap) → Heap → List String → Written (Option Value)
  | .ok (v, u), _, lines => (.ok (some v), u, lines)
  | .error name, h, lines => (.error (.fault (.host ("no value " ++ name))), h, lines)

/-- **The reply of a host method** works on heap and console -/
theorem Reply.confined_perform (r : Reply) (args : List Value) : Confined (r.perform args) := by
  cases r with
  | throws type message => exact confined_throwNew _ _
  | fault message => exact confined_fault _
  | echo i => exact .pure _
  | nothing => exact .pure _
  | returns l =>
    refine ⟨fun h lines => Literal.answered (l.build (fun _ => none) h) h lines, fun m => ?_,
      fun h lines => ?_⟩
    · show ((heap >>= fun h => _ : Performing (Option Value)).run m) = _
      rw [Effect.run_bind_ok (show heap.run m = (.ok m.heap, m) from rfl)]
      cases hb : l.build (fun _ => none) m.heap with
      | error name =>
        dsimp only
        rw [hb]
        rfl
      | ok x =>
        dsimp only
        rw [hb]
        rfl
    · dsimp only
      cases hb : l.build (fun _ => none) h with
      | error name => exact .refl h
      | ok x => exact Literal.grows_build hb

end Resumable
