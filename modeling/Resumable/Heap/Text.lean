import Resumable.Decimal.Layout
import Resumable.Heap.Basic

/-!
# Values as text

Two texts of a value: the one that programs print, where a string stands for itself and an instance
with a message shows it, and the one for reports of faults, where a string is quoted and numbers
show their kind.  Addresses are not shown.

* `Heap.text?` : the printed text; an instance that is its own message, directly or over others, has
  none;
* `Heap.shown` : the text for reports.
-/

namespace Resumable.Heap

/-- a thing of which only the class is shown -/
def anonymous (className : String) : String := className ++ "@ADDR"

def coroutineText (id : Nat) : String := "Coro#" ++ toString id

/-- the message of an instance, if it is a reference; the root type has none -/
def message? (h : Heap) (r : Ref) : Option Ref :=
  match h.get? r with
  | some (.instance type fields) =>
    if type = objectType then none
    else
      match fields.find? "message" with
      | some (.ref m) => m
      | _ => none
  | _ => none

/-- the text of what a reference names, without its message -/
def ownText (h : Heap) (r : Ref) : String :=
  match r, h.string? r with
  | .coroutine id, _ => coroutineText id
  | _, some s => s
  | _, none => anonymous (h.className r)

/-- The printed text of a reference.  Where messages follow one another without end this does not
end either. -/
def refText? (h : Heap) (r : Ref) : Option String :=
  match h.message? r with
  | none => some (h.ownText r)
  | some m => do
    let t ← h |>.refText? m
    return h.className r ++ ": " ++ t
partial_fixpoint

/-- the printed text of a value -/
def text? (h : Heap) : Value → Option String
  | .top => some "top"
  | .int v => some (toString v.toInt)
  | .long v => some (toString v.toInt)
  | .float v => some (Decimal.printSingle v)
  | .double v => some (Decimal.printDouble v)
  | .ref none => some "null"
  | .ref (some r) => h.refText? r

/-- the text of a reference in reports -/
def shownRef (h : Heap) (r : Ref) : String :=
  match r, h.string? r with
  | .coroutine id, _ => coroutineText id
  | _, some s => Text.Quoted.encode s
  | _, none => anonymous (h.className r)

/-- the text of a value in reports -/
def shown (h : Heap) : Value → String
  | .top => "top"
  | .int v => toString v.toInt
  | .long v => toString v.toInt ++ "L"
  | .float v => Decimal.printSingle v ++ "f"
  | .double v => Decimal.printDouble v ++ "d"
  | .ref none => "null"
  | .ref (some r) => h.shownRef r

end Resumable.Heap
