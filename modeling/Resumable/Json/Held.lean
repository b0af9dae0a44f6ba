import Resumable.Json.Basic
import Resumable.Json.Number

/-!
# Documents that can be held

A document can be held as values if nothing in it is skipped and no number is too large.

* `Json.isHeld` : the document can be held.
-/

namespace Resumable.Json

mutual

/-- nothing in the document is skipped, and no number is too large -/
def isHeld : Json → Bool
  | .skipped => false
  | .num t => (Number.double? t).isSome
  | .arr xs => areHeld xs
  | .obj ms => areMembersHeld ms
  | .null | .bool _ | .str _ => true

def areHeld : List Json → Bool
  | [] => true
  | x :: xs => isHeld x && areHeld xs

def areMembersHeld : List (String × Json) → Bool
  | [] => true
  | (_, v) :: ms => isHeld v && areMembersHeld ms

end

theorem isHeld_skipped : isHeld .skipped = false := rfl
theorem areHeld_cons (x : Json) (xs : List Json) : areHeld (x :: xs) = (isHeld x && areHeld xs) :=
  rfl

end Resumable.Json
