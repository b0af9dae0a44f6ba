/-!
# Ranges of code points

A property of characters is given by the closed ranges of code points that have it.

* `CodeRanges.has` : some range holds a code point.
-/

namespace Resumable.Text

/-- closed ranges of code points -/
abbrev CodeRanges := List (Nat × Nat)

/-- some range holds the code point -/
def CodeRanges.has (rs : CodeRanges) (n : Nat) : Bool :=
  rs.any fun r => r.1 ≤ n && n ≤ r.2

theorem CodeRanges.has_nil (n : Nat) : CodeRanges.has [] n = false := rfl
theorem CodeRanges.has_append (a b : CodeRanges) (n : Nat) :
    CodeRanges.has (a ++ b) n = (a.has n || b.has n) := by
  simp [CodeRanges.has, List.any_append]

end Resumable.Text
