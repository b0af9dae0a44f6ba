/-!
# White space

* `isWhite` : the characters with the property White_Space;
* `trimEnd`, `isAllWhite` : texts without it at their end, and of nothing else.
-/

namespace Resumable.Text

/-- a character with the property White_Space -/
def isWhite (c : Char) : Bool :=
  let n := c.toNat
  (9 ≤ n && n ≤ 13) || n == 0x20 || n == 0x85 || n == 0xa0 || n == 0x1680 ||
    (0x2000 ≤ n && n ≤ 0x200a) || n == 0x2028 || n == 0x2029 || n == 0x202f || n == 0x205f ||
    n == 0x3000

theorem isWhite_of_isWhitespace {c : Char} (h : c.isWhitespace) : isWhite c := by
  simp only [Char.isWhitespace, Bool.or_eq_true, decide_eq_true_eq] at h
  rcases h with ((rfl | rfl) | rfl) | rfl <;> decide

/-- white space dropped at the end -/
def trimEnd (cs : List Char) : List Char := (cs.reverse.dropWhile isWhite).reverse

/-- white space dropped at the start -/
def trimStart (cs : List Char) : List Char := cs.dropWhile isWhite

/-- nothing but white space -/
def isAllWhite (s : String) : Bool := s.toList.all isWhite

end Resumable.Text
