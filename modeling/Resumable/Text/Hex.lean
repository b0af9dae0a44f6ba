/-!
# Hexadecimal digits

* `hexNumber?` : the number that digits of either case are read as;
* `hexChar?` : the character that they name.
-/

namespace Resumable.Text

/-- value of a hexadecimal digit of either case -/
def hexValue? (c : Char) : Option Nat :=
  if '0' ≤ c ∧ c ≤ '9' then some (c.toNat - '0'.toNat)
  else if 'a' ≤ c ∧ c ≤ 'f' then some (c.toNat - 'a'.toNat + 10)
  else if 'A' ≤ c ∧ c ≤ 'F' then some (c.toNat - 'A'.toNat + 10)
  else none

/-- digits read onto the value `n` -/
def hexNumber? (n : Nat) : List Char → Option Nat
  | [] => some n
  | c :: cs => do hexNumber? (n * 16 + (← hexValue? c)) cs

/-- the character with the code point that the digits name -/
def hexChar? (digits : List Char) : Option Char := do
  let n ← hexNumber? 0 digits
  if h : n.isValidChar then some (Char.ofNatAux n h) else none

end Resumable.Text
