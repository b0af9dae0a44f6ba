import Resumable.Decimal.Binary

/-!
# Remainder of floating numbers

The remainder of a division that is rounded toward zero.  It has the sign of the dividend, is
exact, and is computed on natural numbers: both operands are brought to their lesser exponent and
the remainder of the significands is taken.

* `remDouble`, `remSingle` : the remainder of two numbers.
-/

namespace Resumable.Decimal

/-- The remainder of `a` by `b`.  A zero divisor, an infinite dividend and an operand that is no
number give no number; an infinite divisor leaves the dividend as it is. -/
def Binary.rem (f : BinaryFormat) : Binary → Binary → Nat
  | .finite neg m q, .finite _ n r =>
    if n = 0 then f.pack .nan
    else
      let e := min q r
      let rest := (m * pow2 (q - e).toNat) % (n * pow2 (r - e).toNat)
      f.roundRatio neg (rest * pow2 e.toNat) (pow2 (-e).toNat)
  | .finite neg m q, .infinite _ => f.packFinite neg m q
  | _, _ => f.pack .nan

/-- the remainder of two doubles -/
def remDouble (a b : Float) : Float :=
  doubleOfBits ((ofDouble a).rem .double (ofDouble b))

/-- the remainder of two singles -/
def remSingle (a b : Float32) : Float32 :=
  singleOfBits ((ofSingle a).rem .single (ofSingle b))

end Resumable.Decimal
