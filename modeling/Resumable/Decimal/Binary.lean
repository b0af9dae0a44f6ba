/-!
# Binary floating formats

A finite number of a binary format is `m · 2^q` with a bounded significand `m` and a least exponent
`q`.  This module opens the bit pattern of a number into these parts, closes it again, and rounds
an exact quotient of natural numbers to the nearest number of a format (a half goes to the even
neighbour).  All of it is arithmetic on natural numbers.

* `BinaryFormat.unpack`, `BinaryFormat.pack` : between bit patterns and parts;
* `BinaryFormat.roundRatio` : the number nearest to a quotient;
* `singleOfDouble` : the single nearest to a double.
-/

namespace Resumable.Decimal

/-- a binary floating format -/
structure BinaryFormat where
  /-- bits of the significand, the leading one included -/
  precision : Nat
  /-- bits of the exponent field -/
  exponentBits : Nat
  /-- exponent of the least unit -/
  minExp : Int
deriving DecidableEq, Repr

/-- numbers of 32 bits -/
def BinaryFormat.single : BinaryFormat := ⟨24, 8, -149⟩

/-- numbers of 64 bits -/
def BinaryFormat.double : BinaryFormat := ⟨53, 11, -1074⟩

/-- a floating number by its parts -/
inductive Binary where
  | nan
  | infinite (neg : Bool)
  /-- the number `± m · 2^q` -/
  | finite (neg : Bool) (m : Nat) (q : Int)
deriving DecidableEq, Repr

/-- `2^n` -/
def pow2 (n : Nat) : Nat := Nat.pow 2 n

/-- `10^n` -/
def pow10 (n : Nat) : Nat := Nat.pow 10 n

namespace BinaryFormat

/-- weight of the exponent field in a bit pattern -/
def unit (f : BinaryFormat) : Nat := pow2 (f.precision - 1)

/-- the bit pattern of positive infinity -/
def infinityBits (f : BinaryFormat) : Nat := (pow2 f.exponentBits - 1) * f.unit

/-- weight of the sign bit -/
def signBit (f : BinaryFormat) : Nat := pow2 f.exponentBits * f.unit

/-- the parts of a bit pattern -/
def unpack (f : BinaryFormat) (bits : Nat) : Binary :=
  let fraction := bits % f.unit
  let e := bits / f.unit % pow2 f.exponentBits
  let neg := bits / f.signBit % 2 == 1
  if e + 1 = pow2 f.exponentBits then
    if fraction = 0 then .infinite neg else .nan
  else if e = 0 then .finite neg fraction f.minExp
  else .finite neg (fraction + f.unit) (f.minExp + (e - 1 : Nat))

/-- The bit pattern of `± m · 2^q`, where `q` is the least exponent or `m` has full length.
A significand one too long carries into the exponent, and what is too large is infinite. -/
def packFinite (f : BinaryFormat) (neg : Bool) (m : Nat) (q : Int) : Nat :=
  min ((q - f.minExp).toNat * f.unit + m) f.infinityBits + if neg then f.signBit else 0

/-- the bit pattern of a number in normal form -/
def pack (f : BinaryFormat) : Binary → Nat
  | .nan => f.infinityBits + f.unit / 2
  | .infinite neg => f.infinityBits + if neg then f.signBit else 0
  | .finite neg m q => f.packFinite neg m q

/-- `num / den` to the nearest natural number, a half to the even one -/
def divHalfEven (num den : Nat) : Nat :=
  let d := num / den
  let r := num % den
  if den < 2 * r ∨ (2 * r = den ∧ d % 2 = 1) then d + 1 else d

/-- `num / den / 2^q` to the nearest natural number, a half to the even one -/
def divPow (num den : Nat) (q : Int) : Nat :=
  divHalfEven (num * pow2 (-q).toNat) (den * pow2 q.toNat)

/-- the exponent at which the significand of `num / den` has full length, or the least one -/
def unitExp (f : BinaryFormat) (num den : Nat) : Int :=
  let k : Int := num.log2 - den.log2 - f.precision
  let full : Bool :=
    den * pow2 (k + f.precision).toNat ≤ num * pow2 (-(k + f.precision)).toNat
  max f.minExp (if full then k + 1 else k)

/-- the bit pattern of the number nearest to `± num / den` -/
def roundRatio (f : BinaryFormat) (neg : Bool) (num den : Nat) : Nat :=
  if num = 0 then f.packFinite neg 0 f.minExp
  else
    let q := f.unitExp num den
    f.packFinite neg (divPow num den q) q

/-- the bit pattern of the number nearest to a number by its parts -/
def round (f : BinaryFormat) : Binary → Nat
  | .finite neg m q => f.roundRatio neg (m * pow2 q.toNat) (pow2 (-q).toNat)
  | x => f.pack x

end BinaryFormat

/-! ## the two machine formats -/

/-- the parts of a double -/
def ofDouble (x : Float) : Binary := BinaryFormat.double.unpack x.toBits.toNat

/-- the double with the given bit pattern -/
def doubleOfBits (bits : Nat) : Float := Float.ofBits (UInt64.ofNat bits)

/-- the parts of a single -/
def ofSingle (x : Float32) : Binary := BinaryFormat.single.unpack x.toBits.toNat

/-- the single with the given bit pattern -/
def singleOfBits (bits : Nat) : Float32 := Float32.ofBits (UInt32.ofNat bits)

/-- the single nearest to a double -/
def singleOfDouble (x : Float) : Float32 := singleOfBits (BinaryFormat.single.round (ofDouble x))

end Resumable.Decimal
