import Resumable.Decimal.Binary

/-!
# Reading numbers

Integers have an optional sign and digits, and must fit their range.  Floating text has an optional
sign, digits with an optional point (at least one digit on either side of it) and an optional
exponent, or spells infinity or not-a-number in letters of any case; it is rounded correctly to its
format, and what is too large is infinite.

* `readInt?`, `readNat?` : integers in a range;
* `readDouble?`, `readSingle?` : floating numbers.
-/

namespace Resumable.Decimal

/-! ## digits -/

def isDigit (c : Char) : Bool := '0' ≤ c && c ≤ '9'

/-- value of a digit -/
def digitValue (c : Char) : Nat := c.toNat - 48

/-- value of a run of digits, read onto `n` -/
def digitsValue (n : Nat) (cs : List Char) : Nat :=
  cs.foldl (fun n c => 10 * n + digitValue c) n

theorem digitsValue_nil (n : Nat) : digitsValue n [] = n := rfl
theorem digitsValue_cons (n : Nat) (c : Char) (cs : List Char) :
    digitsValue n (c :: cs) = digitsValue (10 * n + digitValue c) cs := by
  simp only [digitsValue, List.foldl_cons]
theorem digitsValue_append (n : Nat) (a b : List Char) :
    digitsValue n (a ++ b) = digitsValue (digitsValue n a) b := by
  simp [digitsValue, List.foldl_append]

/-- a run of digits that is not empty -/
def digitRun? (cs : List Char) : Option Nat :=
  if !cs.isEmpty && cs.all isDigit then some (digitsValue 0 cs) else none

/-- a leading sign and the rest -/
def splitSign : List Char → Bool × List Char
  | '-' :: r => (true, r)
  | '+' :: r => (false, r)
  | r => (false, r)

/-! ## integers -/

/-- an integer between `lo` and `hi` -/
def readInt? (lo hi : Int) (s : String) : Option Int := do
  let (neg, ds) := splitSign s.toList
  let n ← digitRun? ds
  let v : Int := if neg then -(n : Int) else n
  if lo ≤ v ∧ v ≤ hi then some v else none

/-- a natural number up to `hi`; only a plus sign may stand before it -/
def readNat? (hi : Nat) (s : String) : Option Nat := do
  let ds := match s.toList with
    | '+' :: r => r
    | r => r
  let n ← digitRun? ds
  if n ≤ hi then some n else none

def readInt32? (s : String) : Option Int32 :=
  (readInt? (-2147483648) 2147483647 s).map Int32.ofInt

def readInt64? (s : String) : Option Int64 :=
  (readInt? (-9223372036854775808) 9223372036854775807 s).map Int64.ofInt

def readUInt16? (s : String) : Option UInt16 := (readNat? 65535 s).map UInt16.ofNat

/-! ## floating numbers -/

/-- the exact decimal `± digits · 10^exp` -/
structure Exact where
  neg : Bool
  digits : Nat
  exp : Int
deriving DecidableEq, Repr

/-- the exponent after the digits: nothing, or a mark with an integer -/
def readExponent? : List Char → Option Int
  | [] => some 0
  | c :: r =>
    if c = 'e' ∨ c = 'E' then
      let (neg, ds) := splitSign r
      (digitRun? ds).map fun n => if neg then -(n : Int) else n
    else none

/-- digits, an optional point with digits, an optional exponent -/
def readUnsigned? (cs : List Char) : Option (Nat × Int) := do
  let whole := cs.takeWhile isDigit
  let rest := cs.dropWhile isDigit
  let (fraction, rest) := match rest with
    | '.' :: r => (r.takeWhile isDigit, r.dropWhile isDigit)
    | r => ([], r)
  if whole.isEmpty && fraction.isEmpty then none
  else
    let e ← readExponent? rest
    some (digitsValue 0 (whole ++ fraction), e - fraction.length)

def readExact? (cs : List Char) : Option Exact := do
  let (neg, r) := splitSign cs
  let (d, e) ← readUnsigned? r
  some ⟨neg, d, e⟩

/-- The bit pattern of the number nearest to a decimal.  Exponents that put the leading digit far
outside every format are decided at once. -/
def Exact.bits (f : BinaryFormat) (x : Exact) : Nat :=
  let lead : Int := x.exp + x.digits.log2 * 3 / 10
  if x.digits = 0 then f.roundRatio x.neg 0 1
  else if 1000 < lead then f.pack (.infinite x.neg)
  else if x.exp + x.digits.log2 < -1000 then f.roundRatio x.neg 0 1
  else f.roundRatio x.neg (x.digits * pow10 x.exp.toNat) (pow10 (-x.exp).toNat)

/-- the spelled-out numbers, in any case of letters -/
def readWord? (cs : List Char) : Option Binary :=
  let (neg, r) := splitSign cs
  let word := String.ofList (r.map Char.toLower)
  if word = "inf" ∨ word = "infinity" then some (.infinite neg)
  else if word = "nan" then some .nan
  else none

/-- the bit pattern of a floating text -/
def readBits? (f : BinaryFormat) (s : String) : Option Nat :=
  match readWord? s.toList with
  | some b => some (f.pack b)
  | none => (readExact? s.toList).map (Exact.bits f)

def readDouble? (s : String) : Option Float := (readBits? .double s).map doubleOfBits

def readSingle? (s : String) : Option Float32 := (readBits? .single s).map singleOfBits

end Resumable.Decimal
