import Resumable.Decimal.Shortest

/-!
# Decimal text of a number

How the shortest digits of a floating number are laid out: positional with at least one decimal
inside a window of exponents, scientific outside of it.  The window, the sign of the exponent and
the choice between two equally near decimals are the fields of one record, and each output of the
library names its record.

* `Layout.print` : the text of a number given by its parts;
* `Layout.listing` : the record of assembly text and of printed values;
* `Layout.jsonDouble`, `Layout.jsonSingle` : the records of JSON numbers;
* `plainDouble` : a double without exponents.
-/

namespace Resumable.Decimal

/-- how digits are laid out -/
structure Layout where
  /-- least exponent of the leading digit written positionally -/
  low : Int
  /-- greatest exponent of the leading digit written positionally -/
  high : Int
  /-- a plus sign stands before an exponent that is not negative -/
  plus : Bool
  /-- which of two equally near decimals is written -/
  tie : Tie
deriving DecidableEq, Repr

namespace Layout

/-- Printed numbers are positional from `10^-4` up to below `10^16`; their exponents have no plus
sign, and a tie goes up. -/
def listing : Layout := ⟨-4, 15, false, .up⟩

/-- Double constants in JSON are positional from `10^-5` up to below `10^16`, with signed
exponents, and a tie goes to the even digit. -/
def jsonDouble : Layout := ⟨-5, 15, true, .even⟩

/-- Single constants in JSON are positional from `10^-6` up to below `10^13`. -/
def jsonSingle : Layout := ⟨-6, 12, true, .even⟩

/-- decimal digits of a natural number -/
def digits (n : Nat) : List Char := Nat.toDigits 10 n

def zeros (n : Nat) : List Char := List.replicate n '0'

/-- decimal text of an integer -/
def integer (n : Int) : List Char :=
  if n < 0 then '-' :: digits n.natAbs else digits n.natAbs

/-- the digits `ds`, the first one of weight `10^e`, with a decimal point -/
def positional (ds : List Char) (e : Int) : List Char :=
  if e < 0 then '0' :: '.' :: zeros (-e - 1).toNat ++ ds
  else
    let whole := e.toNat + 1
    if ds.length ≤ whole then ds ++ zeros (whole - ds.length) ++ ['.', '0']
    else ds.take whole ++ '.' :: ds.drop whole

/-- the digits `ds`, the first one of weight `10^e`, with an exponent -/
def scientific (l : Layout) (ds : List Char) (e : Int) : List Char :=
  let mantissa := match ds with
    | [] => []
    | [d] => [d]
    | d :: r => d :: '.' :: r
  let sign := if l.plus && 0 ≤ e then ['+'] else []
  mantissa ++ 'e' :: sign ++ integer e

/-- the decimal `d · 10^k` -/
def decimal (l : Layout) (d : Nat) (k : Int) : List Char :=
  if d = 0 then ['0', '.', '0']
  else
    let ds := digits d
    let e := k + ds.length - 1
    if l.low ≤ e ∧ e ≤ l.high then positional ds e else l.scientific ds e

/-- the text of a finite number -/
def finite (l : Layout) (f : BinaryFormat) (neg : Bool) (m : Nat) (q : Int) : String :=
  let (d, k) := shortest f l.tie m q
  String.ofList ((if neg then ['-'] else []) ++ l.decimal d k)

/-- the text of a number -/
def print (l : Layout) (f : BinaryFormat) : Binary → String
  | .nan => "NaN"
  | .infinite false => "inf"
  | .infinite true => "-inf"
  | .finite neg m q => l.finite f neg m q

end Layout

/-- printed text of a double -/
def printDouble (x : Float) : String := Layout.listing.print .double (ofDouble x)

/-- printed text of a single -/
def printSingle (x : Float32) : String := Layout.listing.print .single (ofSingle x)

/-- the JSON number of a double; what is not finite has none -/
def jsonDouble? (x : Float) : Option String :=
  match ofDouble x with
  | .finite neg m q => some (Layout.jsonDouble.finite .double neg m q)
  | _ => none

/-- the JSON number of a single; what is not finite has none -/
def jsonSingle? (x : Float32) : Option String :=
  match ofSingle x with
  | .finite neg m q => some (Layout.jsonSingle.finite .single neg m q)
  | _ => none

/-! ## without exponents -/

/-- the decimal `d · 10^k` in full, with a point only where there are digits behind it -/
def plain (d : Nat) (k : Int) : List Char :=
  if d = 0 then ['0']
  else
    let ds := Layout.digits d
    let e := k + ds.length - 1
    if 0 ≤ k then ds ++ Layout.zeros k.toNat else Layout.positional ds e

/-- A double in full: the fewest digits that read back, however small or large it is. -/
def plainDouble (x : Float) : String :=
  match ofDouble x with
  | .nan => "NaN"
  | .infinite neg => if neg then "-inf" else "inf"
  | .finite neg m q =>
    let (d, k) := shortest .double .up m q
    String.ofList ((if neg then ['-'] else []) ++ plain d k)

end Resumable.Decimal
