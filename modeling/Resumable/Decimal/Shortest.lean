import Resumable.Decimal.Binary

/-!
# The shortest decimal that reads back

The reals that round to a number `m · 2^q` of a format form an interval around it, which holds its
ends exactly when `m` is even.  The shortest decimal is sought on the grids of 1, 2, … digits: the
first grid with a point in the interval wins, of two such neighbours the nearer one, and an exact
tie is left to the caller.

* `shortest` : the decimal `d · 10^k` for `m · 2^q`, as the pair `(d, k)`.

Everything is compared as natural numbers: the number in quarters of its unit against a grid point,
both brought to a common scale.
-/

namespace Resumable.Decimal

/-- which of two equally near decimals is taken -/
inductive Tie where
  | up
  | even
deriving DecidableEq, Repr

/-- `a · 2^r` on the scale of `10^k`-grid comparisons -/
def scaleBinary (a : Nat) (r k : Int) : Nat := a * pow2 r.toNat * pow10 (-k).toNat

/-- `d · 10^k` on the scale of comparisons with multiples of `2^r` -/
def scaleDecimal (d : Nat) (r k : Int) : Nat := d * pow10 k.toNat * pow2 (-r).toNat

/-- the interval of reals that round to a number, in quarters of its unit -/
structure Span where
  lo : Nat
  mid : Nat
  hi : Nat
  /-- exponent of a quarter -/
  exp : Int
  /-- the ends belong to it -/
  closed : Bool
deriving DecidableEq, Repr

/-- the interval around `m · 2^q`; below a power of two the unit is half as large -/
def BinaryFormat.span (f : BinaryFormat) (m : Nat) (q : Int) : Span :=
  { lo := 4 * m - (if m = f.unit ∧ f.minExp < q then 1 else 2)
    mid := 4 * m
    hi := 4 * m + 2
    exp := q - 2
    closed := m % 2 == 0 }

/-- the grid point `d · 10^k` lies in the interval -/
def Span.has (s : Span) (d : Nat) (k : Int) : Bool :=
  let x := scaleDecimal d s.exp k
  let lo := scaleBinary s.lo s.exp k
  let hi := scaleBinary s.hi s.exp k
  if s.closed then lo ≤ x && x ≤ hi else lo < x && x < hi

/-- the greatest grid point not above the number -/
def Span.floor (s : Span) (k : Int) : Nat :=
  scaleBinary s.mid s.exp k / scaleDecimal 1 s.exp k

/-- twice the rest above the grid point `d`, against one grid step -/
def Span.compareHalf (s : Span) (d : Nat) (k : Int) : Ordering :=
  compare (2 * (scaleBinary s.mid s.exp k - scaleDecimal d s.exp k)) (scaleDecimal 1 s.exp k)

/-- the point of the `10^k`-grid taken for the number, if one lies in the interval -/
def Span.onGrid? (s : Span) (tie : Tie) (k : Int) : Option Nat :=
  let d := s.floor k
  match s.has d k, s.has (d + 1) k with
  | false, false => none
  | true, false => some d
  | false, true => some (d + 1)
  | true, true =>
    match s.compareHalf d k with
    | .lt => some d
    | .gt => some (d + 1)
    | .eq => some (match tie with | .up => d + 1 | .even => d + d % 2)

/-- the exponent of the leading decimal digit of the number -/
def Span.leadExp (s : Span) : Int :=
  let e : Int := (s.mid.log2 + s.exp) * 30103 / 100000
  if scaleDecimal 1 s.exp (e + 1) ≤ scaleBinary s.mid s.exp (e + 1) then e + 1 else e

/-- trailing zeros of a decimal moved into its exponent -/
def stripZeros : Nat → Nat → Int → Nat × Int
  | 0, d, k => (d, k)
  | fuel + 1, d, k => if d ≠ 0 ∧ d % 10 = 0 then stripZeros fuel (d / 10) (k + 1) else (d, k)

/-- the first grid with a point in the interval, from the exponent `k` downward -/
def Span.search (s : Span) (tie : Tie) : Nat → Int → Nat × Int
  | 0, k => (s.floor k, k)
  | fuel + 1, k =>
    match s.onGrid? tie k with
    | some d => stripZeros 20 d k
    | none => s.search tie fuel (k - 1)

/-- the shortest decimal `d · 10^k` that reads back as `m · 2^q`, the nearest one of its length -/
def shortest (f : BinaryFormat) (tie : Tie) (m : Nat) (q : Int) : Nat × Int :=
  if m = 0 then (0, 0)
  else
    let s := f.span m q
    s.search tie 17 s.leadExp

end Resumable.Decimal
