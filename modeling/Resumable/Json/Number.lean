import Resumable.Decimal.Reading

/-!
# Numbers in JSON

The value of a number is read in one pass with the arithmetic of doubles, so it may be a little off
the nearest double.  Digits are gathered into a significand of 64 bits.  Behind the first one that
does not fit, digits before the point still count by their place, and those behind it are dropped.
The significand is rounded to a double, and the power of ten is then multiplied with it, or divides
it, in steps of at most 308 places.

* `Json.Number.absorb` : the digits that fit a significand, and those that are left;
* `Json.Number.scale?` : a double moved by places;
* `Json.Number.double?` : the value of a number's text, if it is not too large.
-/

namespace Resumable.Json.Number

open Decimal (isDigit digitValue)

/-- the greatest significand -/
def maxSignificand : Nat := 18446744073709551615

/-- digits read onto a significand up to the first one that does not fit, and those that are left -/
def absorb (n : Nat) : List Char → Nat × List Char
  | [] => (n, [])
  | c :: r =>
    if 10 * n + digitValue c ≤ maxSignificand then absorb (10 * n + digitValue c) r else (n, c :: r)

theorem absorb_nil (n : Nat) : absorb n [] = (n, []) := rfl

theorem absorb_le {n : Nat} (h : n ≤ maxSignificand) (cs : List Char) :
    (absorb n cs).1 ≤ maxSignificand := by
  induction cs generalizing n with
  | nil => exact h
  | cons c r ih =>
    simp only [absorb]
    split
    · exact ih (by assumption)
    · exact h

/-- the double nearest to a natural number -/
def rounded (n : Nat) : Float :=
  Decimal.doubleOfBits (Decimal.BinaryFormat.double.roundRatio false n 1)

/-- the places of one step -/
def maxPlaces : Nat := 308

/-- the double nearest to a power of ten -/
def power (places : Nat) : Float := rounded (Decimal.pow10 places)

/-- A double moved by decimal places, step by step.  What is too large is nothing. -/
def scale? (x : Float) (places : Int) : Option Float :=
  if (maxPlaces : Int) < places then if x == 0 then some x else none
  else if 0 ≤ places then
    let y := x * power places.toNat
    if y.isInf then none else some y
  else if -(maxPlaces : Int) ≤ places then some (x / power (-places).toNat)
  else if x == 0 then some x
  else scale? (x / power maxPlaces) (places + maxPlaces)
termination_by (-places).toNat
decreasing_by simp only [maxPlaces] at *; omega

/-- the places that an exponent moves by; without one there are none -/
def exponent : List Char → Int
  | [] => 0
  | _ :: r =>
    let (neg, ds) := Decimal.splitSign r
    let n := Decimal.digitsValue 0 ds
    if neg then -(n : Int) else n

/-- the digits behind a point, and the rest -/
def fraction : List Char → List Char × List Char
  | '.' :: r => (r.takeWhile isDigit, r.dropWhile isDigit)
  | r => ([], r)

/-- the value of a number's text -/
def double? (text : String) : Option Float :=
  let (neg, r) := Decimal.splitSign text.toList
  let (n, surplus) := absorb 0 (r.takeWhile isDigit)
  let (digits, r) := fraction (r.dropWhile isDigit)
  let (n, dropped) := absorb n digits
  let places : Int := surplus.length - (digits.length - dropped.length) + exponent r
  (scale? (rounded n) places).map fun x => if neg then -x else x

end Resumable.Json.Number
