import Resumable.Text.Hex
import Resumable.Toml.Basic
import Resumable.Toml.Time

/-!
# Values of TOML that are one word

Truth values, integers, floating numbers, dates and times.  Single underscores may stand between
digits.  An integer has 64 bits; it has no leading zeros, or is written in base 16, 8 or 2 without a
sign.  A floating number needs digits on both sides of its point, and must not be too large.

* `Toml.word?` : the value of a word.
-/

namespace Resumable.Toml

open Decimal (isDigit splitSign digitsValue)

/-- digits of a kind without the single underscores between them -/
def ungrouped? (isDigit : Char → Bool) : List Char → Option (List Char)
  | [] => none
  | [c] => if isDigit c then some [c] else none
  | c :: '_' :: r => if isDigit c then (ungrouped? isDigit r).map (c :: ·) else none
  | c :: r => if isDigit c then (ungrouped? isDigit r).map (c :: ·) else none

/-- decimal digits without leading zeros -/
def wholeDigits? (cs : List Char) : Option (List Char) := do
  match ← ungrouped? isDigit cs with
  | ['0'] => some ['0']
  | '0' :: _ => none
  | ds => some ds

/-! ## integers -/

/-- value of a digit in a base of up to sixteen -/
def digitValue? (base : Nat) (c : Char) : Option Nat :=
  (Text.hexValue? c).bind fun d => if d < base then some d else none

/-- digits of a base without a sign -/
def based? (base : Nat) (cs : List Char) : Option Int := do
  let ds ← ungrouped? (fun c => (digitValue? base c).isSome) cs
  some ((ds.filterMap (digitValue? base)).foldl (fun n d => base * n + d) 0 : Nat)

def signed? (cs : List Char) : Option Int := do
  let (neg, r) := splitSign cs
  let n := digitsValue 0 (← wholeDigits? r)
  some (if neg then -(n : Int) else n)

def integer? (cs : List Char) : Option Int := do
  let n ← match cs with
    | '0' :: 'x' :: r => based? 16 r
    | '0' :: 'o' :: r => based? 8 r
    | '0' :: 'b' :: r => based? 2 r
    | cs => signed? cs
  if -9223372036854775808 ≤ n ∧ n ≤ 9223372036854775807 then some n else none

/-! ## floating numbers -/

def isExponentMark (c : Char) : Bool := c == 'e' || c == 'E'

/-- the exponent after its mark, with its sign and without underscores -/
def exponent? : List Char → Option (List Char)
  | '+' :: r => ungrouped? isDigit r
  | '-' :: r => (ungrouped? isDigit r).map ('-' :: ·)
  | r => ungrouped? isDigit r

/-- a number with a point or an exponent, without its sign and without underscores -/
def unsignedFloat? (cs : List Char) : Option (List Char) := do
  let isPart (c : Char) : Bool := isDigit c || c == '_'
  let whole ← wholeDigits? (cs.takeWhile isPart)
  match cs.dropWhile isPart with
  | '.' :: r =>
    let fraction ← ungrouped? isDigit (r.takeWhile isPart)
    match r.dropWhile isPart with
    | [] => some (whole ++ '.' :: fraction)
    | c :: r =>
      if isExponentMark c then some (whole ++ '.' :: fraction ++ 'e' :: (← exponent? r)) else none
  | c :: r => if isExponentMark c then some (whole ++ 'e' :: (← exponent? r)) else none
  | [] => none

/-- The value of a floating number.  One that is too large is refused where it is positive, and
infinite where it is negative. -/
def float? (cs : List Char) : Option Float := do
  let (neg, r) := splitSign cs
  let sign := if neg then ['-'] else []
  if r = ['i', 'n', 'f'] ∨ r = ['n', 'a', 'n'] then
    Decimal.readDouble? (String.ofList (sign ++ r))
  else
    let x ← Decimal.readDouble? (String.ofList (sign ++ (← unsignedFloat? r)))
    if x.isInf && !neg then none else some x

/-! ## words -/

/-- the value of a word -/
def word? (cs : List Char) : Option Toml :=
  if cs = ['t', 'r', 'u', 'e'] then some (.bool true)
  else if cs = ['f', 'a', 'l', 's', 'e'] then some (.bool false)
  else
    match integer? cs, float? cs, Time.read? cs with
    | some n, _, _ => some (.int n)
    | none, some x, _ => some (.float x)
    | none, none, some t => some (.time (String.ofList t))
    | none, none, none => none

end Resumable.Toml
