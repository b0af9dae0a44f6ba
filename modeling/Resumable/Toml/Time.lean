import Resumable.Decimal.Layout
import Resumable.Decimal.Reading

/-!
# Dates and times of TOML

A date, a time of day, or a date with a time and perhaps an offset.  Two writings of one moment have
one text: a capital letter between date and time, up to nine digits of a second without zeros at
their end, and an offset of nothing as a capital letter or with a plus sign, as it is written.

* `Time.read?` : the text of what is written.
-/

namespace Resumable.Toml.Time

open Decimal (isDigit digitsValue)

/-! ## parts -/

/-- exactly `n` digits with a value in the range, and the rest -/
def number? (n lo hi : Nat) (cs : List Char) : Option (Nat × List Char) :=
  let ds := cs.take n
  let v := digitsValue 0 ds
  if ds.length = n ∧ ds.all isDigit ∧ lo ≤ v ∧ v ≤ hi then some (v, cs.drop n) else none

/-- the rest after a character -/
def after? (c : Char) : List Char → Option (List Char)
  | d :: r => if d = c then some r else none
  | [] => none

def isLeapYear (year : Nat) : Bool := year % 4 == 0 && (year % 100 != 0 || year % 400 == 0)

def daysOfMonth (year month : Nat) : Nat :=
  if month = 2 then (if isLeapYear year then 29 else 28)
  else if month = 4 ∨ month = 6 ∨ month = 9 ∨ month = 11 then 30
  else 31

/-- `n` in two digits -/
def two (n : Nat) : List Char := (if n < 10 then ['0'] else []) ++ Decimal.Layout.digits n

/-! ## date and time of day -/

/-- a date, which keeps its text, and the rest -/
def date? (cs : List Char) : Option (List Char × List Char) := do
  let (year, r) ← number? 4 0 9999 cs
  let (month, r) ← number? 2 1 12 (← after? '-' r)
  let (_, r) ← number? 2 1 (daysOfMonth year month) (← after? '-' r)
  some (cs.take 10, r)

/-- the digits of a second that count -/
def fraction (ds : List Char) : List Char :=
  match ((ds.take 9).reverse.dropWhile (· == '0')).reverse with
  | [] => []
  | ds => '.' :: ds

/-- a time of day and the rest -/
def ofDay? (cs : List Char) : Option (List Char × List Char) := do
  let (_, r) ← number? 2 0 23 cs
  let (_, r) ← number? 2 0 59 (← after? ':' r)
  let (_, r) ← number? 2 0 60 (← after? ':' r)
  match r with
  | '.' :: r =>
    let ds := r.takeWhile isDigit
    if ds.isEmpty then none else some (cs.take 8 ++ fraction ds, r.dropWhile isDigit)
  | r => some (cs.take 8, r)

/-- an offset that ends the text -/
def offset? : List Char → Option (List Char)
  | [] => some []
  | ['Z'] | ['z'] => some ['Z']
  | sign :: r => do
    let (hours, r) ← number? 2 0 23 r
    let (minutes, r) ← number? 2 0 59 (← after? ':' r)
    if !r.isEmpty then none
    else
      let value := two hours ++ ':' :: two minutes
      if sign = '+' then some ('+' :: value)
      else if sign = '-' then some ((if hours + minutes = 0 then '+' else '-') :: value)
      else none

/-- a character between date and time -/
def isSeparator (c : Char) : Bool := c == 'T' || c == 't' || c == ' '

/-- the text of a date, a time of day, or both -/
def read? (cs : List Char) : Option (List Char) :=
  match date? cs with
  | some (date, []) => some date
  | some (date, c :: r) =>
    if isSeparator c then do
      let (clock, r) ← ofDay? r
      some (date ++ 'T' :: clock ++ (← offset? r))
    else none
  | none =>
    match ofDay? cs with
    | some (clock, []) => some clock
    | _ => none

end Resumable.Toml.Time
