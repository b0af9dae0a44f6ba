import Resumable.Decimal.Remainder
import Resumable.Value

/-!
# Arithmetic on values

Integers are words that wrap; the quotient is rounded toward zero and the remainder has the sign of
the dividend.  Floating numbers follow the rules of their format.  An integer conversion of a
floating number is rounded toward zero and stays within the bounds; what is no number gives zero.
-/

namespace Resumable.Value

/-- why there is no result -/
inductive ArithFailure where
  /-- the operands are not both of the kind -/
  | illTyped
  | divideByZero
deriving DecidableEq, Repr

/-- an operation of 32-bit words -/
def arithInt (op : ArithOp) (a b : Int32) : Option Int32 :=
  match op with
  | .add => some (a + b)
  | .sub => some (a - b)
  | .mul => some (a * b)
  | .div => if b = 0 then none else some (a / b)
  | .rem => if b = 0 then none else some (a % b)

/-- an operation of 64-bit words -/
def arithLong (op : ArithOp) (a b : Int64) : Option Int64 :=
  match op with
  | .add => some (a + b)
  | .sub => some (a - b)
  | .mul => some (a * b)
  | .div => if b = 0 then none else some (a / b)
  | .rem => if b = 0 then none else some (a % b)

def arithSingle (op : ArithOp) (a b : Float32) : Float32 :=
  match op with
  | .add => a + b
  | .sub => a - b
  | .mul => a * b
  | .div => a / b
  | .rem => Decimal.remSingle a b

def arithDouble (op : ArithOp) (a b : Float) : Float :=
  match op with
  | .add => a + b
  | .sub => a - b
  | .mul => a * b
  | .div => a / b
  | .rem => Decimal.remDouble a b

/-- an integer result, which is missing exactly after a division by zero -/
def ofQuotient {α : Type} (make : α → Value) : Option α → Except ArithFailure Value
  | some v => .ok (make v)
  | none => .error .divideByZero

/-- an operation of a kind -/
def arith (op : ArithOp) (k : Kind) (a b : Value) : Except ArithFailure Value :=
  match k, a, b with
  | .int, .int a, .int b => ofQuotient .int (arithInt op a b)
  | .long, .long a, .long b => ofQuotient .long (arithLong op a b)
  | .float, .float a, .float b => .ok (.float (arithSingle op a b))
  | .double, .double a, .double b => .ok (.double (arithDouble op a b))
  | _, _, _ => .error .illTyped

/-- the negative of a value of a kind -/
def neg? (k : Kind) (v : Value) : Option Value :=
  match k, v with
  | .int, .int v => some (.int (-v))
  | .long, .long v => some (.long (-v))
  | .float, .float v => some (.float (-v))
  | .double, .double v => some (.double (-v))
  | _, _ => none

/-- a value of one numeric kind as one of another; no kind is converted to itself -/
def convert? (source target : Kind) (v : Value) : Option Value :=
  match source, target, v with
  | .int, .long, .int v => some (.long v.toInt64)
  | .int, .float, .int v => some (.float v.toFloat32)
  | .int, .double, .int v => some (.double v.toFloat)
  | .long, .int, .long v => some (.int v.toInt32)
  | .long, .float, .long v => some (.float v.toFloat32)
  | .long, .double, .long v => some (.double v.toFloat)
  | .float, .int, .float v => some (.int v.toInt32)
  | .float, .long, .float v => some (.long v.toInt64)
  | .float, .double, .float v => some (.double v.toFloat)
  | .double, .int, .double v => some (.int v.toInt32)
  | .double, .long, .double v => some (.long v.toInt64)
  | .double, .float, .double v => some (.float v.toFloat32)
  | _, _, _ => none

/-- −1, 0 or 1; what does not compare gives `otherwise` -/
def ordering {α : Type} [BEq α] (less : α → α → Bool) (a b : α) (otherwise : Int32) : Int32 :=
  if less a b then -1 else if a == b then 0 else if less b a then 1 else otherwise

def orderSingle (a b : Float32) (otherwise : Int32) : Int32 :=
  ordering (fun x y => x < y) a b otherwise

def orderDouble (a b : Float) (otherwise : Int32) : Int32 :=
  ordering (fun x y => x < y) a b otherwise

/-- a three-way comparison of two values of its kind -/
def compare? (op : CompareOp) (a b : Value) : Option Int32 :=
  match op, a, b with
  | .lcmp, .long a, .long b => some (ordering (fun x y => x < y) a b 0)
  | .fcmpl, .float a, .float b => some (orderSingle a b (-1))
  | .fcmpg, .float a, .float b => some (orderSingle a b 1)
  | .dcmpl, .double a, .double b => some (orderDouble a b (-1))
  | .dcmpg, .double a, .double b => some (orderDouble a b 1)
  | _, _, _ => none

/-- the result of an operation has its kind -/
theorem kind?_arith {op : ArithOp} {k : Kind} {a b v : Value} (h : arith op k a b = .ok v) :
    v.kind? = some k := by
  cases k <;> cases a <;> cases b <;> simp only [arith, reduceCtorEq] at h <;>
    first
    | (cases h; rfl)
    | (revert h; unfold ofQuotient; split <;> intro h <;> cases h; rfl)

theorem kind?_neg? {k : Kind} {v w : Value} (h : neg? k v = some w) : w.kind? = some k := by
  cases k <;> cases v <;> simp [neg?] at h <;> subst h <;> rfl

theorem kind?_convert? {s t : Kind} {v w : Value} (h : convert? s t v = some w) :
    w.kind? = some t := by
  cases s <;> cases t <;> cases v <;> simp [convert?] at h <;> subst h <;> rfl

end Resumable.Value
