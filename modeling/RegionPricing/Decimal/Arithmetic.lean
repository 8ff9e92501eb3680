import RegionPricing.Decimal.Basic

/-!
# Decimal arithmetic

Each operation takes the exact result and rounds it by `ofFraction?`: a sum or
difference to at most the larger of the two scales, a product to at most the
sum of the scales, a quotient to at most 28 places. `add?` to `div?` answer
nothing when no scale fits (or the divisor is zero); `add` to `div` say which
operation failed.
-/

namespace RegionPricing

/-- A failure of arithmetic that no formula expects. It ends the evaluation in
which it happens. -/
inductive Fault where
  | addition
  | subtraction
  | multiplication
  | division
  | divisionByZero
  /-- A count of decimal places that does not fit a word of 32 bits. -/
  | placesOverflow
  /-- The magnitude of the least number of 32 bits. -/
  | magnitudeOverflow
  deriving DecidableEq

/-- The fault in words. -/
def Fault.message : Fault → String
  | .addition => "Addition overflowed"
  | .subtraction => "Subtraction overflowed"
  | .multiplication => "Multiplication overflowed"
  | .division => "Division overflowed"
  | .divisionByZero => "Division by zero"
  | .placesOverflow => "attempt to add with overflow"
  | .magnitudeOverflow => "attempt to negate with overflow"

namespace Decimal

def add? (a b : Decimal) : Option Decimal :=
  ofFraction? (a.coeff * powerOfTen b.scale + b.coeff * powerOfTen a.scale)
    (powerOfTen (a.scale + b.scale)) (Nat.max a.scale b.scale)

def sub? (a b : Decimal) : Option Decimal := a.add? b.neg

def mul? (a b : Decimal) : Option Decimal :=
  ofFraction? (a.coeff * b.coeff) (powerOfTen (a.scale + b.scale))
    (Nat.min (a.scale + b.scale) 28)

/-- The quotient; nothing for a divisor of zero. -/
def div? (a b : Decimal) : Option Decimal :=
  if b.isZero then none
  else
    let sign : Int := if b.negative then -1 else 1
    ofFraction? (sign * a.coeff * powerOfTen b.scale) (b.mantissa * powerOfTen a.scale) 28

def add (a b : Decimal) : Except Fault Decimal :=
  match a.add? b with
  | some r => .ok r
  | none => .error .addition

def sub (a b : Decimal) : Except Fault Decimal :=
  match a.sub? b with
  | some r => .ok r
  | none => .error .subtraction

def mul (a b : Decimal) : Except Fault Decimal :=
  match a.mul? b with
  | some r => .ok r
  | none => .error .multiplication

def div (a b : Decimal) : Except Fault Decimal :=
  if b.isZero then .error .divisionByZero
  else
    match a.div? b with
    | some r => .ok r
    | none => .error .division

/-- The sum of a list, added up from the left. -/
def sum (xs : List Decimal) : Except Fault Decimal := xs.foldlM add zero

end Decimal

end RegionPricing
