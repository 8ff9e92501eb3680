import RegionPricing.Decimal.Arithmetic
import RegionPricing.Decimal.Rounding

/-!
# Fixed-point numbers and the decimals they stand for

Prices, weights and rates are stored as whole numbers of 64 bits, inflated by
a fixed precision. The stored numbers 0 and -1 mean "unset" and "no value":
they are not scaled in either direction. A decimal too large to be stored
becomes the largest or the least stored number.
-/

namespace RegionPricing.FixedPoint

def pricePrecision : Int64 := 100000

def weightPrecision : Int64 := 100000

/-- The precision of exchange rates. -/
def ratePrecision : Int64 := 100000

/-- The precision of profit, commission and discount rates. -/
def profitPrecision : Int64 := 10000

/-- The stored number that means "no value". -/
def unset : Int64 := -1

/-- The stored weight that means "without bound". -/
def unboundedWeight : Int64 := 9223372036854700000

/-- The greater of a precision and one. -/
def atLeastOne (precision : Int64) : Int64 := if precision < 1 then 1 else precision

/-- The quotient of two stored numbers, which always fits a decimal; a divisor
of zero, which no caller passes, leaves the dividend. -/
def quotient (raw precision : Int64) : Decimal :=
  ((Decimal.ofInt64 raw).div? (Decimal.ofInt64 precision)).getD (Decimal.ofInt64 raw)

/-- The decimal that a stored number stands for. -/
def deflate (raw precision : Int64) : Decimal :=
  if raw = 0 ∨ raw = unset ∨ precision ≤ 0 then Decimal.ofInt64 raw
  else quotient raw precision

/-- The greatest or the least stored number, by the sign of the decimal. -/
def saturate (value : Decimal) : Int64 :=
  if value.isNegative then Int64.minValue else Int64.maxValue

/-- Whether a decimal is 0 or -1. -/
def isSentinel (value : Decimal) : Bool :=
  value.isZero || value.sameValue (Decimal.ofInt64 unset)

/-- The stored number of a decimal, rounded half away from zero. -/
def inflate (value : Decimal) (precision : Int64) : Int64 :=
  if isSentinel value then value.toInt64?.getD 0
  else
    match value.mul? (Decimal.ofInt64 (atLeastOne precision)) with
    | some scaled => ((scaled.roundHalfAway 0).toInt64?).getD (saturate value)
    | none => saturate value

def priceOfRaw (raw : Int64) : Decimal := deflate raw pricePrecision

def rawOfPrice (price : Decimal) : Int64 := inflate price pricePrecision

/-- The grams of a stored weight. -/
def gramsOfRaw (raw : Int64) : Decimal := deflate raw weightPrecision

/-- The stored weight of a number of grams. -/
def rawOfGrams (grams : Decimal) : Int64 := inflate grams weightPrecision

def rateOfRaw (raw : Int64) : Decimal := deflate raw ratePrecision

def rawOfRate (rate : Decimal) : Int64 := inflate rate ratePrecision

/-- Rounds to a number of places, then inflates and drops the fraction. -/
def roundedRaw (value : Decimal) (precision : Int64) (places : Nat) : Int64 :=
  let rounded := value.roundHalfAway places
  match rounded.mul? (Decimal.ofInt64 (atLeastOne precision)) with
  | some scaled => scaled.toInt64?.getD (saturate scaled)
  | none => saturate rounded

/-- Deflates without regard to unset values, then rounds to a number of places. -/
def roundedReal (raw precision : Int64) (places : Nat) : Decimal :=
  (quotient raw (atLeastOne precision)).roundHalfAway places

end RegionPricing.FixedPoint
