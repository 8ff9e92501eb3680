import RegionPricing.Decimal.Arithmetic
import RegionPricing.Decimal.Rounding
import RegionPricing.Json.Shape

/-!
# Rounding a price to its currency

A price is rounded up, either to a number of decimal places or to the next of
the price points n, n + 0.5, n + 0.9 and n + 0.99. A price that lies above a
price point by less than a tolerance, which depends on the number of places,
stays on it.
-/

namespace RegionPricing

/-- How the prices of a region are rounded. -/
structure PriceRounding where
  places : UInt32
  /-- Whether prices go to price points instead of decimal places. -/
  pricePoints : Bool
  deriving DecidableEq

namespace PriceRounding

/-- Two decimal places, for a region without a rule of its own. -/
def standard : PriceRounding := ⟨2, false⟩

/-- The tolerance `10 ^ -(places + 2)`; the exponent is a word of 32 bits. -/
def tolerance (places : UInt32) : Except Fault Decimal :=
  if places.toNat + 2 < 4294967296 then .ok (Decimal.pow10Neg (places.toNat + 2))
  else .error .placesOverflow

def half : Decimal := ⟨false, 5, 1, by decide, by decide⟩

def ninety : Decimal := ⟨false, 9, 1, by decide, by decide⟩

def ninetyNine : Decimal := ⟨false, 99, 2, by decide, by decide⟩

/-- The next price point that is not more than the tolerance below the price.
A price that is not positive stays as it is. -/
def toPricePoint (price : Decimal) (places : UInt32) : Except Fault Decimal :=
  if !price.isPositive then .ok price
  else do
    let eps ← tolerance places
    let whole := price.trunc
    let frac ← price.sub whole
    if frac.lt eps then return whole
    if frac.lt (← half.add eps) then return ← whole.add half
    if frac.lt (← ninety.add eps) then return ← whole.add ninety
    if frac.lt (← ninetyNine.add eps) then return ← whole.add ninetyNine
    whole.add Decimal.one

/-- The price rounded up to the decimal places. -/
def toPlaces (price : Decimal) (places : UInt32) : Decimal := price.roundUp places.toNat

/-- The price as it is charged. -/
def round (r : PriceRounding) (price : Decimal) : Except Fault Decimal :=
  if r.pricePoints then toPricePoint price r.places else .ok (toPlaces price r.places)

def toJson (r : PriceRounding) : Json :=
  .object [("decimal_places", .integer r.places.toNat),
    ("use_special_roundup", .bool r.pricePoints)]

def ofJson? : Json.Decoder PriceRounding := fun v => do
  let f ← Json.record? ["decimal_places", "use_special_roundup"] v
  return {
    places := ← f.required "decimal_places" Json.uint32?
    pricePoints := ← f.orDefault "use_special_roundup" false Json.bool? }

end PriceRounding

end RegionPricing
