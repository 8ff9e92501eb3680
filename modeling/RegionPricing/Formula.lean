import RegionPricing.Failure
import RegionPricing.Decimal.Rounding
import RegionPricing.Decimal.Text

/-!
# Price formulas

Three kinds of price are computed from real (not fixed-point) values, none of
them rounded to a currency here:

* the price of a local listing in an affiliate region (`affiliatePrice`),
* the price of a cross-border listing (`crossBorderPrice`),
* the price of a merchant's article in a shop, and back (`shopPrice`,
  `merchantPrice`), with the discount between the two (`discountedPrice`,
  `discountRate`).
-/

namespace RegionPricing.Formula

/-- The value itself when it is positive, one otherwise. -/
def positiveOrOne (v : Decimal) : Decimal := if v.isPositive then v else .one

/-! ## Local listings -/

/-- What the price of a listing depends on besides the listing. -/
structure ListingFactors where
  exchangeRate : Decimal
  regionMargin : Decimal
  hiddenPrice : Decimal
  shippingFee : Decimal

/-- A listing to be priced in an affiliate region. -/
structure Listing where
  primaryPrice : Decimal
  /-- In grams. -/
  weight : Decimal
  /-- Absent when nothing is configured for the corridor. -/
  factors : Option ListingFactors
  itemMargin : Decimal
  shopMargin : Decimal
  overseaRate : Option Decimal

/-- The oversea rate, if it lies between zero and one, and zero otherwise. -/
def effectiveOversea (rate : Option Decimal) : Decimal :=
  match rate with
  | some r => if Decimal.zero.le r && r.le .one then r else .zero
  | none => .zero

/-- `(p * (1 - oversea) / fx + hidden + shipping) * region * shop * item`; zero
without a weight, the primary price without factors. -/
def affiliatePrice (l : Listing) : Except Fault Decimal :=
  if !l.weight.isPositive then .ok .zero
  else
    match l.factors with
    | none => .ok l.primaryPrice
    | some f => do
      let exchangeRate := if f.exchangeRate.isZero then .one else f.exchangeRate
      let kept ← Decimal.one.sub (effectiveOversea l.overseaRate)
      let earned ← l.primaryPrice.mul kept
      let converted ← earned.div exchangeRate
      let withHidden ← converted.add f.hiddenPrice
      let withFees ← withHidden.add f.shippingFee
      let regional ← withFees.mul f.regionMargin
      let ofShop ← regional.mul (positiveOrOne l.shopMargin)
      ofShop.mul (positiveOrOne l.itemMargin)

/-! ## Cross-border listings -/

/-- A cross-border listing to be priced. -/
structure CrossBorderListing where
  primaryPrice : Decimal
  priceRatio : Decimal
  exchangeRate : Decimal
  hiddenPrice : Decimal
  ratio : Decimal
  countryMargin : Decimal
  shopMargin : Decimal
  itemMargin : Decimal
  finalFee : Decimal

/-- `1 + country + shop + item`, or one when that is not positive. -/
def combinedMargin (country shop item : Decimal) : Except Fault Decimal := do
  let a ← Decimal.one.add country
  let b ← a.add shop
  let c ← b.add item
  return positiveOrOne c

/-- `(p * price ratio * fx + hidden) * ratio * margin * final fee`. -/
def crossBorderPrice (l : CrossBorderListing) : Except Fault Decimal := do
  let margin ← combinedMargin l.countryMargin l.shopMargin l.itemMargin
  let priced ← l.primaryPrice.mul l.priceRatio
  let converted ← priced.mul l.exchangeRate
  let withFee ← converted.add l.hiddenPrice
  let scaled ← withFee.mul l.ratio
  let withMargin ← scaled.mul margin
  withMargin.mul l.finalFee

/-! ## Merchant prices and shop prices -/

/-- `1 - commission - transaction - service`, or one when that is not positive. -/
def keptShare (commission transaction service : Decimal) : Except Fault Decimal := do
  let a ← Decimal.one.sub commission
  let b ← a.sub transaction
  let c ← b.sub service
  return positiveOrOne c

/-- From the merchant's price to the shop's: `(p * fx * profit + hidden) / share`. -/
def shopPrice (price exchangeRate profitRate hiddenFee share : Decimal) :
    Except Fault Decimal := do
  let converted ← price.mul exchangeRate
  let withProfit ← converted.mul profitRate
  let numerator ← withProfit.add hiddenFee
  return (numerator.div? (positiveOrOne share)).getD numerator

/-- From the shop's price to the merchant's: `(p * share - hidden) / (fx * profit)`,
and zero when the hidden fee is not covered. -/
def merchantPrice (price exchangeRate profitRate hiddenFee share : Decimal) :
    Except Fault Decimal :=
  if exchangeRate.isZero || profitRate.isZero then .ok .zero
  else do
    let kept ← price.mul share
    let numerator ← kept.sub hiddenFee
    if numerator.isNegative then return .zero
    let divisor ← exchangeRate.mul profitRate
    return (numerator.div? divisor).getD .zero

/-! ## Discounts -/

/-- A discount rate must lie strictly between zero and the precision. -/
def checkRate (rate : Decimal) (precision : Int64) : Outcome Unit :=
  if rate.isPositive && rate.lt (.ofInt64 precision) then .ok ()
  else .error ⟨.invalidDiscountRate,
    "rate " ++ rate.canonical ++ " outside (0, " ++ Text.signedNumeral precision.toInt ++ ")"⟩

/-- The price after a discount: `price * (precision - rate) / precision`. -/
def discountedPrice (price rate : Decimal) (precision : Int64) : Evaluation Decimal := do
  match checkRate rate precision with
  | .error f => throw f
  | .ok () =>
    let kept ← (Decimal.ofInt64 precision).sub rate
    let scaled ← price.mul kept
    scaled.div (.ofInt64 precision)

/-- The discount that leads from one price to another, with two places. -/
def discountRate (price discounted : Decimal) (precision : Int64) : Evaluation Decimal := do
  let difference ← price.sub discounted
  match difference.div? price with
  | none => throw ⟨.invalidDiscountRate, "mtsku price is zero"⟩
  | some ratio =>
    let exact ← ratio.mul (.ofInt64 precision)
    let rate := exact.roundHalfAway 2
    match checkRate rate precision with
    | .error f => throw f
    | .ok () => return rate

end RegionPricing.Formula
