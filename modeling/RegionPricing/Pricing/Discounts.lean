import RegionPricing.Formula
import RegionPricing.FixedPoint
import RegionPricing.Batch.Query

/-!
# Discounts

A discount relates the merchant's price of an article and the price in a shop
by a rate, stored at the profit precision. One of shop price and rate is given,
the other is asked for.
-/

namespace RegionPricing.Pricing

open RegionPricing.Batch

/-- The discount of a query. -/
def discount (q : DiscountQuery) : Evaluation Discount := do
  let price := FixedPoint.priceOfRaw q.merchantPrice
  match q.target with
  | .priceFromRate raw =>
    let rate := Decimal.ofInt64 raw
    let discounted ← Formula.discountedPrice price rate FixedPoint.profitPrecision
    return ⟨FixedPoint.rawOfPrice discounted, rate⟩
  | .rateFromPrice raw =>
    let rate ← Formula.discountRate price (FixedPoint.priceOfRaw raw) FixedPoint.profitPrecision
    return ⟨raw, rate⟩

end RegionPricing.Pricing
