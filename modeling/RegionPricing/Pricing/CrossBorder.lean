import RegionPricing.Pricing.Listings

/-!
# Cross-border listings

The price of a cross-border listing needs an exchange rate and a hidden price.
The rate is the stored one of the corridor, or else the one of its terms. The
hidden price comes from the tariff, by the choices of the item and the shop.
-/

namespace RegionPricing.Pricing

open RegionPricing.Factor RegionPricing.Market RegionPricing.Batch RegionPricing.Rules

/-- What the prices of a batch depend on: exchange rates by corridor and hidden
prices by query. -/
structure CrossBorderFactors where
  exchangeRates : Answers Corridor Decimal
  hiddenPrices : Answers Id Decimal

/-- The rate of a corridor: a rate that is not stored is taken from the terms. -/
def rateOrTerms (book : Book) (c : Corridor) (rate : Outcome Decimal) : Outcome Decimal :=
  match rate, book.terms? c with
  | .error ⟨.notFound, _⟩, some t => .ok t.effectiveExchangeRate
  | r, _ => r

/-- The parcel of a query. -/
def parcelOf (q : CrossBorderQuery) (shop : Shop) (item : Item) : Fee.Parcel where
  itemChoice := item.choice
  shopChoice := shop.choice
  merchantRegion := shop.merchantRegion
  corridor := q.corridor
  grams := FixedPoint.gramsOfRaw q.weight

/-- The hidden price of a query from the tariff. -/
def tariffPrice (book : Book) (shops : Answers Id Shop) (items : Answers Id Item)
    (q : CrossBorderQuery) : Outcome Decimal := do
  let shop ← shops.lookup "shop" q.shopId
  let item ← items.lookup "item" q.itemId
  match ← book.tariff.charge (parcelOf q shop item) with
  | some c => return c.fee
  | none => throw ⟨.notFound,
      "hidden fee rate table for item " ++ q.itemId.text ++ " " ++ q.corridor.text⟩

/-- What the prices of a batch depend on. -/
def Setup.crossBorderFactors {σ : Type} (s : Setup σ) (book : Book)
    (qs : List CrossBorderQuery) : Session σ CrossBorderFactors := do
  let shops ← s.shops.fetch (qs.map CrossBorderQuery.shopId).eraseDups
  let items ← s.items.fetch (qs.map CrossBorderQuery.itemId).eraseDups
  let rates ← exchangeRates.fetch (qs.map CrossBorderQuery.corridor).eraseDups
  return {
    exchangeRates := rates.mapValues (rateOrTerms book)
    hiddenPrices := .ofList (qs.map fun q => (q.id, tariffPrice book shops items q)) }

/-- What the formula needs of a query. -/
def crossBorderListing (q : CrossBorderQuery) (rate hidden : Decimal) :
    Formula.CrossBorderListing where
  primaryPrice := FixedPoint.priceOfRaw q.primaryPrice
  priceRatio := q.priceRatio
  exchangeRate := rate
  hiddenPrice := hidden
  ratio := q.ratio
  countryMargin := q.countryMargin
  shopMargin := q.shopMargin
  itemMargin := q.itemMargin
  finalFee := q.finalFee

/-- The price of a cross-border listing in the affiliate region. -/
def crossBorderPrice (book : Book) (factors : CrossBorderFactors) (q : CrossBorderQuery) :
    Evaluation Int64 := do
  let rate ← ofExcept (factors.exchangeRates.lookup "exchange rate" q.corridor)
  let hidden ← ofExcept (factors.hiddenPrices.lookup "hidden price" q.id)
  let price ← Formula.crossBorderPrice (crossBorderListing q rate hidden)
  charged book q.corridor.affiliate price

end RegionPricing.Pricing
