import RegionPricing.Pricing.Listings

/-!
# Converting a merchant's prices

A merchant sells an article in shops of several regions. The price in a shop
follows from the merchant's price by the exchange rate, the profit rate, the
hidden fee and the share that the platform leaves; the way back is the
reverse. A profit rate counts only within the limit of the merchant, if there
is one. Profit rates and their limits are also written here, and a rate that is
written is dropped from the caches.
-/

namespace RegionPricing.Pricing

open RegionPricing.Factor RegionPricing.Market RegionPricing.Batch RegionPricing.Rules

/-- A rate stored at the profit precision. -/
def profitRatio (raw : Int64) : Decimal := FixedPoint.deflate raw FixedPoint.profitPrecision

/-- The shop, if it belongs to the merchant. -/
def ownedShop (shops : Answers Id Shop) (merchantId shopId : Id) : Outcome Shop := do
  let shop ← shops.lookup "shop" shopId
  if shop.merchantId = some merchantId then return shop
  else throw ⟨.notFound, "shop " ++ shopId.text ++ " under merchant " ++ merchantId.text⟩

/-- Whether a rate keeps within the limit of the merchant; without a limit every
rate does. -/
def checkLimit (limits : Answers Id ProfitRateLimit) (merchantId : Id) (rate : Int64) :
    Outcome Unit :=
  match limits.lookup "profit rate limit" merchantId with
  | .ok limit =>
    if limit.contains rate then .ok ()
    else .error ⟨.profitRateLimit, "profit rate " ++ Text.signedNumeral rate.toInt ++
      " outside [" ++ Text.signedNumeral limit.least.toInt ++ ", " ++
      Text.signedNumeral limit.greatest.toInt ++ "] for merchant " ++ merchantId.text⟩
  | .error ⟨.notFound, _⟩ => .ok ()
  | .error f => .error f

/-- The corridor from the merchant's region to the shop's. -/
def conversionCorridor (shop : Shop) : Corridor := ⟨shop.merchant, shop.region⟩

/-- What the prices of a batch depend on. -/
structure ConversionFactors where
  shops : Answers Id Shop
  commissions : Answers Id Commission
  exchangeRates : Answers Corridor Decimal
  profitRates : Answers MerchantShop Int64
  limits : Answers Id ProfitRateLimit
  hiddenFees : Answers HiddenFeeKey Decimal

/-- The key of the profit rate of a query. -/
def profitKey (q : ConversionQuery) : MerchantShop := ⟨q.merchantId, q.shopId⟩

/-- The key of the hidden fee of a query. -/
def feeKey (q : ConversionQuery) : HiddenFeeKey := ⟨q.shopId, q.article.itemId, q.direction⟩

/-- The key of the hidden fee of an article. -/
def articleKey (q : ArticleQuery) : HiddenFeeKey := ⟨q.shopId, q.itemId, q.direction⟩

/-- The corridors of the shops that are known. -/
def corridorsOf (shops : Answers Id Shop) (qs : List ConversionQuery) : List Corridor :=
  (qs.filterMap fun q =>
    match shops.get? q.shopId with
    | some (.ok shop) => some (conversionCorridor shop)
    | _ => none).eraseDups

namespace Setup

variable {σ : Type}

/-- What the prices of a batch depend on. -/
def conversionFactors (s : Setup σ) (qs : List ConversionQuery) : Session σ ConversionFactors := do
  let shopIds := (qs.map ConversionQuery.shopId).eraseDups
  let shops ← s.shops.fetch shopIds
  return {
    shops
    commissions := ← s.commissions.fetch shopIds
    exchangeRates := ← exchangeRates.fetch (corridorsOf shops qs)
    profitRates := ← profitRates.fetch (qs.map profitKey).eraseDups
    limits := ← profitRateLimits.fetch (qs.map ConversionQuery.merchantId).eraseDups
    hiddenFees := ← s.hiddenFees.fetch (qs.map feeKey).eraseDups }

/-- The hidden fee of each article in a shop of its merchant. -/
def articleFees (s : Setup σ) (qs : List ArticleQuery) : Session σ (List (Outcome Decimal)) := do
  let shops ← s.shops.fetch (qs.map ArticleQuery.shopId).eraseDups
  let fees ← s.hiddenFees.fetch (qs.map articleKey).eraseDups
  return qs.map fun q => do
    let _ ← ownedShop shops q.merchantId q.shopId
    fees.lookup "hidden fee" (articleKey q)

end Setup

/-- The share that the platform leaves of a sale. -/
def shareOf (c : Commission) : Except Fault Decimal :=
  Formula.keptShare (profitRatio c.commission) (profitRatio c.transaction) (profitRatio c.service)

/-- The price on the other side of a conversion. -/
def converted (direction : Direction) (price rate profit hidden share : Decimal) :
    Except Fault Decimal :=
  match direction with
  | .forward => Formula.shopPrice price rate profit hidden share
  | .reverse => Formula.merchantPrice price rate profit hidden share

/-- The region whose currency the converted price is in. -/
def conversionRegion (direction : Direction) (shop : Shop) : Region :=
  match direction with
  | .forward => shop.region
  | .reverse => shop.merchant

/-- The converted price, rounded to the currency it is in. -/
def conversionPrice (book : Book) (factors : ConversionFactors) (q : ConversionQuery) :
    Evaluation Int64 := do
  let shop ← ofExcept (ownedShop factors.shops q.merchantId q.shopId)
  let profitRate ← ofExcept (factors.profitRates.lookup "profit rate" (profitKey q))
  ofExcept (checkLimit factors.limits q.merchantId profitRate)
  let commission ← ofExcept (factors.commissions.lookup "commission rates" q.shopId)
  let share ← shareOf commission
  let rate ← ofExcept (factors.exchangeRates.lookup "exchange rate" (conversionCorridor shop))
  let hidden ← ofExcept (factors.hiddenFees.lookup "hidden fee" (feeKey q))
  let price ← converted q.direction (FixedPoint.priceOfRaw q.price) rate (profitRatio profitRate)
    hidden share
  charged book (conversionRegion q.direction shop) price

/-! ## Writing profit rates and their limits -/

section

variable {σ : Type}

/-- Stores a profit rate that keeps within the limit. -/
def storeProfitRate (limits : Answers Id ProfitRateLimit) (e : ProfitRateEntry) :
    Session σ (Outcome Unit) :=
  match checkLimit limits e.merchantId e.rate with
  | .ok () => writing fun store => store.putProfitRate ⟨e.merchantId, e.shopId⟩ e.rate
  | .error f => return .error f

/-- The keys of the entries that were stored. -/
def storedKeys (es : List ProfitRateEntry) (outcomes : List (Outcome Unit)) : List MerchantShop :=
  (es.zip outcomes).filterMap fun e =>
    match e.2 with
    | .ok () => some ⟨e.1.merchantId, e.1.shopId⟩
    | .error _ => none

/-- Stores profit rates one after the other, each checked against the limit of
its merchant, and drops the stored ones from the caches. -/
def setProfitRates (es : List ProfitRateEntry) : Session σ (List (Outcome Unit)) := do
  let limits ← profitRateLimits.fetch (es.map ProfitRateEntry.merchantId).eraseDups
  let outcomes ← es.mapM (storeProfitRate limits)
  let stored := storedKeys es outcomes
  if !stored.isEmpty then profitRates.forget stored
  return outcomes

/-- Whether a rate can be a bound of a limit. -/
def isBound (rate : Int64) : Bool := 0 < rate && rate ≤ maxProfitRate

/-- Stores a limit and drops it from the caches. -/
def setLimit (l : ProfitRateLimit) : Session σ (Outcome Unit) := do
  if !isBound l.least || !isBound l.greatest || l.greatest < l.least then
    return .error ⟨.parameter, "profit rate limit [" ++ Text.signedNumeral l.least.toInt ++ ", " ++
      Text.signedNumeral l.greatest.toInt ++ "] must satisfy 0 < min <= max <= " ++
      Text.signedNumeral maxProfitRate.toInt⟩
  match ← writing fun store => store.putLimit l with
  | .error f => return .error f
  | .ok () =>
    profitRateLimits.forget [l.merchantId]
    return .ok ()

end

end RegionPricing.Pricing
