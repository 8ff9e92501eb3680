import RegionPricing.Batch.Check
import RegionPricing.Batch.Request
import RegionPricing.Pricing.CrossBorder
import RegionPricing.Pricing.Conversion
import RegionPricing.Pricing.Discounts

/-!
# The engine

The operations on batches. Each checks the batch first; what a refused batch
asks for is not looked up. Then the factors are looked up, once for all queries,
and each query is evaluated on its own, so that one failing query does not touch
the others.
-/

namespace RegionPricing.Engine

open RegionPricing.Pricing RegionPricing.Batch RegionPricing.Rules

variable {σ α β : Type}

/-- What an operation comes to: a value, or the failure of the whole batch. -/
abbrev Result (α : Type) := Except Fault (Outcome α)

/-- The answers to the queries of a batch. -/
abbrev Answers (β : Type) := Result (List (Answer β))

/-- Answers a batch that passes the check. -/
def checked [Checked α] (s : Setup σ) (qs : List α) (answers : Session σ (Answers β)) :
    Session σ (Answers β) :=
  match refusal? s.maxBatch qs with
  | some r => return .ok (.error r.toFailure)
  | none => answers

/-- The answers to queries with fees, as stored prices. -/
def feeAnswers [Identified α] (qs : List α) (fees : List (Outcome Decimal)) :
    List (Answer Int64) :=
  (qs.zip fees).map fun q => answerTo q.1 (q.2.map FixedPoint.rawOfPrice)

/-- The hidden prices of local listings. -/
def hiddenPrices (s : Setup σ) (book : Book) (qs : List ListingQuery) :
    Session σ (Answers Int64) :=
  checked s qs do
    let fees ← s.hiddenPrices book qs
    return fees.map fun fees => .ok (feeAnswers qs fees)

/-- The shipping fees of local listings. -/
def shippingFees (s : Setup σ) (book : Book) (qs : List ListingQuery) :
    Session σ (Answers Int64) :=
  checked s qs do
    let fees ← s.shippingFees book qs
    return .ok (.ok (feeAnswers qs fees))

/-- The prices of local listings. -/
def listingPrices (s : Setup σ) (w : Workers) (book : Book) (qs : List ListingPriceQuery) :
    Session σ (Answers Int64) :=
  checked s qs do
    let fees ← s.listingFees book qs
    return fees.map fun fees => dispatch w (listingPrice book fees) qs

/-- The prices of cross-border listings. -/
def crossBorderPrices (s : Setup σ) (w : Workers) (book : Book) (qs : List CrossBorderQuery) :
    Session σ (Answers Int64) :=
  checked s qs do
    let factors ← s.crossBorderFactors book qs
    return .ok (dispatch w (crossBorderPrice book factors) qs)

/-- The hidden fees of articles. -/
def articleFees (s : Setup σ) (qs : List ArticleQuery) : Session σ (Answers Int64) :=
  checked s qs do
    let fees ← s.articleFees qs
    return .ok (.ok (feeAnswers qs fees))

/-- Prices converted between merchant and shop. -/
def conversionPrices (s : Setup σ) (w : Workers) (book : Book) (qs : List ConversionQuery) :
    Session σ (Answers Int64) :=
  checked s qs do
    let factors ← s.conversionFactors qs
    return .ok (dispatch w (conversionPrice book factors) qs)

/-- Discounts on articles. -/
def discounts (s : Setup σ) (w : Workers) (qs : List DiscountQuery) :
    Session σ (Answers Discount) :=
  checked s qs do
    return .ok (dispatch w discount qs)

/-- Stores profit rates. -/
def setProfitRates (s : Setup σ) (es : List ProfitRateEntry) : Session σ (Answers Unit) :=
  checked s es do
    let outcomes ← Pricing.setProfitRates es
    return .ok (.ok ((es.zip outcomes).map fun e => answerTo e.1 e.2))

/-- Stores the limit of the profit rates of a merchant. -/
def setLimit (l : ProfitRateLimit) : Session σ (Outcome Unit) :=
  if l.merchantId = 0 then return .error ⟨.parameter, (Violation.absent "merchant_id").message⟩
  else Pricing.setLimit l

/-- The reply that an operation on a batch leads to. -/
def replyWith (reply : List (Answer β) → Reply) (answers : Session σ (Answers β)) :
    Session σ (Result Reply) := do
  return (← answers).map fun outcome => outcome.map reply

/-- Answers a request. -/
def run (s : Setup σ) (w : Workers) (book : Book) : Request → Session σ (Result Reply)
  | .hiddenPrices qs => replyWith .prices (hiddenPrices s book qs)
  | .shippingFees qs => replyWith .prices (shippingFees s book qs)
  | .listingPrices qs => replyWith .prices (listingPrices s w book qs)
  | .crossBorderPrices qs => replyWith .prices (crossBorderPrices s w book qs)
  | .articleFees qs => replyWith .prices (articleFees s qs)
  | .conversionPrices qs => replyWith .prices (conversionPrices s w book qs)
  | .discounts qs => replyWith .discounts (discounts s w qs)
  | .setProfitRates es => replyWith .stored (setProfitRates s es)
  | .setLimit l => do
    let outcome ← setLimit l
    return .ok (outcome.map fun _ => .done)

end RegionPricing.Engine
