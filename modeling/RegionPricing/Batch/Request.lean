import RegionPricing.Json.Reader
import RegionPricing.Store
import RegionPricing.Batch.Answer

/-!
# Requests

A `Request` is a batch with the operation that it asks for. A `Reply` is what an
operation gives back.
-/

namespace RegionPricing.Batch

/-- A batch and what is asked for it. -/
inductive Request where
  | hiddenPrices (qs : List ListingQuery)
  | shippingFees (qs : List ListingQuery)
  | listingPrices (qs : List ListingPriceQuery)
  | crossBorderPrices (qs : List CrossBorderQuery)
  | articleFees (qs : List ArticleQuery)
  | conversionPrices (qs : List ConversionQuery)
  | discounts (qs : List DiscountQuery)
  | setProfitRates (es : List ProfitRateEntry)
  | setLimit (l : ProfitRateLimit)
  deriving DecidableEq

/-- The names of the operations. -/
def Request.operations : List String :=
  ["local_sip_hidden_prices", "local_sip_shipping_fees", "local_sip_prices", "cb_sip_prices",
    "cbsc_hidden_prices", "cbsc_prices", "global_discounts", "set_price_factors",
    "update_profit_rate_limit"]

/-- A request in JSON names its operation beside its queries. -/
def Request.ofJson? : Json.Decoder Request := fun v => do
  let c ← Json.tagged? .text "op" "queries" Request.operations v
  let queries := fun {α : Type} (d : Json.Decoder α) => Json.list? d c.content
  match c.tag with
  | "local_sip_hidden_prices" => (queries ListingQuery.ofJson?).map .hiddenPrices
  | "local_sip_shipping_fees" => (queries ListingQuery.ofJson?).map .shippingFees
  | "local_sip_prices" => (queries ListingPriceQuery.ofJson?).map .listingPrices
  | "cb_sip_prices" => (queries CrossBorderQuery.ofJson?).map .crossBorderPrices
  | "cbsc_hidden_prices" => (queries (ArticleQuery.ofJson? c.origin)).map .articleFees
  | "cbsc_prices" => (queries (ConversionQuery.ofJson? c.origin)).map .conversionPrices
  | "global_discounts" => (queries (DiscountQuery.ofJson? c.origin)).map .discounts
  | "set_price_factors" => (queries ProfitRateEntry.ofJson?).map .setProfitRates
  | "update_profit_rate_limit" => (ProfitRateLimit.ofJson? c.content).map .setLimit
  | _ => none

/-- A request from its text. -/
def Request.ofText? (text : String) : Option Request := (Json.parse? text).bind Request.ofJson?

/-- What a request is answered with. -/
inductive Reply where
  | prices (answers : List (Answer Int64))
  | discounts (answers : List (Answer Discount))
  | stored (answers : List (Answer Unit))
  | done

def Reply.toJson : Reply → Json
  | .prices answers => .array (answers.map (Answer.toJson fun n => .integer n.toInt))
  | .discounts answers => .array (answers.map (Answer.toJson Discount.toJson))
  | .stored answers => .array (answers.map (Answer.toJson fun _ => .null))
  | .done => .null

end RegionPricing.Batch
