import RegionPricing.Region
import RegionPricing.Decimal.Text
import RegionPricing.Failure

/-!
# Queries

A batch is a list of queries, each with an identifier of its own, by which its
result is found again. Prices, weights and rates in a query are fixed-point
numbers.
-/

namespace RegionPricing.Batch

/-- A decimal that may be absent, in JSON. -/
def decimalOrNull (d : Option Decimal) : Json := d.elim .null Decimal.toJson

/-- What has an identifier by which its result is found. -/
class Identified (α : Type) where
  queryId : α → Id

export Identified (queryId)

/-! ## Listings -/

/-- Asks for the hidden price or the shipping fee of a local listing. -/
structure ListingQuery where
  id : Id
  shopId : Id
  itemId : Id
  corridor : Corridor
  weight : Int64
  deriving DecidableEq

namespace ListingQuery

instance : Identified ListingQuery := ⟨ListingQuery.id⟩

def toJson (q : ListingQuery) : Json :=
  .object [("query_id", q.id.toJson), ("shop_id", q.shopId.toJson), ("item_id", q.itemId.toJson),
    ("primary_region", q.corridor.primary.toJson),
    ("affiliate_region", q.corridor.affiliate.toJson), ("weight", .integer q.weight.toInt)]

def ofJson? : Json.Decoder ListingQuery := fun v => do
  let f ← Json.record? ["query_id", "shop_id", "item_id", "primary_region", "affiliate_region",
    "weight"] v
  return {
    id := ← f.required "query_id" Json.uint64?
    shopId := ← f.required "shop_id" Json.uint64?
    itemId := ← f.required "item_id" Json.uint64?
    corridor := ⟨← f.required "primary_region" Region.ofJson?,
      ← f.required "affiliate_region" Region.ofJson?⟩
    weight := ← f.required "weight" Json.int64? }

end ListingQuery

/-- Asks for the price of a local listing. -/
structure ListingPriceQuery where
  id : Id
  shopId : Id
  itemId : Id
  corridor : Corridor
  primaryPrice : Int64
  weight : Int64
  itemMargin : Option Decimal
  shopMargin : Option Decimal
  overseaRate : Option Decimal
  deriving DecidableEq

namespace ListingPriceQuery

instance : Identified ListingPriceQuery := ⟨ListingPriceQuery.id⟩

/-- The query for the fees of the listing. -/
def listing (q : ListingPriceQuery) : ListingQuery :=
  ⟨q.id, q.shopId, q.itemId, q.corridor, q.weight⟩

def toJson (q : ListingPriceQuery) : Json :=
  .object [("query_id", q.id.toJson), ("shop_id", q.shopId.toJson), ("item_id", q.itemId.toJson),
    ("primary_region", q.corridor.primary.toJson),
    ("affiliate_region", q.corridor.affiliate.toJson),
    ("primary_price", .integer q.primaryPrice.toInt),
    ("affiliate_weight", .integer q.weight.toInt), ("item_margin", decimalOrNull q.itemMargin),
    ("shop_margin", decimalOrNull q.shopMargin), ("oversea_rate", decimalOrNull q.overseaRate)]

def ofJson? : Json.Decoder ListingPriceQuery := fun v => do
  let f ← Json.record? ["query_id", "shop_id", "item_id", "primary_region", "affiliate_region",
    "primary_price", "affiliate_weight", "item_margin", "shop_margin", "oversea_rate"] v
  return {
    id := ← f.required "query_id" Json.uint64?
    shopId := ← f.required "shop_id" Json.uint64?
    itemId := ← f.required "item_id" Json.uint64?
    corridor := ⟨← f.required "primary_region" Region.ofJson?,
      ← f.required "affiliate_region" Region.ofJson?⟩
    primaryPrice := ← f.required "primary_price" Json.int64?
    weight := ← f.required "affiliate_weight" Json.int64?
    itemMargin := ← f.orDefault "item_margin" none (Json.nullable? Decimal.ofJson?)
    shopMargin := ← f.orDefault "shop_margin" none (Json.nullable? Decimal.ofJson?)
    overseaRate := ← f.orDefault "oversea_rate" none (Json.nullable? Decimal.ofJson?) }

end ListingPriceQuery

/-- Asks for the price of a cross-border listing. -/
structure CrossBorderQuery where
  id : Id
  shopId : Id
  itemId : Id
  corridor : Corridor
  primaryPrice : Int64
  weight : Int64
  priceRatio : Decimal
  ratio : Decimal
  countryMargin : Decimal
  shopMargin : Decimal
  itemMargin : Decimal
  finalFee : Decimal
  deriving DecidableEq

namespace CrossBorderQuery

instance : Identified CrossBorderQuery := ⟨CrossBorderQuery.id⟩

def toJson (q : CrossBorderQuery) : Json :=
  .object [("query_id", q.id.toJson), ("shop_id", q.shopId.toJson), ("item_id", q.itemId.toJson),
    ("primary_region", q.corridor.primary.toJson),
    ("affiliate_region", q.corridor.affiliate.toJson),
    ("primary_price", .integer q.primaryPrice.toInt), ("weight", .integer q.weight.toInt),
    ("price_ratio", q.priceRatio.toJson), ("ratio", q.ratio.toJson),
    ("country_margin", q.countryMargin.toJson), ("shop_margin", q.shopMargin.toJson),
    ("item_margin", q.itemMargin.toJson), ("final_fee", q.finalFee.toJson)]

def ofJson? : Json.Decoder CrossBorderQuery := fun v => do
  let f ← Json.record? ["query_id", "shop_id", "item_id", "primary_region", "affiliate_region",
    "primary_price", "weight", "price_ratio", "ratio", "country_margin", "shop_margin",
    "item_margin", "final_fee"] v
  return {
    id := ← f.required "query_id" Json.uint64?
    shopId := ← f.required "shop_id" Json.uint64?
    itemId := ← f.required "item_id" Json.uint64?
    corridor := ⟨← f.required "primary_region" Region.ofJson?,
      ← f.required "affiliate_region" Region.ofJson?⟩
    primaryPrice := ← f.required "primary_price" Json.int64?
    weight := ← f.required "weight" Json.int64?
    priceRatio := ← f.required "price_ratio" Decimal.ofJson?
    ratio := ← f.required "ratio" Decimal.ofJson?
    countryMargin := ← f.required "country_margin" Decimal.ofJson?
    shopMargin := ← f.required "shop_margin" Decimal.ofJson?
    itemMargin := ← f.required "item_margin" Decimal.ofJson?
    finalFee := ← f.required "final_fee" Decimal.ofJson? }

end CrossBorderQuery

/-! ## Articles of a merchant -/

/-- Asks for the hidden price of an item in a shop of a merchant. -/
structure ArticleQuery where
  id : Id
  merchantId : Id
  shopId : Id
  itemId : Id
  direction : Direction
  deriving DecidableEq

namespace ArticleQuery

instance : Identified ArticleQuery := ⟨ArticleQuery.id⟩

def toJson (q : ArticleQuery) : Json :=
  .object [("query_id", q.id.toJson), ("merchant_id", q.merchantId.toJson),
    ("shop_id", q.shopId.toJson), ("item_id", q.itemId.toJson),
    ("direction", q.direction.toJson)]

def ofJson? (origin : Json.Origin) : Json.Decoder ArticleQuery := fun v => do
  let f ← Json.record? ["query_id", "merchant_id", "shop_id", "item_id", "direction"] v
  return {
    id := ← f.required "query_id" Json.uint64?
    merchantId := ← f.required "merchant_id" Json.uint64?
    shopId := ← f.required "shop_id" Json.uint64?
    itemId := ← f.required "item_id" Json.uint64?
    direction := ← f.required "direction" (Direction.ofJson? origin) }

end ArticleQuery

/-- Asks to convert the merchant's price to the shop's, or back. -/
structure ConversionQuery where
  id : Id
  merchantId : Id
  shopId : Id
  article : ItemModel
  price : Int64
  direction : Direction
  deriving DecidableEq

namespace ConversionQuery

instance : Identified ConversionQuery := ⟨ConversionQuery.id⟩

def toJson (q : ConversionQuery) : Json :=
  .object [("query_id", q.id.toJson), ("merchant_id", q.merchantId.toJson),
    ("shop_id", q.shopId.toJson), ("item_model", q.article.toJson),
    ("price", .integer q.price.toInt), ("direction", q.direction.toJson)]

def ofJson? (origin : Json.Origin) : Json.Decoder ConversionQuery := fun v => do
  let f ← Json.record? ["query_id", "merchant_id", "shop_id", "item_model", "price",
    "direction"] v
  return {
    id := ← f.required "query_id" Json.uint64?
    merchantId := ← f.required "merchant_id" Json.uint64?
    shopId := ← f.required "shop_id" Json.uint64?
    article := ← f.required "item_model" ItemModel.ofJson?
    price := ← f.required "price" Json.int64?
    direction := ← f.required "direction" (Direction.ofJson? origin) }

end ConversionQuery

/-! ## Discounts -/

/-- What is given of a discount on the merchant's price. -/
inductive DiscountTarget where
  /-- The rate, stored at the profit precision; the shop's price is asked for. -/
  | priceFromRate (rate : Int64)
  /-- The shop's price; the rate is asked for. -/
  | rateFromPrice (price : Int64)
  deriving DecidableEq

namespace DiscountTarget

def toJson : DiscountTarget → Json
  | .priceFromRate n =>
    .object [("kind", .string "price_from_rate"), ("value", .integer n.toInt)]
  | .rateFromPrice n =>
    .object [("kind", .string "rate_from_price"), ("value", .integer n.toInt)]

def ofJson? (origin : Json.Origin) : Json.Decoder DiscountTarget := fun v => do
  let c ← Json.tagged? origin "kind" "value" ["price_from_rate", "rate_from_price"] v
  let n ← Json.int64? c.content
  match c.tag with
  | "price_from_rate" => some (.priceFromRate n)
  | "rate_from_price" => some (.rateFromPrice n)
  | _ => none

end DiscountTarget

/-- Asks for a discount on the merchant's price of an article. -/
structure DiscountQuery where
  id : Id
  article : ItemModel
  merchantPrice : Int64
  target : DiscountTarget
  deriving DecidableEq

namespace DiscountQuery

instance : Identified DiscountQuery := ⟨DiscountQuery.id⟩

def toJson (q : DiscountQuery) : Json :=
  .object [("query_id", q.id.toJson), ("item_model", q.article.toJson),
    ("mtsku_price", .integer q.merchantPrice.toInt), ("target", q.target.toJson)]

def ofJson? (origin : Json.Origin) : Json.Decoder DiscountQuery := fun v => do
  let f ← Json.record? ["query_id", "item_model", "mtsku_price", "target"] v
  return {
    id := ← f.required "query_id" Json.uint64?
    article := ← f.required "item_model" ItemModel.ofJson?
    merchantPrice := ← f.required "mtsku_price" Json.int64?
    target := ← f.required "target" (DiscountTarget.ofJson? origin) }

end DiscountQuery

/-- A discount: the shop's price and the rate that leads to it. -/
structure Discount where
  shopPrice : Int64
  rate : Decimal
  deriving DecidableEq

namespace Discount

def toJson (d : Discount) : Json :=
  .object [("mpsku_price", .integer d.shopPrice.toInt), ("discount_rate", d.rate.toJson)]

def ofJson? : Json.Decoder Discount := fun v => do
  let f ← Json.record? ["mpsku_price", "discount_rate"] v
  return {
    shopPrice := ← f.required "mpsku_price" Json.int64?
    rate := ← f.required "discount_rate" Decimal.ofJson? }

end Discount

/-! ## Profit rates -/

/-- The greatest profit rate that is stored. -/
def maxProfitRate : Int64 := 100000

/-- Asks to store the profit rate of a merchant for a shop. -/
structure ProfitRateEntry where
  id : Id
  merchantId : Id
  shopId : Id
  rate : Int64
  deriving DecidableEq

namespace ProfitRateEntry

instance : Identified ProfitRateEntry := ⟨ProfitRateEntry.id⟩

def toJson (e : ProfitRateEntry) : Json :=
  .object [("query_id", e.id.toJson), ("merchant_id", e.merchantId.toJson),
    ("shop_id", e.shopId.toJson), ("profit_rate", .integer e.rate.toInt)]

def ofJson? : Json.Decoder ProfitRateEntry := fun v => do
  let f ← Json.record? ["query_id", "merchant_id", "shop_id", "profit_rate"] v
  return {
    id := ← f.required "query_id" Json.uint64?
    merchantId := ← f.required "merchant_id" Json.uint64?
    shopId := ← f.required "shop_id" Json.uint64?
    rate := ← f.required "profit_rate" Json.int64? }

end ProfitRateEntry

end RegionPricing.Batch
