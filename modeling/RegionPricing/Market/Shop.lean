import RegionPricing.Fee.Tariff
import RegionPricing.Factor.Key

/-!
# Shops, items, channels and commissions

What the services behind the engine know of a shop and its items, as far as
prices depend on it.
-/

namespace RegionPricing.Market

/-- More entries than a list in memory has, whose addresses have 48 bits. -/
def memoryLimit : Nat := 281474976710656

/-- A shop. -/
structure Shop where
  id : Id
  region : Region
  merchantId : Option Id
  /-- The region in which the merchant is registered. -/
  merchantRegion : Option Region
  /-- Whether a third party fulfils the orders. -/
  thirdParty : Bool
  choice : Option Fee.Choice
  /-- Where parcels leave from. -/
  warehouses : List String
  warehouses_lt : warehouses.length < memoryLimit
  deriving DecidableEq

namespace Shop

/-- A shop of which nothing but the region is known. -/
def plain (id : Id) (region : Region) : Shop :=
  ⟨id, region, none, none, false, none, [], by decide⟩

/-- The region of the merchant, or the home region when none is given. -/
def merchant (s : Shop) : Region :=
  (s.merchantRegion.filter fun r => !r.isEmpty).getD Fee.homeRegion

def toJson (s : Shop) : Json :=
  .object [("shop_id", s.id.toJson), ("region", s.region.toJson),
    ("merchant_id", s.merchantId.elim .null Id.toJson),
    ("merchant_region", s.merchantRegion.elim .null Region.toJson),
    ("is_third_party_fulfilled", .bool s.thirdParty),
    ("rate_table_cfg", s.choice.elim .null Fee.Choice.toJson),
    ("warehouse_locations", .array (s.warehouses.map .string))]

def ofJson? : Json.Decoder Shop := fun v => do
  let f ← Json.record? ["shop_id", "region", "merchant_id", "merchant_region",
    "is_third_party_fulfilled", "rate_table_cfg", "warehouse_locations"] v
  let warehouses ← f.orDefault "warehouse_locations" [] (Json.list? Json.string?)
  if h : warehouses.length < memoryLimit then
    return {
      id := ← f.required "shop_id" Json.uint64?
      region := ← f.required "region" Region.ofJson?
      merchantId := ← f.orDefault "merchant_id" none (Json.nullable? Json.uint64?)
      merchantRegion := ← f.orDefault "merchant_region" none (Json.nullable? Region.ofJson?)
      thirdParty := ← f.orDefault "is_third_party_fulfilled" false Json.bool?
      choice := ← f.orDefault "rate_table_cfg" none (Json.nullable? Fee.Choice.ofJson?)
      warehouses
      warehouses_lt := h }
  else none

end Shop

/-- An item of a shop. -/
structure Item where
  id : Id
  shopId : Id
  /-- The stored weight. -/
  weight : Int64
  choice : Option Fee.Choice
  deriving DecidableEq

namespace Item

def toJson (i : Item) : Json :=
  .object [("item_id", i.id.toJson), ("shop_id", i.shopId.toJson),
    ("weight", .integer i.weight.toInt), ("rate_table_cfg", i.choice.elim .null Fee.Choice.toJson)]

def ofJson? : Json.Decoder Item := fun v => do
  let f ← Json.record? ["item_id", "shop_id", "weight", "rate_table_cfg"] v
  return {
    id := ← f.required "item_id" Json.uint64?
    shopId := ← f.required "shop_id" Json.uint64?
    weight := ← f.required "weight" Json.int64?
    choice := ← f.orDefault "rate_table_cfg" none (Json.nullable? Fee.Choice.ofJson?) }

end Item

/-- A way of shipping that is enabled for an item. -/
structure Channel where
  id : Id
  crossBorder : Bool
  deriving DecidableEq

namespace Channel

def toJson (c : Channel) : Json :=
  .object [("channel_id", c.id.toJson), ("cross_border", .bool c.crossBorder)]

def ofJson? : Json.Decoder Channel := fun v => do
  let f ← Json.record? ["channel_id", "cross_border"] v
  return {
    id := ← f.required "channel_id" Json.uint64?
    crossBorder := ← f.required "cross_border" Json.bool? }

end Channel

/-- The rates that the platform keeps of the sales of a shop, stored at the
profit precision. -/
structure Commission where
  commission : Int64
  transaction : Int64
  service : Int64
  deriving DecidableEq

namespace Commission

/-- The names of the fields of a commission. -/
def fieldNames : List String := ["commission_rate", "transaction_fee_rate", "service_fee_rate"]

def ofFields? (f : Json.Fields) : Option Commission := do
  return {
    commission := ← f.required "commission_rate" Json.int64?
    transaction := ← f.required "transaction_fee_rate" Json.int64?
    service := ← f.required "service_fee_rate" Json.int64? }

def ofJson? : Json.Decoder Commission := fun v => (Json.record? fieldNames v).bind ofFields?

/-- The fields of a commission in JSON. -/
def toFields (c : Commission) : List (String × Json) :=
  [("commission_rate", .integer c.commission.toInt),
    ("transaction_fee_rate", .integer c.transaction.toInt),
    ("service_fee_rate", .integer c.service.toInt)]

def toJson (c : Commission) : Json := .object c.toFields

end Commission

end RegionPricing.Market
