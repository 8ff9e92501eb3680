import RegionPricing.Region

/-!
# Requests for quotes and their answers

Logistics quotes three kinds of fee: the hidden fee of an item, the shipping
fee of a listing, and the fee between two locations. A batch of requests is
answered by as many quotes in the same order.
-/

namespace RegionPricing.Market

/-- A request for the hidden fee of an item over some channels. -/
structure HiddenFeeRequest where
  shopId : Id
  itemId : Id
  region : Region
  /-- The stored weight. -/
  weight : Int64
  channelIds : List Id
  deriving DecidableEq

namespace HiddenFeeRequest

def toJson (r : HiddenFeeRequest) : Json :=
  .object [("shop_id", r.shopId.toJson), ("item_id", r.itemId.toJson),
    ("region", r.region.toJson), ("weight", .integer r.weight.toInt),
    ("channel_ids", .array (r.channelIds.map Id.toJson))]

def ofJson? : Json.Decoder HiddenFeeRequest := fun v => do
  let f ← Json.record? ["shop_id", "item_id", "region", "weight", "channel_ids"] v
  return {
    shopId := ← f.required "shop_id" Json.uint64?
    itemId := ← f.required "item_id" Json.uint64?
    region := ← f.required "region" Region.ofJson?
    weight := ← f.required "weight" Json.int64?
    channelIds := ← f.required "channel_ids" (Json.list? Json.uint64?) }

end HiddenFeeRequest

/-- A request for the shipping fee of a listing. -/
structure ShippingFeeRequest where
  shopId : Id
  itemId : Id
  corridor : Corridor
  /-- The stored weight. -/
  weight : Int64
  deriving DecidableEq

namespace ShippingFeeRequest

def toJson (r : ShippingFeeRequest) : Json :=
  .object [("shop_id", r.shopId.toJson), ("item_id", r.itemId.toJson),
    ("primary_region", r.corridor.primary.toJson),
    ("affiliate_region", r.corridor.affiliate.toJson), ("weight", .integer r.weight.toInt)]

def ofJson? : Json.Decoder ShippingFeeRequest := fun v => do
  let f ← Json.record? ["shop_id", "item_id", "primary_region", "affiliate_region", "weight"] v
  return {
    shopId := ← f.required "shop_id" Json.uint64?
    itemId := ← f.required "item_id" Json.uint64?
    corridor := ⟨← f.required "primary_region" Region.ofJson?,
      ← f.required "affiliate_region" Region.ofJson?⟩
    weight := ← f.required "weight" Json.int64? }

end ShippingFeeRequest

/-- A request for the fee from a seller to a buyer over one channel. -/
structure LocationFeeRequest where
  region : Region
  seller : String
  buyer : String
  channelId : Id
  /-- The stored weight. -/
  weight : Int64
  deriving DecidableEq

namespace LocationFeeRequest

def toJson (r : LocationFeeRequest) : Json :=
  .object [("region", r.region.toJson), ("seller_location", .string r.seller),
    ("buyer_location", .string r.buyer), ("channel_id", r.channelId.toJson),
    ("weight", .integer r.weight.toInt)]

def ofJson? : Json.Decoder LocationFeeRequest := fun v => do
  let f ← Json.record? ["region", "seller_location", "buyer_location", "channel_id", "weight"] v
  return {
    region := ← f.required "region" Region.ofJson?
    seller := ← f.required "seller_location" Json.string?
    buyer := ← f.required "buyer_location" Json.string?
    channelId := ← f.required "channel_id" Json.uint64?
    weight := ← f.required "weight" Json.int64? }

end LocationFeeRequest

/-- The answer to a request: a stored fee or an error. -/
structure Quote where
  fee : Option Int64
  error : Option String
  deriving DecidableEq

namespace Quote

def priced (fee : Int64) : Quote := ⟨some fee, none⟩

def failed (message : String) : Quote := ⟨none, some message⟩

/-- The fee, or the error in words. An error stands even beside a fee. -/
def outcome (q : Quote) : Except String Int64 :=
  match q.error, q.fee with
  | some e, _ => .error e
  | none, some fee => .ok fee
  | none, none => .error "empty fee quote"

def toJson (q : Quote) : Json :=
  .object [("fee", q.fee.elim .null fun n => .integer n.toInt),
    ("error", q.error.elim .null .string)]

def ofJson? : Json.Decoder Quote := fun v => do
  let f ← Json.record? ["fee", "error"] v
  return {
    fee := ← f.orDefault "fee" none (Json.nullable? Json.int64?)
    error := ← f.orDefault "error" none (Json.nullable? Json.string?) }

end Quote

end RegionPricing.Market
