import RegionPricing.Json.Writer
import RegionPricing.Market.Script
import RegionPricing.Market.Gateway

/-!
# A staged gateway

A `StagedGateway` stands for a gateway where there is none. At some paths it
gives the replies that were laid out for it, one after the other, the last one
again and again; elsewhere it answers from a script, and without a script there
is nothing. It keeps the requests that it got.
-/

namespace RegionPricing.Market

open RegionPricing.Factor

/-- A gateway with its replies laid out. -/
structure StagedGateway where
  replies : KeyMap String (List GatewayReply)
  script : Option Script
  got : List (String × Json)

namespace StagedGateway

/-- The reply where there is nothing. -/
def nothing : GatewayReply := ⟨404, (Json.object []).render⟩

/-- A reply with entries. -/
def found (rows : List Json) : GatewayReply := ⟨200, (Json.object [("data", .array rows)]).render⟩

/-- The elements of a field of a body that can be read. -/
def asked {α : Type} (body : Json) (name : String) (d : Json.Decoder α) : List α :=
  (((body.field? name).bind Json.items?).getD []).filterMap d

/-- A reply with quotes, unless logistics is out of service. -/
def quoted (s : Script) (quotes : List Quote) : GatewayReply :=
  match s.logistics quotes with
  | .ok quotes => found (quotes.map Quote.toJson)
  | .error _ => nothing

/-- The entry for the channels of an item. -/
def channelsRow (k : ShopItem) (cs : List Channel) : Json :=
  .object [("shop_id", k.shopId.toJson), ("item_id", k.itemId.toJson),
    ("channels", .array (cs.map Channel.toJson))]

/-- The reply that follows a script. -/
def scripted (s : Script) (path : String) (body : Json) : GatewayReply :=
  match path with
  | "/shop/get_shops" =>
    found ((asked body "shop_ids" Json.uint64?).filterMap fun i => (s.shops.get? i).map Shop.toJson)
  | "/item/get_items" =>
    found ((asked body "item_ids" Json.uint64?).filterMap fun i => (s.items.get? i).map Item.toJson)
  | "/merchant/get_commission_rates" =>
    found ((asked body "shop_ids" Json.uint64?).filterMap fun i =>
      (s.commissions.get? i).map fun c => .object (("shop_id", i.toJson) :: c.toFields))
  | "/item/get_enabled_channels" =>
    if s.failChannels then nothing
    else found ((asked body "items" ShopItem.ofJson?).filterMap fun k =>
      (s.channels.get? k).map (channelsRow k))
  | "/logistics/calculate_hidden_fees" =>
    quoted s ((asked body "requests" HiddenFeeRequest.ofJson?).map s.hiddenFee)
  | "/logistics/calculate_shipping_fees" =>
    quoted s ((asked body "requests" ShippingFeeRequest.ofJson?).map s.shippingFee)
  | "/logistics/calculate_location_fees" =>
    quoted s ((asked body "requests" LocationFeeRequest.ofJson?).map s.locationFee)
  | _ => nothing

/-- Takes a request and gives the next reply for its path. -/
def send : Transport StagedGateway := fun path body g =>
  let g := { g with got := g.got ++ [(path, body)] }
  match g.replies.get? path with
  | some [r] => (.ok r, g)
  | some (r :: rest) => (.ok r, { g with replies := g.replies.put path rest })
  | _ => (.ok (g.script.elim nothing fun s => scripted s path body), g)

end StagedGateway

end RegionPricing.Market
