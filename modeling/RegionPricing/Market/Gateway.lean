import RegionPricing.Json.Reader
import RegionPricing.Market.Services

/-!
# Services behind a gateway

The services can be reached through a `Gateway` that takes a JSON body at a path
for each call and answers with an object whose field `data` is an array. Calls
that the gateway turns down for a while are tried again. An entry that cannot be
read is left out, but a quote that cannot be read becomes a failed one, so that
quotes keep their places.

How often a call is tried and what the reader of JSON says of a text or a value
that it cannot read are parts of the `Gateway`.
-/

namespace RegionPricing.Market

open RegionPricing.Factor

/-- The answer of a gateway. -/
structure GatewayReply where
  status : Nat
  body : String

/-- How a body gets to an address: it may fail on the way. -/
abbrev Transport (τ : Type) := String → Json → StateM τ (Except String GatewayReply)

/-- A gateway as its callers see it, with what they do not decide themselves. -/
structure Gateway (τ : Type) where
  /-- Gets a body to an address. -/
  send : Transport τ
  /-- How often the next call may be tried again; the time that it takes decides. -/
  retries : StateM τ Nat
  /-- What the reader of JSON says of a body that it cannot read. -/
  bodyFault : String → String
  /-- What it says of an entry that is no quote. -/
  entryFault : Json → String

namespace Gateway

/-- An address without the slashes at its end. -/
def trimSlashes (address : String) : String :=
  String.ofList ((address.toList.reverse.dropWhile (· == '/')).reverse)

/-- What a reply means: a value, a failure, and whether to try again. -/
inductive Verdict where
  | value (v : Json)
  | final (e : ServiceError)
  | transient (e : ServiceError)

/-- The entries of an answer. -/
def dataItems (v : Json) : Except ServiceError (List Json) :=
  match (v.field? "data").bind Json.items? with
  | some xs => .ok xs
  | none => .error (.parse "Expected data array")

/-- The entries of an answer that can be read. -/
def readable {α : Type} (d : Json.Decoder α) (v : Json) : Except ServiceError (List α) :=
  (dataItems v).map fun xs => xs.filterMap d

/-- The channels of an item with the item. -/
def channelsOf? : Json.Decoder (ShopItem × List Channel) := fun v => do
  let f ← Json.record? ["shop_id", "item_id", "channels"] v
  return (⟨← f.required "shop_id" Json.uint64?, ← f.required "item_id" Json.uint64?⟩,
    ← f.orDefault "channels" [] (Json.list? Channel.ofJson?))

/-- The commission of a shop with the shop. -/
def commissionOf? : Json.Decoder (Id × Commission) := fun v => do
  let f ← Json.flatRecord? ["shop_id"] Commission.fieldNames v
  return (← f.required "shop_id" Json.uint64?, ← Commission.ofFields? f)

def idsJson (ids : List Id) : Json := .array (ids.map Id.toJson)

section

variable {τ : Type} (g : Gateway τ)

/-- The value of a body. -/
def bodyValue (body : String) : Verdict :=
  match (Json.parse? body).filter Json.isWhole with
  | some v => .value v.ordered
  | none => .final (.parse (g.bodyFault body))

/-- Judges a reply by its status. -/
def judge : Except String GatewayReply → Verdict
  | .error detail => .transient (.network detail)
  | .ok r =>
    if r.status = 429 then .transient .rateLimited
    else if 500 ≤ r.status ∧ r.status < 600 then .transient (.http r.status "Server error")
    else if ¬ (200 ≤ r.status ∧ r.status < 300) then .final (.http r.status "Client error")
    else g.bodyValue r.body

/-- Sends a body until the reply is final, or no retry is left. -/
def post (address : String) (body : Json) (retries : Nat) :
    StateM τ (Except ServiceError Json) := do
  match g.judge (← g.send address body) with
  | .value v => return .ok v
  | .final e => return .error e
  | .transient e =>
    match retries with
    | 0 => return .error e
    | n + 1 => post address body n

/-- The quotes of an answer. -/
def quotes (v : Json) : Except ServiceError (List Quote) :=
  (dataItems v).map fun xs => xs.map fun x =>
    (Quote.ofJson? x).getD (.failed ("malformed quote: " ++ g.entryFault x))

/-- One call: the argument goes under its name, the answer is read. -/
def call {α : Type} (address name : String) (arg : Json) (read : Json → Except ServiceError α) :
    StateM τ (Except ServiceError α) := do
  let answer ← g.post address (.object [(name, arg)]) (← g.retries)
  return answer.bind read

/-- The services behind the gateway at an address. -/
def services (address : String) : Services τ :=
  let base := trimSlashes address
  { shops := fun ids => g.call (base ++ "/shop/get_shops") "shop_ids" (idsJson ids) fun v =>
      (readable Shop.ofJson? v).map fun xs => KeyMap.ofList (xs.map fun s => (s.id, s))
    items := fun ids => g.call (base ++ "/item/get_items") "item_ids" (idsJson ids) fun v =>
      (readable Item.ofJson? v).map fun xs => KeyMap.ofList (xs.map fun i => (i.id, i))
    channels := fun keys => g.call (base ++ "/item/get_enabled_channels") "items"
      (.array (keys.map ShopItem.toJson)) fun v => (readable channelsOf? v).map KeyMap.ofList
    commissions := fun ids =>
      g.call (base ++ "/merchant/get_commission_rates") "shop_ids" (idsJson ids) fun v =>
        (readable commissionOf? v).map KeyMap.ofList
    hiddenFees := fun rs => g.call (base ++ "/logistics/calculate_hidden_fees") "requests"
      (.array (rs.map HiddenFeeRequest.toJson)) g.quotes
    shippingFees := fun rs => g.call (base ++ "/logistics/calculate_shipping_fees") "requests"
      (.array (rs.map ShippingFeeRequest.toJson)) g.quotes
    locationFees := fun rs => g.call (base ++ "/logistics/calculate_location_fees") "requests"
      (.array (rs.map LocationFeeRequest.toJson)) g.quotes }

end

end Gateway

end RegionPricing.Market
