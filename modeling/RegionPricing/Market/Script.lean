import RegionPricing.Market.Services

/-!
# Scripted services

A `Script` says what every service answers. The services of a script look the
answers up and count the calls they get. A script can be read from JSON.
-/

namespace RegionPricing.Market

open RegionPricing.Factor

/-- What every service answers. -/
structure Script where
  shops : KeyMap Id Shop
  items : KeyMap Id Item
  channels : KeyMap ShopItem (List Channel)
  commissions : KeyMap Id Commission
  hiddenFees : KeyMap ShopItem Int64
  shippingFees : KeyMap ShopItem Int64
  /-- By seller location, buyer location and channel. -/
  locationFees : KeyMap (String × String × Id) Int64
  /-- Whether every call for channels fails. -/
  failChannels : Bool
  /-- Whether every call to logistics fails. -/
  failLogistics : Bool

/-- How often each service has been called. -/
structure Calls where
  shops : Nat
  items : Nat
  channels : Nat
  commissions : Nat
  hiddenFees : Nat
  shippingFees : Nat
  locationFees : Nat
  /-- The requests of all calls for hidden fees. -/
  hiddenFeeRequests : Nat
  deriving DecidableEq

/-- No call yet. -/
def Calls.none : Calls := ⟨0, 0, 0, 0, 0, 0, 0, 0⟩

/-- The calls in JSON, by the names of the services. -/
def Calls.toJson (c : Calls) : Json :=
  .object [("calculate_hidden_fees", .integer c.hiddenFees),
    ("calculate_location_fees", .integer c.locationFees),
    ("calculate_shipping_fees", .integer c.shippingFees),
    ("get_commission_rates", .integer c.commissions),
    ("get_enabled_channels", .integer c.channels), ("get_items", .integer c.items),
    ("get_shops", .integer c.shops), ("hidden_fee_requests", .integer c.hiddenFeeRequests)]

/-- The entries of some keys. -/
def pick {κ ν : Type} [DecidableEq κ] (m : KeyMap κ ν) (keys : List κ) : KeyMap κ ν :=
  .ofList (keys.filterMap fun k => (m.get? k).map fun v => (k, v))

namespace Script

instance : Inhabited Script :=
  ⟨⟨.empty, .empty, .empty, .empty, .empty, .empty, .empty, false, false⟩⟩

/-! ### Reading a script -/

/-- What is said of an item of a shop, in an array with both. -/
def aboutItem? {α : Type} (d : Json.Decoder α) : Json.Decoder (ShopItem × α) := fun v =>
  (Json.triple? Json.uint64? Json.uint64? d v).map fun e => (⟨e.1, e.2.1⟩, e.2.2)

/-- The fee from a seller location to a buyer location over a channel. -/
def locationFee? : Json.Decoder ((String × String × Id) × Int64)
  | .array [s, b, c, n] => do
    return ((← Json.string? s, ← Json.string? b, ← Json.uint64? c), ← Json.int64? n)
  | _ => none

/-- A script in JSON; what it leaves out is empty. -/
def ofJson? : Json.Decoder Script := fun v => do
  let f ← Json.record? ["shops", "items", "channels", "commissions", "hidden_fees",
    "shipping_fees", "location_fees", "fail_channels", "fail_logistics"] v
  let shops ← f.orDefault "shops" [] (Json.list? Shop.ofJson?)
  let items ← f.orDefault "items" [] (Json.list? Item.ofJson?)
  let fees := Json.list? (aboutItem? Json.int64?)
  return {
    shops := .ofList (shops.map fun s => (s.id, s))
    items := .ofList (items.map fun i => (i.id, i))
    channels := .ofList
      (← f.orDefault "channels" [] (Json.list? (aboutItem? (Json.list? Channel.ofJson?))))
    commissions := .ofList
      (← f.orDefault "commissions" [] (Json.list? (Json.pair? Json.uint64? Commission.ofJson?)))
    hiddenFees := .ofList (← f.orDefault "hidden_fees" [] fees)
    shippingFees := .ofList (← f.orDefault "shipping_fees" [] fees)
    locationFees := .ofList (← f.orDefault "location_fees" [] (Json.list? locationFee?))
    failChannels := ← f.orDefault "fail_channels" false Json.bool?
    failLogistics := ← f.orDefault "fail_logistics" false Json.bool? }

/-! ### Following a script -/

/-- The answer of logistics, which may be out of service. -/
def logistics (s : Script) (quotes : List Quote) : Except ServiceError (List Quote) :=
  if s.failLogistics then .error (.http 503 "logistics unavailable") else .ok quotes

/-- A fee if there is one. -/
def quoteOf (fee : Option Int64) (otherwise : String) : Quote :=
  match fee with
  | some v => .priced v
  | none => .failed otherwise

def hiddenFee (s : Script) (r : HiddenFeeRequest) : Quote :=
  quoteOf (s.hiddenFees.get? ⟨r.shopId, r.itemId⟩) ("no route for item " ++ r.itemId.text)

def shippingFee (s : Script) (r : ShippingFeeRequest) : Quote :=
  quoteOf (s.shippingFees.get? ⟨r.shopId, r.itemId⟩) ("no shipping rate for item " ++ r.itemId.text)

def locationFee (s : Script) (r : LocationFeeRequest) : Quote :=
  quoteOf (s.locationFees.get? (r.seller, r.buyer, r.channelId))
    ("no route " ++ r.seller ++ " -> " ++ r.buyer)

/-- The services that follow the script. -/
def services (s : Script) : Services Calls where
  shops ids := fun c => (.ok (pick s.shops ids), { c with shops := c.shops + 1 })
  items ids := fun c => (.ok (pick s.items ids), { c with items := c.items + 1 })
  channels keys := fun c =>
    (if s.failChannels then .error (.network "channel service down")
      else .ok (pick s.channels keys),
      { c with channels := c.channels + 1 })
  commissions ids := fun c =>
    (.ok (pick s.commissions ids), { c with commissions := c.commissions + 1 })
  hiddenFees rs := fun c =>
    (s.logistics (rs.map s.hiddenFee),
      { c with hiddenFees := c.hiddenFees + 1,
               hiddenFeeRequests := c.hiddenFeeRequests + rs.length })
  shippingFees rs := fun c =>
    (s.logistics (rs.map s.shippingFee), { c with shippingFees := c.shippingFees + 1 })
  locationFees rs := fun c =>
    (s.logistics (rs.map s.locationFee), { c with locationFees := c.locationFees + 1 })

end Script

end RegionPricing.Market
