import RegionPricing.Region
import RegionPricing.Decimal.Text

/-!
# The terms of a corridor

`Terms` hold what is configured for one corridor: a margin, an exchange rate,
a hidden price to start from, and where its fees come from.
-/

namespace RegionPricing.Rules

/-- Where a fee comes from: the stored brackets or a quote of logistics. -/
inductive FeeSource where
  | brackets
  | logistics
  deriving DecidableEq

namespace FeeSource

def text : FeeSource → String
  | .brackets => "static"
  | .logistics => "logistics"

def toJson (s : FeeSource) : Json := .string s.text

def ofJson? : Json.Decoder FeeSource := fun v =>
  match Json.name? .text ["static", "logistics"] v with
  | some "static" => some .brackets
  | some "logistics" => some .logistics
  | _ => none

end FeeSource

/-- What is configured for a corridor. -/
structure Terms where
  corridor : Corridor
  margin : Option Decimal
  exchangeRate : Option Decimal
  initialHiddenPrice : Option Decimal
  hiddenFeeSource : FeeSource
  shippingFeeSource : FeeSource
  /-- Where parcels go when they leave from one of several warehouses. -/
  buyerLocation : Option String
  deriving DecidableEq

namespace Terms

/-- The margin if it is positive, and one otherwise. -/
def effectiveMargin (t : Terms) : Decimal :=
  match t.margin with
  | some m => if m.isPositive then m else .one
  | none => .one

/-- The exchange rate if it is not zero, and one otherwise. -/
def effectiveExchangeRate (t : Terms) : Decimal :=
  match t.exchangeRate with
  | some r => if r.isZero then .one else r
  | none => .one

def toJson (t : Terms) : Json :=
  let decimal := fun (d : Option Decimal) => d.elim Json.null Decimal.toJson
  .object [("primary_region", t.corridor.primary.toJson),
    ("affiliate_region", t.corridor.affiliate.toJson), ("buffer", decimal t.margin),
    ("exchange_rate", decimal t.exchangeRate), ("init_hidden_price", decimal t.initialHiddenPrice),
    ("hidden_fee_source", t.hiddenFeeSource.toJson),
    ("shipping_fee_source", t.shippingFeeSource.toJson),
    ("buyer_location", t.buyerLocation.elim .null .string)]

def ofJson? : Json.Decoder Terms := fun v => do
  let f ← Json.record? ["primary_region", "affiliate_region", "buffer", "exchange_rate",
    "init_hidden_price", "hidden_fee_source", "shipping_fee_source", "buyer_location"] v
  return {
    corridor := ⟨← f.required "primary_region" Region.ofJson?,
      ← f.required "affiliate_region" Region.ofJson?⟩
    margin := ← f.orDefault "buffer" none (Json.nullable? Decimal.ofJson?)
    exchangeRate := ← f.orDefault "exchange_rate" none (Json.nullable? Decimal.ofJson?)
    initialHiddenPrice := ← f.orDefault "init_hidden_price" none (Json.nullable? Decimal.ofJson?)
    hiddenFeeSource := ← f.orDefault "hidden_fee_source" .brackets FeeSource.ofJson?
    shippingFeeSource := ← f.orDefault "shipping_fee_source" .brackets FeeSource.ofJson?
    buyerLocation := ← f.orDefault "buyer_location" none (Json.nullable? Json.string?) }

end Terms

end RegionPricing.Rules
