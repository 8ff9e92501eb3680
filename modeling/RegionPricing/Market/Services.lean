import RegionPricing.Failure
import RegionPricing.Market.Shop
import RegionPricing.Market.Quote

/-!
# The services behind the engine

`Services` are the calls that the engine makes to the systems around it, each
for many keys or requests at once. Every call may fail as a whole. They may keep
a state of their own, of type `σ`.
-/

namespace RegionPricing.Market

open RegionPricing.Factor

/-- A call that may fail as a whole. -/
abbrev Call (σ α : Type) := StateM σ (Except ServiceError α)

/-- The services behind the engine. A key that is missing in an answer is
unknown to the service. -/
structure Services (σ : Type) where
  shops : List Id → Call σ (KeyMap Id Shop)
  items : List Id → Call σ (KeyMap Id Item)
  /-- The enabled channels of items; an item that is missing has none. -/
  channels : List ShopItem → Call σ (KeyMap ShopItem (List Channel))
  commissions : List Id → Call σ (KeyMap Id Commission)
  hiddenFees : List HiddenFeeRequest → Call σ (List Quote)
  shippingFees : List ShippingFeeRequest → Call σ (List Quote)
  locationFees : List LocationFeeRequest → Call σ (List Quote)

end RegionPricing.Market
