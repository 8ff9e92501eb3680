import RegionPricing.Region

/-!
# The keys of factors

Factors are looked up by identifiers, by corridors, by a merchant with a shop,
and by a shop with an item and a direction. `KeyText` writes a key as the text
under which caches hold its factor.
-/

namespace RegionPricing.Factor

/-- A merchant with one of the shops. -/
structure MerchantShop where
  merchantId : Id
  shopId : Id
  deriving DecidableEq

/-- A shop with one of its items. -/
structure ShopItem where
  shopId : Id
  itemId : Id
  deriving DecidableEq

/-- An item of a shop whose price is converted in a direction. -/
structure HiddenFeeKey where
  shopId : Id
  itemId : Id
  direction : Direction
  deriving DecidableEq

/-- The item of the key. -/
def HiddenFeeKey.shopItem (k : HiddenFeeKey) : ShopItem := ⟨k.shopId, k.itemId⟩

/-- The shop with its item as it is shown in messages. -/
def ShopItem.text (k : ShopItem) : String := "shop " ++ k.shopId.text ++ " item " ++ k.itemId.text

def ShopItem.toJson (k : ShopItem) : Json :=
  .object [("shop_id", k.shopId.toJson), ("item_id", k.itemId.toJson)]

def ShopItem.ofJson? : Json.Decoder ShopItem := fun v => do
  let f ← Json.record? ["shop_id", "item_id"] v
  return ⟨← f.required "shop_id" Json.uint64?, ← f.required "item_id" Json.uint64?⟩

/-- A key that can be written as text. -/
class KeyText (κ : Type) where
  keyText : κ → String

export KeyText (keyText)

instance : KeyText Id := ⟨Id.text⟩

instance : KeyText Corridor := ⟨fun c => c.primary.text ++ ":" ++ c.affiliate.text⟩

instance : KeyText MerchantShop := ⟨fun k => k.merchantId.text ++ ":" ++ k.shopId.text⟩

instance : KeyText HiddenFeeKey :=
  ⟨fun k => k.shopId.text ++ ":" ++ k.itemId.text ++ ":" ++ k.direction.text⟩

end RegionPricing.Factor
