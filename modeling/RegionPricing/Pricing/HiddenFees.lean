import RegionPricing.Pricing.Sources
import RegionPricing.Pricing.Quoting

/-!
# Hidden fees of articles

The hidden fee of an item in a shop depends on the channels that are enabled
for it. Some fees are known without asking logistics: without a channel there
is none to charge on the way back and none to be had on the way forward, and a
shop that a third party fulfils pays nothing unless a channel crosses the
border. All other fees are quoted.
-/

namespace RegionPricing.Pricing

open RegionPricing.Factor RegionPricing.Market

/-- Where the hidden fee of an item comes from. -/
inductive Bucket where
  | known (fee : Outcome Decimal)
  | request (r : HiddenFeeRequest)

/-- The fee of an item without channels. -/
def withoutChannels (key : HiddenFeeKey) : Outcome Decimal :=
  match key.direction with
  | .forward => .error ⟨.emptyEnabledChannels, key.shopItem.text⟩
  | .reverse => .ok .zero

/-- The channels to be quoted: the ones that cross the border if there are any,
and all otherwise. -/
def quotedChannels (channels : List Channel) : List Id :=
  let abroad := channels.filter Channel.crossBorder
  (if abroad.isEmpty then channels else abroad).map Channel.id

/-- The bucket of an item that has channels. -/
def bucketFor (key : HiddenFeeKey) (shop : Shop) (item : Item) (channels : List Channel) :
    Bucket :=
  if shop.thirdParty && !channels.any Channel.crossBorder then .known (.ok .zero)
  else .request ⟨key.shopId, key.itemId, shop.region, item.weight, quotedChannels channels⟩

/-- The channels of items, or the failure of asking for them. -/
abbrev EnabledChannels := Except Failure (KeyMap ShopItem (List Channel))

/-- The channels that a service answers with. -/
def enabledChannels : Except ServiceError (KeyMap ShopItem (List Channel)) → EnabledChannels
  | .ok found => .ok found
  | .error e => .error ⟨.getEnabledChannels, e.message⟩

/-- The bucket of an item. -/
def bucketOf (shops : Answers Id Shop) (items : Answers Id Item) (channels : EnabledChannels)
    (key : HiddenFeeKey) : Bucket :=
  match channels with
  | .error f => .known (.error f)
  | .ok found =>
    match (found.get? key.shopItem).getD [] with
    | [] => .known (withoutChannels key)
    | c :: cs =>
      match shops.lookup "shop" key.shopId, items.lookup "item" key.itemId with
      | .error f, _ => .known (.error f)
      | .ok _, .error f => .known (.error f)
      | .ok shop, .ok item => bucketFor key shop item (c :: cs)

/-- The fees known already, marked. -/
def knownFees {μ : Type} (buckets : List (μ × Bucket)) : List (μ × Outcome Decimal) :=
  buckets.filterMap fun b =>
    match b.2 with
    | .known fee => some (b.1, fee)
    | .request _ => none

/-- The requests to be sent, marked. -/
def requests {μ : Type} (buckets : List (μ × Bucket)) : List (μ × HiddenFeeRequest) :=
  buckets.filterMap fun b =>
    match b.2 with
    | .known _ => none
    | .request r => some (b.1, r)

namespace Setup

variable {σ : Type}

/-- The hidden fee of each key, in the order of the keys. Shops and items are
looked up in the given sources. -/
def hiddenFeesVia (s : Setup σ) (shopSource : Source (Backing σ) Id Shop)
    (itemSource : Source (Backing σ) Id Item) (keys : List HiddenFeeKey) :
    Session σ (List (Outcome Decimal)) := do
  let shops ← shopSource.fetch (keys.map HiddenFeeKey.shopId).eraseDups
  let items ← itemSource.fetch (keys.map HiddenFeeKey.itemId).eraseDups
  let channels := enabledChannels
    (← ask (s.services.channels (keys.map HiddenFeeKey.shopItem).eraseDups))
  let buckets := keys.zipIdx.map fun k => (k.2, bucketOf shops items channels k.1)
  let quotes ← ask
    (quoteInChunks s.quoteBatch .calculateHiddenFee s.services.hiddenFees (requests buckets))
  return inOrder (knownFees buckets ++ quotes)

/-- Hidden fees, without the caches in front of them. -/
def hiddenFeesFrom (s : Setup σ) (shopSource : Source (Backing σ) Id Shop)
    (itemSource : Source (Backing σ) Id Item) : Source (Backing σ) HiddenFeeKey Decimal where
  fetch keys := do
    let keys := keys.eraseDups
    return .ofList (keys.zip (← s.hiddenFeesVia shopSource itemSource keys))
  forget _ := pure ()

/-- Hidden fees. -/
def hiddenFees (s : Setup σ) : Source (Backing σ) HiddenFeeKey Decimal :=
  .through (.json "hidden_fee" Decimal.toJson Decimal.ofJson?) (s.hiddenFeesFrom s.shops s.items)

end Setup

end RegionPricing.Pricing
