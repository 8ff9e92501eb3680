import RegionPricing.Pricing.Conversion
import RegionPricing.Pricing.CrossBorder
import RegionPricing.Proofs.Pricing.Listings

/-!
# Factors of a batch and of a query

For each kind of price the factors of a whole batch are gathered first, keyed by
identifiers, shops, articles and corridors. What a batch gathers is told by the script
and the store, and of what was gathered a query reads only entries that it would have
gathered alone. So it is evaluated as in a batch of its own: `listingPrice_alone`,
`crossBorderPrice_alone` and `conversionPrice_alone`.
-/

namespace RegionPricing.Pricing

open RegionPricing.Factor RegionPricing.Market RegionPricing.Batch RegionPricing.Rules

/-! ## The store -/

/-- The exchange rate that the store has for a corridor. -/
def storedRate (store : Store) : Corridor → Outcome Decimal :=
  fromStored Store.exchangeRate? FixedPoint.rateOfRaw (fun c => "exchange rate " ++ c.text) store

/-- The profit rate that the store has for a merchant and a shop. -/
def storedProfitRate (store : Store) : MerchantShop → Outcome Int64 :=
  fromStored Store.profitRate? id (fun k =>
    "profit rate for merchant " ++ k.merchantId.text ++ " shop " ++ k.shopId.text) store

/-- The limit that the store has for a merchant. -/
def storedLimit (store : Store) : Id → Outcome ProfitRateLimit :=
  fromStored Store.limit? id (fun m => "profit rate limit for merchant " ++ m.text) store

section

variable {σ : Type} {store : Store}

theorem exchangeRates_yields (keys : List Corridor) :
    Yields (exchangeRates.fetch keys : Session σ _) store (.ofKeys keys (storedRate store)) :=
  .through _ (fromStore_yields _ _ _ keys)

theorem profitRates_yields (keys : List MerchantShop) :
    Yields (profitRates.fetch keys : Session σ _) store (.ofKeys keys (storedProfitRate store)) :=
  .through _ (fromStore_yields _ _ _ keys)

theorem profitRateLimits_yields (keys : List Id) :
    Yields (profitRateLimits.fetch keys : Session σ _) store (.ofKeys keys (storedLimit store)) :=
  .through _ (fromStore_yields _ _ _ keys)

end

/-! ## Entries by query -/

theorem nodup_queryId_singleton {α : Type} [Identified α] (q : α) : ([q].map queryId).Nodup :=
  List.nodup_singleton (queryId q)

/-- An entry that is made for each query is found by the identifier of the query. -/
theorem lookup_ofList_query {α ν : Type} [Identified α] {qs : List α}
    (h : (qs.map queryId).Nodup) (what : String) (outcome : α → Outcome ν) {q : α} (hq : q ∈ qs) :
    Answers.lookup what (.ofList (qs.map fun q => (queryId q, outcome q))) (queryId q)
      = outcome q := by
  have hnodup : ((qs.map fun q => (queryId q, outcome q)).map Prod.fst).Nodup := by
    rw [List.map_map]
    exact h
  exact Answers.lookup_of_get?
    (KeyMap.get?_ofList_of_mem hnodup
      (List.mem_map_of_mem (f := fun q => (queryId q, outcome q)) hq))

/-! ## Local listings -/

section

variable {book : Book} (price fee : ListingQuery → Outcome Decimal)

/-- The fees of the listings whose prices depend on fees. -/
def listingFeesOf (book : Book) (qs : List ListingPriceQuery) : ListingFees where
  hiddenPrices := .ofList ((qs.filter (needsFees book)).map fun q => (queryId q, price q.listing))
  shippingFees := .ofList ((qs.filter (needsFees book)).map fun q => (queryId q, fee q.listing))

variable {price fee}

theorem listingFees_yields {σ : Type} {s : Setup σ} {store : Store}
    (hp : ∀ ls, Yields (s.hiddenPrices book ls) store (.ok (ls.map price)))
    (hf : ∀ ls, Yields (s.shippingFees book ls) store (ls.map fee)) (qs : List ListingPriceQuery) :
    Yields (s.listingFees book qs) store (.ok (listingFeesOf price fee book qs)) := by
  have hzip : ∀ outcome : ListingQuery → Outcome Decimal,
      ((qs.filter (needsFees book)).map ListingPriceQuery.id).zip
          (((qs.filter (needsFees book)).map ListingPriceQuery.listing).map outcome)
        = (qs.filter (needsFees book)).map fun q => (queryId q, outcome q.listing) := by
    intro outcome
    rw [List.map_map, List.zip_map']
    rfl
  refine (hp _).bind ((hf _).bind ?_)
  rw [hzip, listingFeesOf, ← hzip price]
  exact .pure _

/-- Only a listing whose price depends on fees has its fees looked up. -/
theorem listingPrice_congr {fees fees' : ListingFees} {q : ListingPriceQuery}
    (h : needsFees book q →
      fees.hiddenPrices.lookup "hidden price" q.id
        = fees'.hiddenPrices.lookup "hidden price" q.id ∧
      fees.shippingFees.lookup "shipping fee" q.id
        = fees'.shippingFees.lookup "shipping fee" q.id) :
    listingPrice book fees q = listingPrice book fees' q := by
  unfold listingPrice
  by_cases hw : q.weight ≤ 0
  · rw [if_pos hw, if_pos hw]
  rw [if_neg hw, if_neg hw]
  cases ht : book.terms? q.corridor with
  | none => rfl
  | some terms =>
    -- A weight and terms are what makes a price depend on fees.
    have hneeds : needsFees book q := by
      rw [needsFees, ht, Option.isSome_some, Bool.and_true, decide_eq_true_eq]
      exact Int64.not_le.mp hw
    obtain ⟨hhidden, hshipping⟩ := h hneeds
    simp only [hhidden, hshipping]

theorem lookup_listingFees (price fee : ListingQuery → Outcome Decimal)
    {qs : List ListingPriceQuery} (h : (qs.map queryId).Nodup)
    {q : ListingPriceQuery} (hq : q ∈ qs) (hneeds : needsFees book q) :
    (listingFeesOf price fee book qs).hiddenPrices.lookup "hidden price" q.id = price q.listing ∧
      (listingFeesOf price fee book qs).shippingFees.lookup "shipping fee" q.id
        = fee q.listing := by
  have hmem : q ∈ qs.filter (needsFees book) := List.mem_filter.mpr ⟨hq, hneeds⟩
  have hnodup : ((qs.filter (needsFees book)).map queryId).Nodup :=
    (List.filter_sublist.map queryId).nodup h
  exact ⟨lookup_ofList_query hnodup _ (fun q => price q.listing) hmem,
    lookup_ofList_query hnodup _ (fun q => fee q.listing) hmem⟩

theorem listingPrice_alone {qs : List ListingPriceQuery} (h : (qs.map queryId).Nodup)
    {q : ListingPriceQuery} (hq : q ∈ qs) :
    listingPrice book (listingFeesOf price fee book qs) q
      = listingPrice book (listingFeesOf price fee book [q]) q := by
  refine listingPrice_congr fun hneeds => ?_
  obtain ⟨hhidden, hshipping⟩ := lookup_listingFees price fee h hq hneeds
  obtain ⟨hhidden', hshipping'⟩ :=
    lookup_listingFees price fee (nodup_queryId_singleton q) (List.mem_singleton_self q) hneeds
  exact ⟨hhidden.trans hhidden'.symm, hshipping.trans hshipping'.symm⟩

end

/-! ## Cross-border listings -/

section

variable {world : Script} {quoteBatch maxBatch : ℕ} {store : Store} {book : Book}

/-- The hidden price of a query from the tariff, with its shop and item looked up alone. -/
def tariffPriceAlone (world : Script) (book : Book) (q : CrossBorderQuery) : Outcome Decimal :=
  tariffPrice book (.ofKeys [q.shopId] (found "shop" world.shops))
    (.ofKeys [q.itemId] (found "item" world.items)) q

/-- The factors of a batch. -/
def crossBorderFactorsOf (world : Script) (store : Store) (book : Book)
    (qs : List CrossBorderQuery) : CrossBorderFactors where
  exchangeRates := KeyMap.mapValues
    (Answers.ofKeys (qs.map CrossBorderQuery.corridor).eraseDups (storedRate store))
    (rateOrTerms book)
  hiddenPrices := .ofList (qs.map fun q => (queryId q, tariffPriceAlone world book q))

theorem crossBorderFactors_yields (qs : List CrossBorderQuery) :
    Yields ((scripted world quoteBatch maxBatch).crossBorderFactors book qs) store
      (crossBorderFactorsOf world store book qs) := by
  have htariff : (qs.map fun q => (q.id, tariffPrice book
        (.ofKeys (qs.map CrossBorderQuery.shopId).eraseDups (found "shop" world.shops))
        (.ofKeys (qs.map CrossBorderQuery.itemId).eraseDups (found "item" world.items)) q))
      = qs.map fun q => (queryId q, tariffPriceAlone world book q) := by
    refine List.map_congr_left fun q hq => congrArg (Prod.mk q.id) ?_
    rw [tariffPriceAlone, tariffPrice, tariffPrice,
      Answers.lookup_ofKeys (mem_eraseDups_map _ hq), Answers.lookup_ofKeys List.mem_cons_self,
      Answers.lookup_ofKeys (mem_eraseDups_map _ hq), Answers.lookup_ofKeys List.mem_cons_self]
  refine (shops_yields _).bind ((items_yields _).bind ((exchangeRates_yields _).bind ?_))
  rw [htariff]
  exact .pure _

theorem lookup_crossBorderFactors (world : Script) (store : Store) (book : Book)
    {qs : List CrossBorderQuery} (h : (qs.map queryId).Nodup)
    {q : CrossBorderQuery} (hq : q ∈ qs) :
    (crossBorderFactorsOf world store book qs).exchangeRates.lookup "exchange rate" q.corridor
        = rateOrTerms book q.corridor (storedRate store q.corridor) ∧
      (crossBorderFactorsOf world store book qs).hiddenPrices.lookup "hidden price" q.id
        = tariffPriceAlone world book q := by
  refine ⟨Answers.lookup_of_get? ?_, lookup_ofList_query h _ (tariffPriceAlone world book) hq⟩
  rw [crossBorderFactorsOf, KeyMap.get?_mapValues, Answers.get?_ofKeys,
    if_pos (mem_eraseDups_map _ hq), Option.map_some]

theorem crossBorderPrice_alone {qs : List CrossBorderQuery} (h : (qs.map queryId).Nodup)
    {q : CrossBorderQuery} (hq : q ∈ qs) :
    crossBorderPrice book (crossBorderFactorsOf world store book qs) q
      = crossBorderPrice book (crossBorderFactorsOf world store book [q]) q := by
  obtain ⟨hrate, hhidden⟩ := lookup_crossBorderFactors world store book h hq
  obtain ⟨hrate', hhidden'⟩ := lookup_crossBorderFactors world store book
    (nodup_queryId_singleton q) (List.mem_singleton_self q)
  rw [crossBorderPrice, crossBorderPrice, hrate, hhidden, hrate', hhidden']

end

/-! ## Conversions -/

section

variable {world : Script} {quoteBatch maxBatch : ℕ} {store : Store} {book : Book}

/-- The factors of a batch. -/
def conversionFactorsOf (world : Script) (store : Store) (qs : List ConversionQuery) :
    ConversionFactors :=
  let shopIds := (qs.map ConversionQuery.shopId).eraseDups
  let shops := Answers.ofKeys shopIds (found "shop" world.shops)
  { shops
    commissions := .ofKeys shopIds (found "commission rates for shop" world.commissions)
    exchangeRates := .ofKeys (corridorsOf shops qs) (storedRate store)
    profitRates := .ofKeys (qs.map profitKey).eraseDups (storedProfitRate store)
    limits := .ofKeys (qs.map ConversionQuery.merchantId).eraseDups (storedLimit store)
    hiddenFees := .ofKeys (qs.map feeKey).eraseDups.eraseDups (articleFee world) }

theorem conversionFactors_yields (qs : List ConversionQuery) :
    Yields ((scripted world quoteBatch maxBatch).conversionFactors qs) store
      (conversionFactorsOf world store qs) := by
  have hcommissions : ∀ keys : List Id,
      Yields ((scripted world quoteBatch maxBatch).commissions.fetch keys.eraseDups) store
        (.ofKeys keys.eraseDups (found "commission rates for shop" world.commissions)) :=
    fun keys => .through _ (fromService_yields (Answers.nodup_eraseDups keys) fun _ => rfl)
  exact (shops_yields _).bind ((hcommissions _).bind ((exchangeRates_yields _).bind
    ((profitRates_yields _).bind ((profitRateLimits_yields _).bind
      ((hiddenFees_yields _).bind (.pure _))))))

/-- Factors that say of a query what it would gather alone. -/
structure Gathered (world : Script) (store : Store) (factors : ConversionFactors)
    (q : ConversionQuery) : Prop where
  shop : factors.shops.lookup "shop" q.shopId = found "shop" world.shops q.shopId
  commission : factors.commissions.lookup "commission rates" q.shopId
    = found "commission rates for shop" world.commissions q.shopId
  profitRate : factors.profitRates.lookup "profit rate" (profitKey q)
    = storedProfitRate store (profitKey q)
  limit : factors.limits.lookup "profit rate limit" q.merchantId = storedLimit store q.merchantId
  hiddenFee : factors.hiddenFees.lookup "hidden fee" (feeKey q) = articleFee world (feeKey q)
  /-- The corridor is known only with the shop. -/
  rate : ∀ shop, found "shop" world.shops q.shopId = .ok shop →
    factors.exchangeRates.lookup "exchange rate" (conversionCorridor shop)
      = storedRate store (conversionCorridor shop)

theorem mem_corridorsOf {shops : Answers Id Shop} {qs : List ConversionQuery} {q : ConversionQuery}
    {shop : Shop} (hq : q ∈ qs) (hs : shops.get? q.shopId = some (.ok shop)) :
    conversionCorridor shop ∈ corridorsOf shops qs := by
  refine List.mem_eraseDups.mpr (List.mem_filterMap.mpr ⟨q, hq, ?_⟩)
  rw [hs]

theorem conversionFactors_gathered {qs : List ConversionQuery} {q : ConversionQuery}
    (hq : q ∈ qs) : Gathered world store (conversionFactorsOf world store qs) q where
  shop := Answers.lookup_ofKeys (mem_eraseDups_map _ hq)
  commission := Answers.lookup_ofKeys (mem_eraseDups_map _ hq)
  profitRate := Answers.lookup_ofKeys (mem_eraseDups_map _ hq)
  limit := Answers.lookup_ofKeys (mem_eraseDups_map _ hq)
  hiddenFee := Answers.lookup_ofKeys (List.mem_eraseDups.mpr (mem_eraseDups_map _ hq))
  rate := by
    intro shop hshop
    refine Answers.lookup_ofKeys (mem_corridorsOf hq ?_)
    rw [Answers.get?_ofKeys, if_pos (mem_eraseDups_map _ hq), hshop]

/-- A shop that belongs to a merchant is one that is known. -/
theorem lookup_of_ownedShop {shops : Answers Id Shop} {merchantId shopId : Id} {shop : Shop}
    (h : ownedShop shops merchantId shopId = .ok shop) : shops.lookup "shop" shopId = .ok shop := by
  unfold ownedShop at h
  cases hs : shops.lookup "shop" shopId with
  | error f => rw [hs] at h; exact absurd h (by simp)
  | ok shop' =>
    rw [hs, ok_bind] at h
    split at h
    · exact h
    · exact absurd h (by simp)

theorem conversionPrice_congr {factors factors' : ConversionFactors} {q : ConversionQuery}
    (h : Gathered world store factors q) (h' : Gathered world store factors' q) :
    conversionPrice book factors q = conversionPrice book factors' q := by
  have howned : ownedShop factors.shops q.merchantId q.shopId
      = ownedShop factors'.shops q.merchantId q.shopId := by
    rw [ownedShop, ownedShop, h.shop, h'.shop]
  have hlimit : checkLimit factors.limits q.merchantId
      = checkLimit factors'.limits q.merchantId := by
    funext rate
    rw [checkLimit, checkLimit, h.limit, h'.limit]
  rw [conversionPrice, conversionPrice, ← howned, h.profitRate, h'.profitRate, hlimit,
    h.commission, h'.commission, h.hiddenFee, h'.hiddenFee]
  cases hshop : ownedShop factors.shops q.merchantId q.shopId with
  | error f => rw [ofExcept_error_bind, ofExcept_error_bind]
  | ok shop =>
    -- The corridor of the rate is that of the shop that the script has.
    have hfound := lookup_of_ownedShop hshop
    rw [h.shop] at hfound
    simp only [ofExcept_ok_bind, h.rate shop hfound, h'.rate shop hfound]

theorem conversionPrice_alone {qs : List ConversionQuery} {q : ConversionQuery} (hq : q ∈ qs) :
    conversionPrice book (conversionFactorsOf world store qs) q
      = conversionPrice book (conversionFactorsOf world store [q]) q :=
  conversionPrice_congr (conversionFactors_gathered hq)
    (conversionFactors_gathered (List.mem_singleton_self q))

end

end RegionPricing.Pricing
