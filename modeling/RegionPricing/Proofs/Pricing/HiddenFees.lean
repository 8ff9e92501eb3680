import RegionPricing.Pricing.Conversion
import RegionPricing.Proofs.Pricing.Quoting

/-!
# Hidden fees, article by article

Shops, items and channels are looked up for all articles together, and the requests of
all articles that need a quote go out together. `hiddenFeesVia_yields`: each article
gets `articleFee`, which is made of what the script says of this article alone.
-/

namespace RegionPricing.Pricing

open RegionPricing.Factor RegionPricing.Market RegionPricing.Batch

/-- The setup whose services follow a script. -/
def scripted (world : Script) (quoteBatch maxBatch : ℕ) : Setup Calls :=
  ⟨world.services, quoteBatch, maxBatch⟩

section

variable {world : Script} {quoteBatch maxBatch : ℕ} {store : Store}

theorem shops_yields (keys : List Id) :
    Yields ((scripted world quoteBatch maxBatch).shops.fetch keys.eraseDups) store
      (.ofKeys keys.eraseDups (found "shop" world.shops)) :=
  .through _ (fromService_yields (Answers.nodup_eraseDups keys) fun _ => rfl)

theorem items_yields (keys : List Id) :
    Yields ((scripted world quoteBatch maxBatch).items.fetch keys.eraseDups) store
      (.ofKeys keys.eraseDups (found "item" world.items)) :=
  .through _ (fromService_yields (Answers.nodup_eraseDups keys) fun _ => rfl)

theorem hiddenFees_itemwise :
    Itemwise .calculateHiddenFee (scripted world quoteBatch maxBatch).services.hiddenFees
      fun r => delivered world .calculateHiddenFee (world.hiddenFee r) :=
  fun rs => ⟨_, fun _ => rfl, outcomes_logistics world .calculateHiddenFee rs world.hiddenFee⟩

end

/-! ## Channels -/

/-- The channels of all items. -/
def channelsOf (world : Script) : EnabledChannels :=
  if world.failChannels then
    .error ⟨.getEnabledChannels, (ServiceError.network "channel service down").message⟩
  else .ok world.channels

/-- What a script answers to the question for the channels of some items. -/
def channelAnswer (world : Script) (keys : List ShopItem) :
    Except ServiceError (KeyMap ShopItem (List Channel)) :=
  if world.failChannels then .error (.network "channel service down")
  else .ok (pick world.channels keys)

/-- Channels that say the same of an item. -/
def SameChannels (channels channels' : EnabledChannels) (key : ShopItem) : Prop :=
  (channels.map fun found => found.get? key) = channels'.map fun found => found.get? key

theorem channelAnswer_same {world : Script} {keys : List ShopItem} {key : ShopItem}
    (hk : key ∈ keys) :
    SameChannels (enabledChannels (channelAnswer world keys)) (channelsOf world) key := by
  unfold SameChannels channelAnswer channelsOf
  split
  · rfl
  · exact congrArg Except.ok (get?_pick world.channels hk)

/-! ## Buckets -/

/-- The bucket of an item depends on its own shop, item and channels. -/
theorem bucketOf_congr {shops shops' : Answers Id Shop} {items items' : Answers Id Item}
    {channels channels' : EnabledChannels} {key : HiddenFeeKey}
    (hs : shops.lookup "shop" key.shopId = shops'.lookup "shop" key.shopId)
    (hi : items.lookup "item" key.itemId = items'.lookup "item" key.itemId)
    (hc : SameChannels channels channels' key.shopItem) :
    bucketOf shops items channels key = bucketOf shops' items' channels' key := by
  unfold SameChannels at hc
  unfold bucketOf
  rcases channels with f | found <;> rcases channels' with f' | found' <;>
    simp only [Except.map, Except.error.injEq, Except.ok.injEq, reduceCtorEq] at hc
  · rw [hc]
  · simp only [hc, hs, hi]

/-- The bucket of an article on its own. -/
def bucketAlone (world : Script) (key : HiddenFeeKey) : Bucket :=
  bucketOf (.ofKeys [key.shopId] (found "shop" world.shops))
    (.ofKeys [key.itemId] (found "item" world.items)) (channelsOf world) key

/-- What a bucket comes to when its request is quoted. -/
def Bucket.settled (quote : HiddenFeeRequest → Outcome Decimal) : Bucket → Outcome Decimal
  | .known fee => fee
  | .request r => quote r

/-- The fees known already and the quotes are all fees. -/
theorem knownFees_append_perm {μ : Type} (quote : HiddenFeeRequest → Outcome Decimal)
    (buckets : List (μ × Bucket)) :
    (knownFees buckets ++ (requests buckets).map fun p => (p.1, quote p.2)).Perm
      (buckets.map fun b => (b.1, b.2.settled quote)) := by
  rw [knownFees, requests, List.map_filterMap]
  refine (filterMap_append_perm fun b _ => ?_).trans (.of_eq ?_)
  · rcases b with ⟨mark, fee | r⟩
    · exact .inr rfl
    · exact .inl rfl
  · rw [← List.filterMap_eq_map]
    refine List.filterMap_congr fun b _ => ?_
    rcases b with ⟨mark, fee | r⟩ <;> rfl

/-- The hidden fee of an article on its own. -/
def articleFee (world : Script) (key : HiddenFeeKey) : Outcome Decimal :=
  (bucketAlone world key).settled fun r =>
    delivered world .calculateHiddenFee (world.hiddenFee r)

/-! ## All articles together -/

theorem mem_eraseDups_map {α κ : Type} [BEq κ] [LawfulBEq κ] (f : α → κ) {l : List α} {a : α}
    (ha : a ∈ l) : f a ∈ (l.map f).eraseDups :=
  List.mem_eraseDups.mpr (List.mem_map_of_mem ha)

/-- Among the shops, items and channels of many articles an article finds its own. -/
theorem bucketOf_gathered {shops : Answers Id Shop} {items : Answers Id Item}
    {channels channels' : EnabledChannels} {shop : Id → Outcome Shop} {item : Id → Outcome Item}
    {keys : List HiddenFeeKey} {key : HiddenFeeKey}
    (hshops : ∀ k, shops.get? k =
      if k ∈ (keys.map HiddenFeeKey.shopId).eraseDups then some (shop k) else none)
    (hitems : ∀ k, items.get? k =
      if k ∈ (keys.map HiddenFeeKey.itemId).eraseDups then some (item k) else none)
    (hkey : key ∈ keys) (hchannels : SameChannels channels channels' key.shopItem) :
    bucketOf shops items channels key
      = bucketOf (.ofKeys [key.shopId] shop) (.ofKeys [key.itemId] item) channels' key := by
  refine bucketOf_congr ?_ ?_ hchannels
  · rw [Answers.lookup_ofKeys List.mem_cons_self, Answers.lookup_of_get?]
    rw [hshops, if_pos (mem_eraseDups_map _ hkey)]
  · rw [Answers.lookup_ofKeys List.mem_cons_self, Answers.lookup_of_get?]
    rw [hitems, if_pos (mem_eraseDups_map _ hkey)]

theorem placed_map {α β : Type} (f : α → β) (l : List α) :
    placed (l.map f) = (placed l).map fun e => (e.1, f e.2) := by
  simp [placed, List.zipIdx_map]

/-- Each article is marked with its place, and has the bucket of its key. -/
theorem zipIdx_map_eq_placed (bucket bucket' : HiddenFeeKey → Bucket) {keys : List HiddenFeeKey}
    (h : ∀ key ∈ keys, bucket key = bucket' key) :
    (keys.zipIdx.map fun k => (k.2, bucket k.1))
      = (placed keys).map fun e => (e.1, bucket' e.2) := by
  rw [placed, List.map_map]
  refine List.map_congr_left fun k hk => ?_
  exact congrArg (Prod.mk k.2) (h k.1 (List.fst_mem_of_mem_zipIdx hk))

/-- The fees known already and the quotes, in the order of the articles. -/
theorem inOrder_fees (bucket : HiddenFeeKey → Bucket) (quote : HiddenFeeRequest → Outcome Decimal)
    (keys : List HiddenFeeKey) :
    inOrder (knownFees ((placed keys).map fun e => (e.1, bucket e.2)) ++
        (requests ((placed keys).map fun e => (e.1, bucket e.2))).map fun p => (p.1, quote p.2))
      = keys.map fun key => (bucket key).settled quote := by
  apply inOrder_of_perm
  rw [placed_map]
  refine (knownFees_append_perm quote _).trans (.of_eq ?_)
  rw [List.map_map]
  rfl

section

variable {world : Script} {quoteBatch maxBatch : ℕ} {store : Store}

theorem channels_yields (keys : List ShopItem) :
    Yields (ask ((scripted world quoteBatch maxBatch).services.channels keys)) store
      (channelAnswer world keys) :=
  .ask fun _ => rfl

theorem hiddenFeesVia_yields (keys : List HiddenFeeKey) :
    Yields ((scripted world quoteBatch maxBatch).hiddenFeesVia
        (scripted world quoteBatch maxBatch).shops (scripted world quoteBatch maxBatch).items keys)
      store (keys.map (articleFee world)) := by
  refine (shops_yields _).bind ((items_yields _).bind ((channels_yields _).bind ?_))
  -- The bucket of each article is the one that it has on its own.
  have halone : ∀ key ∈ keys, bucketOf
      (.ofKeys (keys.map HiddenFeeKey.shopId).eraseDups (found "shop" world.shops))
      (.ofKeys (keys.map HiddenFeeKey.itemId).eraseDups (found "item" world.items))
      (enabledChannels (channelAnswer world (keys.map HiddenFeeKey.shopItem).eraseDups)) key
      = bucketAlone world key := fun key hkey =>
    bucketOf_gathered (Answers.get?_ofKeys _ _) (Answers.get?_ofKeys _ _) hkey
      (channelAnswer_same (mem_eraseDups_map _ hkey))
  simp only [zipIdx_map_eq_placed _ _ halone]
  refine (Yields.ask (quoteInChunks_gives hiddenFees_itemwise _ _)).bind ?_
  rw [inOrder_fees _ fun r => delivered world .calculateHiddenFee (world.hiddenFee r)]
  exact .pure _

/-- Each article in a shop of its merchant gets the fee that it has on its own. -/
theorem hiddenFees_yields (keys : List HiddenFeeKey) :
    Yields ((scripted world quoteBatch maxBatch).hiddenFees.fetch keys) store
      (.ofKeys keys.eraseDups (articleFee world)) := by
  refine .through _ ((hiddenFeesVia_yields keys.eraseDups).bind ?_)
  rw [← List.map_prod_left_eq_zip]
  exact .pure _

end

end RegionPricing.Pricing
