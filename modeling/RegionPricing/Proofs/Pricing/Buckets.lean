import RegionPricing.Proofs.Pricing.ByKey
import RegionPricing.Proofs.Pricing.Recording

/-!
# Which articles logistics is asked for

The hidden fee of an article is known without a quote (`Known`), or logistics is asked for it by
one request (`Sends`). Its channels, its shop and its item alone tell which, and every article is
of one kind (`known_xor_sends`). So when many articles are asked for together, in any mixture and
with repeats, exactly the requests of those that need a quote are sent, in the order of their
places, in as few calls as the size of a call allows (`hiddenFees_by_bucket`).

What is sent is read off services that remember their requests; the fees are the same without
them.
-/

namespace RegionPricing.Pricing

open RegionPricing.Cache RegionPricing.Factor RegionPricing.Market

/-! ## The bucket of an article -/

section

variable (world : Script) (shop : Id → Outcome Shop) (item : Id → Outcome Item)
  (key : HiddenFeeKey)

/-- The channels that are enabled for an article. -/
def enabled : List Channel := (world.channels.get? key.shopItem).getD []

/-- The fee of an article for which no quote is needed. -/
inductive Known : Outcome Decimal → Prop
  | channelsDown (hdown : world.failChannels = true) :
    Known (.error ⟨.getEnabledChannels, (ServiceError.network "channel service down").message⟩)
  | forward (hup : world.failChannels = false) (hnone : enabled world key = [])
    (hforward : key.direction = .forward) :
    Known (.error ⟨.emptyEnabledChannels, key.shopItem.text⟩)
  | reverse (hup : world.failChannels = false) (hnone : enabled world key = [])
    (hreverse : key.direction = .reverse) : Known (.ok .zero)
  | noShop {f : Failure} (hup : world.failChannels = false) (hsome : enabled world key ≠ [])
    (hshop : shop key.shopId = .error f) : Known (.error f)
  | noItem {s : Shop} {f : Failure} (hup : world.failChannels = false)
    (hsome : enabled world key ≠ []) (hshop : shop key.shopId = .ok s)
    (hitem : item key.itemId = .error f) : Known (.error f)
  | exempt {s : Shop} {i : Item} (hup : world.failChannels = false)
    (hsome : enabled world key ≠ []) (hshop : shop key.shopId = .ok s)
    (hitem : item key.itemId = .ok i) (hparty : s.thirdParty = true)
    (hhome : ∀ c ∈ enabled world key, c.crossBorder = false) : Known (.ok .zero)

/-- The request for an article that needs a quote. -/
inductive Sends : HiddenFeeRequest → Prop
  | abroad {s : Shop} {i : Item} (hup : world.failChannels = false)
    (hshop : shop key.shopId = .ok s) (hitem : item key.itemId = .ok i)
    (habroad : ∃ c ∈ enabled world key, c.crossBorder = true) :
    Sends ⟨key.shopId, key.itemId, s.region, i.weight,
      ((enabled world key).filter Channel.crossBorder).map Channel.id⟩
  | home {s : Shop} {i : Item} (hup : world.failChannels = false)
    (hsome : enabled world key ≠ []) (hshop : shop key.shopId = .ok s)
    (hitem : item key.itemId = .ok i) (hparty : s.thirdParty = false)
    (hhome : ∀ c ∈ enabled world key, c.crossBorder = false) :
    Sends ⟨key.shopId, key.itemId, s.region, i.weight, (enabled world key).map Channel.id⟩

/-- The bucket of an article by the outcomes of its shop and its item. -/
def bucketBy : Bucket :=
  bucketOf (.ofKeys [key.shopId] shop) (.ofKeys [key.itemId] item) (channelsOf world) key

end

section

variable {world : Script} {shop : Id → Outcome Shop} {item : Id → Outcome Item}
  {key : HiddenFeeKey} {o : Outcome Decimal} {r : HiddenFeeRequest}

theorem bucketBy_of_up (hup : world.failChannels = false) :
    bucketBy world shop item key =
      match enabled world key with
      | [] => .known (withoutChannels key)
      | c :: cs =>
        match shop key.shopId, item key.itemId with
        | .error f, _ => .known (.error f)
        | .ok _, .error f => .known (.error f)
        | .ok s, .ok i => bucketFor key s i (c :: cs) := by
  have hchannels : channelsOf world = .ok world.channels := if_neg (by simp [hup])
  rw [bucketBy, hchannels, bucketOf, Answers.lookup_ofKeys List.mem_cons_self,
    Answers.lookup_ofKeys List.mem_cons_self]
  rfl

theorem bucketBy_of_some (hup : world.failChannels = false) (hsome : enabled world key ≠ [])
    {s : Shop} {i : Item} (hshop : shop key.shopId = .ok s) (hitem : item key.itemId = .ok i) :
    bucketBy world shop item key = bucketFor key s i (enabled world key) := by
  rw [bucketBy_of_up hup, hshop, hitem]
  cases h : enabled world key with
  | nil => exact absurd h hsome
  | cons c cs => rfl

theorem Known.bucketBy_eq (h : Known world shop item key o) :
    bucketBy world shop item key = .known o := by
  cases h with
  | channelsDown hdown =>
    have hchannels : channelsOf world = .error _ := if_pos hdown
    rw [bucketBy, hchannels]
    rfl
  | forward hup hnone hforward => rw [bucketBy_of_up hup, hnone, withoutChannels, hforward]
  | reverse hup hnone hreverse => rw [bucketBy_of_up hup, hnone, withoutChannels, hreverse]
  | noShop hup hsome hshop =>
    rw [bucketBy_of_up hup, hshop]
    cases hc : enabled world key with
    | nil => exact absurd hc hsome
    | cons c cs => rfl
  | noItem hup hsome hshop hitem =>
    rw [bucketBy_of_up hup, hshop, hitem]
    cases hc : enabled world key with
    | nil => exact absurd hc hsome
    | cons c cs => rfl
  | exempt hup hsome hshop hitem hparty hhome =>
    have hany : (enabled world key).any Channel.crossBorder = false := List.any_eq_false.mpr
      fun c hc => by simp [hhome c hc]
    rw [bucketBy_of_some hup hsome hshop hitem, bucketFor, hparty, hany]
    rfl

theorem Sends.bucketBy_eq (h : Sends world shop item key r) :
    bucketBy world shop item key = .request r := by
  cases h with
  | abroad hup hshop hitem habroad =>
    obtain ⟨c, hc, hcross⟩ := habroad
    have hany : (enabled world key).any Channel.crossBorder = true :=
      List.any_eq_true.mpr ⟨c, hc, hcross⟩
    have hfilter : ((enabled world key).filter Channel.crossBorder).isEmpty = false :=
      List.isEmpty_eq_false_iff.mpr (List.ne_nil_of_mem (List.mem_filter.mpr ⟨hc, hcross⟩))
    rw [bucketBy_of_some hup (List.ne_nil_of_mem hc) hshop hitem, bucketFor, hany, Bool.not_true,
      Bool.and_false, if_neg Bool.false_ne_true, quotedChannels, hfilter]
    rfl
  | home hup hsome hshop hitem hparty hhome =>
    have hfilter : (enabled world key).filter Channel.crossBorder = [] :=
      List.filter_eq_nil_iff.mpr fun c hc => by simp [hhome c hc]
    rw [bucketBy_of_some hup hsome hshop hitem, bucketFor, hparty, Bool.false_and,
      if_neg Bool.false_ne_true, quotedChannels, hfilter]
    rfl

/-- No article is left out. -/
theorem known_or_sends (world : Script) (shop : Id → Outcome Shop) (item : Id → Outcome Item)
    (key : HiddenFeeKey) :
    (∃ o, Known world shop item key o) ∨ ∃ r, Sends world shop item key r := by
  cases hdown : world.failChannels with
  | true => exact .inl ⟨_, .channelsDown hdown⟩
  | false =>
    by_cases hsome : enabled world key = []
    · cases hdirection : key.direction with
      | forward => exact .inl ⟨_, .forward hdown hsome hdirection⟩
      | reverse => exact .inl ⟨_, .reverse hdown hsome hdirection⟩
    · cases hshop : shop key.shopId with
      | error f => exact .inl ⟨_, .noShop hdown hsome hshop⟩
      | ok s =>
        cases hitem : item key.itemId with
        | error f => exact .inl ⟨_, .noItem hdown hsome hshop hitem⟩
        | ok i =>
          by_cases habroad : ∃ c ∈ enabled world key, c.crossBorder = true
          · exact .inr ⟨_, .abroad hdown hshop hitem habroad⟩
          · have hhome : ∀ c ∈ enabled world key, c.crossBorder = false := fun c hc =>
              Bool.eq_false_iff.mpr fun hcross => habroad ⟨c, hc, hcross⟩
            cases hparty : s.thirdParty with
            | true => exact .inl ⟨_, .exempt hdown hsome hshop hitem hparty hhome⟩
            | false => exact .inr ⟨_, .home hdown hsome hshop hitem hparty hhome⟩

/-- No article is of both kinds. -/
theorem known_xor_sends (world : Script) (shop : Id → Outcome Shop) (item : Id → Outcome Item)
    (key : HiddenFeeKey) :
    Xor (∃ o, Known world shop item key o) (∃ r, Sends world shop item key r) := by
  refine (xor_iff_or_and_not_and _ _).mpr ⟨known_or_sends world shop item key, ?_⟩
  rintro ⟨⟨o, ho⟩, r, hr⟩
  have hboth := ho.bucketBy_eq.symm.trans hr.bucketBy_eq
  cases hboth

theorem bucketBy_known_iff :
    bucketBy world shop item key = .known o ↔ Known world shop item key o := by
  refine ⟨fun h => ?_, Known.bucketBy_eq⟩
  rcases known_or_sends world shop item key with ⟨o', ho'⟩ | ⟨r, hr⟩
  · rw [ho'.bucketBy_eq, Bucket.known.injEq] at h
    exact h ▸ ho'
  · rw [hr.bucketBy_eq] at h
    cases h

theorem bucketBy_request_iff :
    bucketBy world shop item key = .request r ↔ Sends world shop item key r := by
  refine ⟨fun h => ?_, Sends.bucketBy_eq⟩
  rcases known_or_sends world shop item key with ⟨o, ho⟩ | ⟨r', hr'⟩
  · rw [ho.bucketBy_eq] at h
    cases h
  · rw [hr'.bucketBy_eq, Bucket.request.injEq] at h
    exact h ▸ hr'

/-- What the bucket of an article comes to. -/
theorem settled_bucketBy_iff {quote : HiddenFeeRequest → Outcome Decimal} :
    (bucketBy world shop item key).settled quote = o ↔
      Known world shop item key o ∨ ∃ r, Sends world shop item key r ∧ o = quote r := by
  simp only [← bucketBy_known_iff, ← bucketBy_request_iff]
  cases bucketBy world shop item key with
  | known fee => simp [Bucket.settled]
  | request r => simp [Bucket.settled, eq_comm]

end

/-! ## All articles together -/

/-- The requests for some articles, with their places. -/
def pendingOf (bucket : HiddenFeeKey → Bucket) (keys : List HiddenFeeKey) :
    List (ℕ × HiddenFeeRequest) :=
  requests ((placed keys).map fun e => (e.1, bucket e.2))

section

variable {bucket : HiddenFeeKey → Bucket} {keys : List HiddenFeeKey}

theorem mem_pendingOf_iff {p : ℕ} {r : HiddenFeeRequest} :
    (p, r) ∈ pendingOf bucket keys ↔ ∃ key, keys[p]? = some key ∧ bucket key = .request r := by
  unfold pendingOf requests
  rw [List.mem_filterMap]
  constructor
  · rintro ⟨b, hb, hr⟩
    obtain ⟨⟨p', key⟩, he, rfl⟩ := List.mem_map.mp hb
    cases hbucket : bucket key with
    | known fee => simp [hbucket] at hr
    | request r' =>
      simp only [hbucket, Option.some.injEq, Prod.mk.injEq] at hr
      obtain ⟨rfl, rfl⟩ := hr
      exact ⟨key, mem_placed_iff.mp he, hbucket⟩
  · rintro ⟨key, hkey, hbucket⟩
    exact ⟨(p, bucket key), List.mem_map.mpr ⟨(p, key), mem_placed_iff.mpr hkey, rfl⟩,
      by rw [hbucket]⟩

theorem pendingOf_pairwise : ((pendingOf bucket keys).map Prod.fst).Pairwise (· < ·) := by
  have hmarked : ((placed keys).map fun e => (e.1, bucket e.2)).Pairwise fun a b => a.1 < b.1 :=
    List.pairwise_map.mpr (placed_pairwise_lt keys)
  refine List.pairwise_map.mpr (hmarked.filterMap _ ?_)
  rintro ⟨p, b⟩ ⟨p', b'⟩ hlt ⟨q, r⟩ hq ⟨q', r'⟩ hq'
  cases b with
  | known fee => cases hq
  | request r =>
    cases b' with
    | known fee => cases hq'
    | request r' =>
      cases hq
      cases hq'
      exact hlt

end

section

variable (world : Script) (quoteBatch maxBatch : ℕ) {shop : Id → Outcome Shop}
  {item : Id → Outcome Item} {memory : Memory} {store : Store}
  {e₀ e : Env (Backing (Calls × Memory))}

/-- Until logistics is asked, nothing is added to what the services remember. -/
theorem hiddenFeesVia_asks {shops : Source (Backing (Calls × Memory)) Id Shop}
    {items : Source (Backing (Calls × Memory)) Id Item}
    (hshops : shops.GivesEach (Alike (Backed (fun c => c.2 = memory) store) e₀) Once shop)
    (hitems : items.GivesEach (Alike (Backed (fun c => c.2 = memory) store) e₀) Once item)
    (he : Alike (Backed (fun c => c.2 = memory) store) e₀ e) (keys : List HiddenFeeKey) :
    ∃ c : Calls × Memory, c.2 = memory ∧
      ((scripted world quoteBatch maxBatch).recording.hiddenFeesVia shops items keys e).1
        = inOrder (knownFees
            ((placed keys).map fun a => (a.1, bucketBy world shop item a.2)) ++
          (quoteInChunks quoteBatch .calculateHiddenFee
            (scripted world quoteBatch maxBatch).recording.services.hiddenFees
            (pendingOf (bucketBy world shop item) keys) c).1) ∧
      ((scripted world quoteBatch maxBatch).recording.hiddenFeesVia shops items keys
          e).2.behind.market
        = (quoteInChunks quoteBatch .calculateHiddenFee
            (scripted world quoteBatch maxBatch).recording.services.hiddenFees
            (pendingOf (bucketBy world shop item) keys) c).2 := by
  obtain ⟨he₁, hshop⟩ :=
    hshops.of_nodup (Answers.nodup_eraseDups (keys.map HiddenFeeKey.shopId)) e he
  rcases hr₁ : shops.fetch (keys.map HiddenFeeKey.shopId).eraseDups e with ⟨shopAnswers, e₁⟩
  rw [hr₁] at he₁ hshop
  obtain ⟨he₂, hitem⟩ :=
    hitems.of_nodup (Answers.nodup_eraseDups (keys.map HiddenFeeKey.itemId)) e₁ he₁
  rcases hr₂ : items.fetch (keys.map HiddenFeeKey.itemId).eraseDups e₁ with ⟨itemAnswers, e₂⟩
  rw [hr₂] at he₂ hitem
  -- The bucket of each article is the one that it has on its own.
  have halone : ∀ key ∈ keys, bucketOf shopAnswers itemAnswers
      (enabledChannels (channelAnswer world (keys.map HiddenFeeKey.shopItem).eraseDups)) key
      = bucketBy world shop item key := fun key hkey =>
    bucketOf_gathered hshop hitem hkey (channelAnswer_same (mem_eraseDups_map _ hkey))
  refine ⟨((scripted world quoteBatch maxBatch).recording.services.channels
    (keys.map HiddenFeeKey.shopItem).eraseDups e₂.behind.market).2, he₂.behind.market, ?_⟩
  unfold pendingOf
  rw [← zipIdx_map_eq_placed _ _ halone]
  unfold Setup.hiddenFeesVia
  rw [bind_apply, hr₁, bind_apply, hr₂]
  exact ⟨rfl, rfl⟩

end

/-- What becomes of some articles: their fees, and the calls that are made of logistics. -/
structure ByBucket (world : Script) (shop : Id → Outcome Shop) (item : Id → Outcome Item)
    (quoteBatch : ℕ) (keys : List HiddenFeeKey) (fees : List (Outcome Decimal))
    (batches : Memory) : Prop where
  length : fees.length = keys.length
  /-- Each place has the fee that is known for its article, or what logistics delivers for its
  request. -/
  fee : ∀ (p : ℕ) (key : HiddenFeeKey) (o : Outcome Decimal), keys[p]? = some key →
    (fees[p]? = some o ↔ Known world shop item key o ∨ ∃ r, Sends world shop item key r ∧
      o = delivered world .calculateHiddenFee (world.hiddenFee r))
  /-- The batches hold one request for each place that needs a quote, in order, and nothing
  else. -/
  sent : ∃ sent : List (ℕ × HiddenFeeRequest),
    (sent.map Prod.fst).Pairwise (· < ·) ∧
    (∀ p r, (p, r) ∈ sent ↔ ∃ key, keys[p]? = some key ∧ Sends world shop item key r) ∧
    batches.flatten = sent.map Prod.snd ∧ batches.length = sent.length ⌈/⌉ max quoteBatch 1
  size : ∀ batch ∈ batches, batch.length ≤ max quoteBatch 1

section

variable (world : Script) (quoteBatch maxBatch : ℕ) {shop : Id → Outcome Shop}
  {item : Id → Outcome Item} {store : Store} {e₀ e : Env (Backing (Calls × Memory))}

theorem hiddenFeesVia_byBucket {shops : Source (Backing (Calls × Memory)) Id Shop}
    {items : Source (Backing (Calls × Memory)) Id Item}
    (hshops : shops.GivesEach (Alike (Backed (fun c => c.2 = []) store) e₀) Once shop)
    (hitems : items.GivesEach (Alike (Backed (fun c => c.2 = []) store) e₀) Once item)
    (he : Alike (Backed (fun c => c.2 = []) store) e₀ e) (keys : List HiddenFeeKey) :
    ByBucket world shop item quoteBatch keys
      ((scripted world quoteBatch maxBatch).recording.hiddenFeesVia shops items keys e).1
      ((scripted world quoteBatch maxBatch).recording.hiddenFeesVia shops items keys
        e).2.behind.market.2 := by
  obtain ⟨c, hc, hfees, hmarket⟩ :=
    hiddenFeesVia_asks world quoteBatch maxBatch hshops hitems he keys
  have hitemwise : Itemwise .calculateHiddenFee
      (scripted world quoteBatch maxBatch).recording.services.hiddenFees
      fun r => delivered world .calculateHiddenFee (world.hiddenFee r) :=
    fun rs => ⟨_, fun _ => rfl, outcomes_logistics world .calculateHiddenFee rs world.hiddenFee⟩
  have hrecords : Records (scripted world quoteBatch maxBatch).recording.services.hiddenFees :=
    fun _ _ => rfl
  rw [quoteInChunks_gives hitemwise quoteBatch _ c, pendingOf,
    inOrder_fees (bucketBy world shop item)
      fun r => delivered world .calculateHiddenFee (world.hiddenFee r)] at hfees
  rw [quoteInChunks_eq] at hmarket
  rw [hfees, hmarket, answersTo_records hrecords, hc, List.nil_append]
  refine ⟨List.length_map _, fun p key o hkey => ?_, ⟨pendingOf (bucketBy world shop item) keys,
    pendingOf_pairwise, fun p r => ?_, ?_, ?_⟩, fun batch hbatch => ?_⟩
  · rw [List.getElem?_map, hkey, Option.map_some, Option.some.injEq, settled_bucketBy_iff]
  · rw [mem_pendingOf_iff]
    simp only [bucketBy_request_iff]
  · rw [← List.map_flatten, flatten_parts]
  · rw [List.length_map, length_parts]
  · obtain ⟨part, hpart, rfl⟩ := List.mem_map.mp hbatch
    rw [List.length_map]
    exact length_le_of_mem_parts hpart

end

/-! ## Behind the tiers -/

theorem through_fetch {ω κ ν : Type} [DecidableEq κ] [KeyText κ] (s : Space ν)
    (inner : Source ω κ ν) (keys : List κ) (e : Env ω) : (Source.through s inner).fetch keys e
      = (Source.layered s inner 0 e.tiers.length).fetch keys e := rfl

theorem hiddenFeesVia_congr {σ : Type} {s : Setup σ} {shops shops' : Source (Backing σ) Id Shop}
    {items items' : Source (Backing σ) Id Item} {keys : List HiddenFeeKey} {e : Env (Backing σ)}
    (hshops : shops.fetch (keys.map HiddenFeeKey.shopId).eraseDups e
      = shops'.fetch (keys.map HiddenFeeKey.shopId).eraseDups e)
    (hitems : items.fetch (keys.map HiddenFeeKey.itemId).eraseDups
        (shops'.fetch (keys.map HiddenFeeKey.shopId).eraseDups e).2
      = items'.fetch (keys.map HiddenFeeKey.itemId).eraseDups
        (shops'.fetch (keys.map HiddenFeeKey.shopId).eraseDups e).2) :
    s.hiddenFeesVia shops items keys e = s.hiddenFeesVia shops' items' keys e := by
  simp only [Setup.hiddenFeesVia, bind_apply, hshops, hitems]

/-- Shops and items that are looked up through all tiers are looked up through as many. -/
theorem hiddenFeesVia_through {world : Script} {quoteBatch maxBatch : ℕ}
    (keys : List HiddenFeeKey) (e : Env (Backing Calls)) :
    (scripted world quoteBatch maxBatch).hiddenFeesVia (scripted world quoteBatch maxBatch).shops
        (scripted world quoteBatch maxBatch).items keys e
      = (scripted world quoteBatch maxBatch).hiddenFeesVia
          (.layered (.json "shop" Shop.toJson Shop.ofJson?)
            (scripted world quoteBatch maxBatch).rawShops 0 e.tiers.length)
          (.layered (.json "item" Item.toJson Item.ofJson?)
            (scripted world quoteBatch maxBatch).rawItems 0 e.tiers.length) keys e := by
  have hraw : (scripted world quoteBatch maxBatch).rawShops.GivesEach
      (Alike (Backed (fun _ => True) e.behind.store) e) Once (found "shop" world.shops) :=
    fromService_givesFound (fun _ _ _ => trivial) fun _ _ => rfl
  obtain ⟨hkept, -⟩ := hraw.layered (s := .json "shop" Shop.toJson Shop.ofJson?) e.tiers.length 0
    (keys.map HiddenFeeKey.shopId).eraseDups e (.refl ⟨trivial, rfl⟩)
  refine hiddenFeesVia_congr rfl ((through_fetch _ _ _ _).trans ?_)
  rw [hkept.length]

/-- The hidden fees of any articles, in any state of the tiers before shops and items: each
article is of one kind, its fee is known or quoted; each place gets the fee of its article; and
the calls of logistics, which services that remember their requests have kept when they started
with none, hold the requests of the places that need a quote, each once. -/
theorem hiddenFees_by_bucket (world : Script) (quoteBatch maxBatch : ℕ)
    (keys : List HiddenFeeKey) (e : Env (Backing Calls)) :
    let s := scripted world quoteBatch maxBatch
    s.hiddenFeesVia s.shops s.items keys e
        = s.hiddenFeesVia
            (.layered (.json "shop" Shop.toJson Shop.ofJson?) s.rawShops 0 e.tiers.length)
            (.layered (.json "item" Item.toJson Item.ofJson?) s.rawItems 0 e.tiers.length)
            keys e ∧
      ∀ (shopSpace : Space Shop) (itemSpace : Space Item) (i j m n : ℕ),
        let shop := preferring (found "shop" world.shops) fun k => e.nearest shopSpace k i m
        let item := preferring (found "item" world.items) fun k => e.nearest itemSpace k j n
        let r := s.hiddenFeesVia (.layered shopSpace s.rawShops i m)
          (.layered itemSpace s.rawItems j n) keys e
        (∀ key, Xor (∃ o, Known world shop item key o) (∃ q, Sends world shop item key q)) ∧
          ∃ batches,
            s.recording.hiddenFeesVia (.layered shopSpace s.recording.rawShops i m)
                (.layered itemSpace s.recording.rawItems j n) keys (remembering [] e)
              = (r.1, remembering batches r.2) ∧
            ByBucket world shop item quoteBatch keys r.1 batches := by
  intro s
  refine ⟨hiddenFeesVia_through keys e, fun shopSpace itemSpace i j m n => ?_⟩
  intro shop item r
  refine ⟨known_xor_sends world shop item, ?_⟩
  have hshops : s.recording.rawShops.GivesEach
      (Alike (Backed (fun c => c.2 = []) e.behind.store) (remembering [] e)) Once
      (found "shop" world.shops) :=
    fromService_givesFound (fun _ _ hc => hc) fun _ _ => rfl
  have hitems : s.recording.rawItems.GivesEach
      (Alike (Backed (fun c => c.2 = []) e.behind.store) (remembering [] e)) Once
      (found "item" world.items) :=
    fromService_givesFound (fun _ _ hc => hc) fun _ _ => rfl
  have hbuckets := hiddenFeesVia_byBucket world quoteBatch maxBatch
    (hshops.layered (s := shopSpace) m i) (hitems.layered (s := itemSpace) n j)
    (.refl ⟨rfl, rfl⟩) keys
  have hsame := hiddenFeesVia_projects s
    (projects_layered (projects_fromService "shop" s.services.shops) shopSpace m i)
    (projects_layered (projects_fromService "item" s.services.items) itemSpace n j) keys
    (remembering [] e)
  -- the tiers are the same with the memory and without
  have hnear : ∀ {κ ν : Type} [KeyText κ] (space : Space ν) (k : κ) (level count : ℕ),
      (remembering [] e).nearest space k level count = e.nearest space k level count :=
    fun _ _ _ _ => Env.nearest_congr rfl
  simp only [hnear] at hbuckets
  have hr : r = _ := hsame
  refine ⟨(s.recording.hiddenFeesVia (.layered shopSpace s.recording.rawShops i m)
    (.layered itemSpace s.recording.rawItems j n) keys (remembering [] e)).2.behind.market.2,
    ?_, ?_⟩
  · rw [hr]
    rfl
  · rw [hr]
    exact hbuckets

end RegionPricing.Pricing
