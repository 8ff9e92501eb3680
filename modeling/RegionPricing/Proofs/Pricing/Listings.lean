import RegionPricing.Pricing.Listings
import RegionPricing.Proofs.Pricing.HiddenFees
import RegionPricing.Proofs.Pricing.Warehouses

/-!
# Fees of listings, one by one

A batch of listings shares brackets, which are looked up once for all listings of a
corridor and a weight, and shares the calls to logistics. Still each listing gets the
hidden price and the shipping fee that it would get alone: `exists_hiddenPrice` and
`exists_shippingFee`. The parts in which the fees arrive, from brackets, from failed
routes, from several warehouses and from single quotes, are taken apart listing by
listing and put together again by `inOrder`.
-/

namespace RegionPricing.Pricing

open RegionPricing.Factor RegionPricing.Market RegionPricing.Batch RegionPricing.Rules

/-! ## Stored brackets -/

/-- The fee of a listing from its own bracket. -/
def bracketFee (book : Book) (table : Store.FeeTable) (store : Store) (l : ListingQuery) :
    Outcome Decimal :=
  storedFee book table (store.bracket? table l.corridor l.weight) l

theorem get?_bracketsFor (table : Store.FeeTable) (store : Store) {ls : List (ℕ × ListingQuery)}
    {l : ℕ × ListingQuery} (hl : l ∈ ls) :
    (bracketsFor table store ls).get? (bracketKey l.2)
      = some (store.bracket? table l.2.corridor l.2.weight) :=
  (KeyMap.get?_ofList_map _ _ _).trans (if_pos (mem_eraseDups_map (fun l => bracketKey l.2) hl))

/-- A bracket that is shared is the one that each listing would find. -/
theorem storedFees_eq (book : Book) (table : Store.FeeTable) (store : Store)
    (ls : List (ℕ × ListingQuery)) :
    storedFees book table store ls
      = (servedBy book table .brackets ls).map fun l => (l.1, bracketFee book table store l.2) := by
  refine List.map_congr_left fun l hl => ?_
  rw [get?_bracketsFor table store hl]
  rfl

/-- A fee of a listing from where the fees of its corridor come from. -/
def bySource {γ : Type} (book : Book) (table : Store.FeeTable) (stored quoted : ListingQuery → γ)
    (l : ListingQuery) : γ :=
  match feeSource book table l.corridor with
  | .brackets => stored l
  | .logistics => quoted l

/-- The listings served from brackets and those served by logistics are all listings. -/
theorem servedBy_append_perm {γ : Type} (book : Book) (table : Store.FeeTable)
    (stored quoted : ListingQuery → γ) (ls : List (ℕ × ListingQuery)) :
    ((servedBy book table .brackets ls).map (fun l => (l.1, stored l.2)) ++
      (servedBy book table .logistics ls).map (fun l => (l.1, quoted l.2))).Perm
      (ls.map fun l => (l.1, bySource book table stored quoted l.2)) := by
  have hnot : servedBy book table .logistics ls
      = ls.filter fun l => !decide (feeSource book table l.2.corridor = .brackets) := by
    refine List.filter_congr fun l _ => ?_
    cases feeSource book table l.2.corridor <;> rfl
  have hfee : ∀ source, ∀ l ∈ servedBy book table source ls,
      feeSource book table l.2.corridor = source :=
    fun source l hl => of_decide_eq_true (List.mem_filter.mp hl).2
  have hstored : (servedBy book table .brackets ls).map (fun l => (l.1, stored l.2))
      = (servedBy book table .brackets ls).map
          fun l => (l.1, bySource book table stored quoted l.2) :=
    List.map_congr_left fun l hl => by rw [bySource, hfee _ l hl]
  have hquoted : (servedBy book table .logistics ls).map (fun l => (l.1, quoted l.2))
      = (servedBy book table .logistics ls).map
          fun l => (l.1, bySource book table stored quoted l.2) :=
    List.map_congr_left fun l hl => by rw [bySource, hfee _ l hl]
  rw [hstored, hquoted, ← List.map_append, hnot]
  exact (List.filter_append_perm _ ls).map _

/-! ## Routes -/

/-- The route of a listing depends on its own shop and channels. -/
theorem routeOf_congr {book : Book} {shops shops' : Answers Id Shop}
    {channels channels' : EnabledChannels} {l : ListingQuery}
    (hs : shops.lookup "shop" l.shopId = shops'.lookup "shop" l.shopId)
    (hc : SameChannels channels channels' ⟨l.shopId, l.itemId⟩) :
    routeOf book shops channels l = routeOf book shops' channels' l := by
  unfold SameChannels at hc
  unfold routeOf
  rcases channels with f | found <;> rcases channels' with f' | found' <;>
    simp only [Except.map, Except.error.injEq, Except.ok.injEq, reduceCtorEq] at hc
  · rw [hs, hc]
  · rw [hs]
    cases shops'.lookup "shop" l.shopId with
    | error f => rfl
    | ok shop => simp only [hc]

/-- The route of a listing on its own. -/
def routeAlone (world : Script) (book : Book) (l : ListingQuery) : Route :=
  routeOf book (.ofKeys [l.shopId] (found "shop" world.shops)) (channelsOf world) l

namespace Route

/-- A route whose sellers fit into memory. -/
def Bounded : Route → Prop
  | .several sellers _ _ _ => sellers.length < memoryLimit
  | _ => True

/-- What a route comes to when the script is followed. -/
def settled (world : Script) : Route → Evaluation Decimal
  | .failed f => ofExcept (.error f)
  | .single r => ofExcept (delivered world .calculateHiddenFee (world.hiddenFee r))
  | .several sellers buyer channels l =>
    (warehouseFee world.services.locationFees l.corridor.affiliate sellers buyer channels l.weight
      Calls.none).1

/-- The fee of several warehouses, if the route has them. -/
def several? (world : Script) : Route → Option (Evaluation Decimal)
  | .several sellers buyer channels l => some (settled world (.several sellers buyer channels l))
  | _ => none

end Route

/-- The sellers of a route are the warehouses of a shop. -/
theorem routeOf_bounded (book : Book) (shops : Answers Id Shop) (channels : EnabledChannels)
    (l : ListingQuery) : (routeOf book shops channels l).Bounded := by
  unfold routeOf
  cases shops.lookup "shop" l.shopId with
  | error f => exact trivial
  | ok shop =>
    cases channels with
    | error f => exact trivial
    | ok found =>
      simp only
      split
      next => exact trivial
      next =>
        unfold routeFor
        split
        next =>
          split
          next => exact shop.warehouses_lt
          next => exact trivial
        next => exact trivial

theorem warehouseFee_settled (world : Script) {sellers : List String}
    (h : sellers.length < memoryLimit) (buyer : String) (channels : List Id) (l : ListingQuery) :
    ∃ fee : Outcome Decimal,
      Gives (warehouseFee world.services.locationFees l.corridor.affiliate sellers buyer channels
        l.weight) (ofExcept fee) ∧
      Route.settled world (.several sellers buyer channels l) = ofExcept fee := by
  obtain ⟨fee, hfee⟩ := exists_warehouseFee world.services.locationFees
    (fun rs => ⟨_, fun _ => rfl⟩) l.corridor.affiliate h buyer channels l.weight
  exact ⟨fee, hfee, hfee Calls.none⟩

/-- No arithmetic fails on a route. -/
theorem Route.exists_settled (world : Script) {r : Route} (h : r.Bounded) :
    ∃ fee : Outcome Decimal, r.settled world = ofExcept fee := by
  cases r with
  | failed f => exact ⟨.error f, rfl⟩
  | single q => exact ⟨delivered world .calculateHiddenFee (world.hiddenFee q), rfl⟩
  | several sellers buyer channels l =>
    obtain ⟨fee, _, hfee⟩ := warehouseFee_settled world h buyer channels l
    exact ⟨fee, hfee⟩

theorem severalFees_gives (world : Script) :
    ∀ {routes : List (ℕ × Route)}, (∀ r ∈ routes, r.2.Bounded) →
      Gives (severalFees world.services routes)
        (routes.filterMap fun r => (r.2.several? world).map fun fee => (r.1, fee)) := by
  intro routes
  induction routes with
  | nil => intro _; exact .pure []
  | cons r rest ih =>
    intro h
    have hrest := ih fun r' hr' => h r' (List.mem_cons_of_mem r hr')
    rcases r with ⟨n, f | q | ⟨sellers, buyer, channels, l⟩⟩
    · exact hrest
    · exact hrest
    · have hlen : sellers.length < memoryLimit := h _ List.mem_cons_self
      obtain ⟨fee, hfee, hsettled⟩ := warehouseFee_settled world hlen buyer channels l
      rw [List.filterMap_cons]
      simp only [Route.several?, Option.map_some, hsettled]
      exact hfee.bind (hrest.map (List.cons (n, ofExcept fee)))

/-- What routes come to, in the parts in which it arrives. -/
def routeQuotes (world : Script) (routes : List (ℕ × Route)) : List (ℕ × Evaluation Decimal) :=
  evaluations (failedRoutes routes) ++
    routes.filterMap (fun r => (r.2.several? world).map fun fee => (r.1, fee)) ++
    evaluations ((singleRequests routes).map fun p =>
      (p.1, delivered world .calculateHiddenFee (world.hiddenFee p.2)))

/-- Failed routes, fees of several warehouses and single quotes are all routes. -/
theorem routeQuotes_perm (world : Script) (routes : List (ℕ × Route)) :
    (routeQuotes world routes).Perm (routes.map fun r => (r.1, r.2.settled world)) := by
  unfold routeQuotes
  simp only [evaluations, failedRoutes, singleRequests, List.map_filterMap]
  refine (List.Perm.append_right _ (filterMap_append_perm ?_)).trans
    ((filterMap_append_perm ?_).trans (.of_eq ?_))
  · intro r _
    rcases r with ⟨n, f | q | ⟨sellers, buyer, channels, l⟩⟩
    · exact .inr rfl
    · exact .inr rfl
    · exact .inl rfl
  · intro r _
    rcases r with ⟨n, f | q | ⟨sellers, buyer, channels, l⟩⟩
    · exact .inr rfl
    · exact .inl rfl
    · exact .inr rfl
  · rw [← List.filterMap_eq_map]
    refine List.filterMap_congr fun r _ => ?_
    rcases r with ⟨n, f | q | ⟨sellers, buyer, channels, l⟩⟩ <;> rfl

/-! ## All listings together -/

section

variable {world : Script} {quoteBatch maxBatch : ℕ} {store : Store} {book : Book}

/-- Each listing is quoted along its own route. -/
theorem quotedHiddenPrices_yields (ls : List (ℕ × ListingQuery)) :
    Yields ((scripted world quoteBatch maxBatch).quotedHiddenPrices book ls) store
      (routeQuotes world (ls.map fun l => (l.1, routeAlone world book l.2))) := by
  unfold Setup.quotedHiddenPrices
  by_cases hempty : ls.isEmpty
  · rw [if_pos hempty, List.isEmpty_iff.mp hempty]
    exact .pure _
  rw [if_neg hempty]
  refine (shops_yields _).bind ((channels_yields _).bind ?_)
  have hroutes : (ls.map fun l => (l.1, routeOf book
        (.ofKeys (ls.map fun l => l.2.shopId).eraseDups (found "shop" world.shops))
        (enabledChannels (channelAnswer world
          (ls.map fun l => ShopItem.mk l.2.shopId l.2.itemId).eraseDups)) l.2))
      = ls.map fun l => (l.1, routeAlone world book l.2) := by
    refine List.map_congr_left fun l hl => congrArg (Prod.mk l.1) (routeOf_congr ?_ ?_)
    · rw [Answers.lookup_ofKeys (mem_eraseDups_map (fun l : ℕ × ListingQuery => l.2.shopId) hl),
        Answers.lookup_ofKeys List.mem_cons_self]
    · exact channelAnswer_same
        (mem_eraseDups_map (fun l : ℕ × ListingQuery => ShopItem.mk l.2.shopId l.2.itemId) hl)
  have hbounded : ∀ r ∈ ls.map fun l => (l.1, routeAlone world book l.2), r.2.Bounded := by
    intro r hr
    obtain ⟨l, _, rfl⟩ := List.mem_map.mp hr
    exact routeOf_bounded book _ _ l.2
  simp only [hroutes]
  refine (Yields.ask (severalFees_gives world hbounded)).bind ?_
  exact (Yields.ask (quoteInChunks_gives hiddenFees_itemwise _ _)).bind (.pure _)

/-- Every listing gets the hidden price that it gets alone. -/
theorem exists_hiddenPrice (world : Script) (book : Book) (store : Store) :
    ∃ price : ListingQuery → Outcome Decimal, ∀ quoteBatch maxBatch ls,
      Yields ((scripted world quoteBatch maxBatch).hiddenPrices book ls) store
        (.ok (ls.map price)) := by
  have hroute : ∀ l, ∃ fee : Outcome Decimal,
      (routeAlone world book l).settled world = ofExcept fee :=
    fun l => (routeAlone world book l).exists_settled world (routeOf_bounded book _ _ l)
  -- A route that comes to an outcome has it as its quote.
  choose quote hquote using hroute
  let stored := bracketFee book .hiddenPrice store
  refine ⟨bySource book .hiddenPrice stored quote, fun quoteBatch maxBatch ls => ?_⟩
  refine (Yields.reading _).bind ((quotedHiddenPrices_yields _).bind ?_)
  have hstored : evaluations (storedFees book .hiddenPrice store (placed ls))
      = (servedBy book .hiddenPrice .brackets (placed ls)).map
          fun l => (l.1, ofExcept (stored l.2)) := by
    rw [storedFees_eq, evaluations, List.map_map]
    rfl
  have hquoted : (routeQuotes world ((servedBy book .hiddenPrice .logistics (placed ls)).map
        fun l => (l.1, routeAlone world book l.2))).Perm
      ((servedBy book .hiddenPrice .logistics (placed ls)).map
        fun l => (l.1, ofExcept (quote l.2))) := by
    refine (routeQuotes_perm world _).trans (.of_eq ?_)
    simp only [List.map_map, Function.comp_def, hquote]
  have hall : (evaluations (storedFees book .hiddenPrice store (placed ls)) ++
      routeQuotes world ((servedBy book .hiddenPrice .logistics (placed ls)).map
        fun l => (l.1, routeAlone world book l.2))).Perm
      (placed ((ls.map (bySource book .hiddenPrice stored quote)).map
        fun o => (ofExcept o : Evaluation Decimal))) := by
    rw [hstored, List.map_map, placed_map]
    refine ((hquoted.append_left _).trans (servedBy_append_perm book .hiddenPrice
      (fun l => ofExcept (stored l)) (fun l => ofExcept (quote l)) _)).trans (.of_eq ?_)
    refine List.map_congr_left fun l _ => congrArg (Prod.mk l.1) ?_
    unfold bySource
    dsimp only [Function.comp_apply]
    split <;> rfl
  -- Put in order, the evaluations are those of all listings, and none of them fails.
  have hevaluated := mapM_run_ofExcept (ls.map (bySource book .hiddenPrice stored quote))
  rw [← inOrder_of_perm hall] at hevaluated
  rw [← hevaluated]
  exact .pure _

theorem shippingFees_itemwise :
    Itemwise .externalService (scripted world quoteBatch maxBatch).services.shippingFees
      fun r => delivered world .externalService (world.shippingFee r) :=
  fun rs => ⟨_, fun _ => rfl, outcomes_logistics world .externalService rs world.shippingFee⟩

/-- Every listing gets the shipping fee that it gets alone. -/
theorem exists_shippingFee (world : Script) (book : Book) (store : Store) :
    ∃ fee : ListingQuery → Outcome Decimal, ∀ quoteBatch maxBatch ls,
      Yields ((scripted world quoteBatch maxBatch).shippingFees book ls) store (ls.map fee) := by
  let quote : ListingQuery → Outcome Decimal := fun l =>
    delivered world .externalService (world.shippingFee (Setup.shippingRequest l))
  refine ⟨bySource book .shippingFee (bracketFee book .shippingFee store) quote,
    fun quoteBatch maxBatch ls => ?_⟩
  refine (Yields.reading _).bind
    ((Yields.ask (quoteInChunks_gives shippingFees_itemwise _ _)).bind ?_)
  have hall := servedBy_append_perm book .shippingFee (bracketFee book .shippingFee store) quote
    (placed ls)
  rw [← storedFees_eq, ← placed_map] at hall
  rw [← inOrder_of_perm hall, List.map_map]
  exact .pure _

end

end RegionPricing.Pricing
