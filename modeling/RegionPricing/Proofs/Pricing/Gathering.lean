import RegionPricing.Proofs.Pricing.Answering
import RegionPricing.Proofs.Pricing.Factors

/-!
# Everything that a price needs is gathered

The factors of a batch are gathered under keys that are collected from all its queries; a
price looks its factors up under keys that it makes from its own query. The two are different
code, and they have to agree on which queries need a factor and under which key. They do:
whatever the services answer, the caches hold and the store has, each key that a price looks
up has been asked for, and has an outcome (`factors_gathered`).
-/

namespace RegionPricing.Pricing

open RegionPricing.Factor RegionPricing.Market RegionPricing.Batch RegionPricing.Rules

variable {σ : Type} (s : Setup σ) (book : Book)

/-! ## Fees of local listings -/

theorem resolved_fee (b : Fee.Bracket) (grams : Decimal) : IsResolved (b.fee grams) := by
  unfold Fee.Bracket.fee
  split
  · exact resolved_ok _
  · exact resolved_error
      (Failure.not_isUnresolved_of_end (c := 'g') (by decide +kernel) (by decide))

theorem storedFees_settled (table : Store.FeeTable) (store : Store)
    (ls : List (ℕ × ListingQuery)) :
    Settled (servedBy book table .brackets ls).length (storedFees book table store ls) := by
  rw [storedFees_eq]
  refine ⟨List.length_map _, fun o ho => ?_⟩
  obtain ⟨l, _, rfl⟩ := List.mem_map.mp ho
  have hbracket : IsResolved (store.bracket? table l.2.corridor l.2.weight) := resolved_whenOpen _ _
  dsimp only
  unfold bracketFee storedFee
  split
  next f hf => exact resolved_error (hbracket f hf)
  next b _ => exact resolved_fee b _
  next =>
    split
    · exact resolved_ok _
    · exact resolved_of_kind (by decide)

/-- Every listing is served from brackets or by logistics. -/
theorem length_servedBy (table : Store.FeeTable) (ls : List (ℕ × ListingQuery)) :
    (servedBy book table .brackets ls).length + (servedBy book table .logistics ls).length
      = ls.length := by
  have hperm := (servedBy_append_perm book table (fun _ => ()) (fun _ => ()) ls).length_eq
  rwa [List.length_append, List.length_map, List.length_map, List.length_map] at hperm

theorem length_marked (ls : List ListingQuery) :
    (ls.zipIdx.map fun l => (l.2, l.1)).length = ls.length := by
  rw [List.length_map, List.length_zipIdx]

theorem shippingFees_resolved (ls : List ListingQuery) :
    Ensures (s.shippingFees book ls) fun fees =>
      fees.length = ls.length ∧ ∀ fee ∈ fees, IsResolved fee := by
  refine fun e => ?_
  have hstored := storedFees_settled book .shippingFee e.behind.store
    (ls.zipIdx.map fun l => (l.2, l.1))
  have hkind : Failure.Kind.externalService ≠ .internal := by decide
  have hquotes := quoteInChunks_settled hkind s.quoteBatch s.services.shippingFees
    ((servedBy book .shippingFee .logistics (ls.zipIdx.map fun l => (l.2, l.1))).map
      fun l => (l.1, Setup.shippingRequest l.2)) e.behind.market
  have hall := (hstored.append hquotes).inOrder
  rw [List.length_map, length_servedBy, length_marked] at hall
  exact hall

/-! ### Routes -/

namespace Route

/-- Whether parcels leave from several warehouses. -/
def isSeveral : Route → Bool
  | .several _ _ _ _ => true
  | _ => false

/-- A route whose failure is resolved. -/
def Sound : Route → Prop
  | .failed f => ¬f.IsUnresolved
  | _ => True

end Route

theorem routeOf_sound {shops : Answers Id Shop}
    {answer : Except ServiceError (KeyMap ShopItem (List Channel))} {l : ListingQuery}
    (hshop : Answered (shops.get? l.shopId)) :
    (routeOf book shops (enabledChannels answer) l).Sound := by
  have hshop := hshop.lookup "shop"
  unfold routeOf
  split
  next f hf => exact hshop f hf
  next f _ hf =>
    cases answer with
    | ok found => cases hf
    | error e =>
      cases hf
      exact Failure.not_isUnresolved_of_kind (by decide)
  next =>
    dsimp only
    split
    next => exact Failure.not_isUnresolved_of_kind (by decide)
    next =>
      unfold routeFor
      split
      · split <;> trivial
      · trivial

/-- Failed routes, routes from several warehouses and single requests are all routes. -/
theorem length_routes (routes : List (ℕ × Route)) :
    (failedRoutes routes).length + routes.countP (fun r => r.2.isSeveral)
      + (singleRequests routes).length = routes.length := by
  induction routes with
  | nil => rfl
  | cons r rest ih =>
    rcases r with ⟨n, f | q | ⟨sellers, buyer, channels, l⟩⟩ <;>
      simp [failedRoutes, singleRequests, Route.isSeveral] at ih ⊢ <;> omega

theorem failedRoutes_settled {routes : List (ℕ × Route)} (h : ∀ r ∈ routes, r.2.Sound) :
    Settled (failedRoutes routes).length (failedRoutes routes) := by
  refine ⟨rfl, fun o ho => ?_⟩
  obtain ⟨r, hr, hsome⟩ := List.mem_filterMap.mp ho
  have hsound := h r hr
  split at hsome
  next f hf =>
    obtain rfl := Option.some.inj hsome
    rw [hf] at hsound
    exact resolved_error hsound
  next => cases hsome

theorem warehouseFeeOf_resolves (sellers : ℕ) (buyer : String) (rs : List LocationFeeRequest)
    (answer : Except ServiceError (List Quote)) :
    Resolves (warehouseFeeOf sellers buyer rs answer) := by
  unfold warehouseFeeOf
  split
  next => exact resolves_throw (Failure.not_isUnresolved_of_kind (by decide))
  next =>
    split
    next =>
      unfold meanFee
      split
      · exact resolves_throw (Failure.not_isUnresolved_of_kind (by decide))
      · exact resolves_liftM _
    next => exact resolves_ofExcept_iff.mpr (resolved_miscount _ _)

/-- The fee of several warehouses is a resolved outcome; arithmetic does not fail. -/
theorem warehouseFee_resolved (call : List LocationFeeRequest → Call σ (List Quote))
    (region : Region) {sellers : List String} (hlen : sellers.length < memoryLimit) (buyer : String)
    (channels : List Id) (weight : Int64) :
    Ensures (warehouseFee call region sellers buyer channels weight) fun fee =>
      ∃ outcome : Outcome Decimal, fee = ofExcept outcome ∧ IsResolved outcome := by
  unfold warehouseFee
  dsimp only
  split
  next => exact .pure ⟨.error _, rfl, resolved_of_kind (by decide)⟩
  next =>
    refine (Ensures.trivial _).bind fun answer _ => .pure ?_
    have hsellers : ∀ r ∈ locationRequests region sellers buyer channels weight,
        r.seller ∈ sellers := fun r hr => seller_of_mem_locationRequests hr
    obtain ⟨outcome, houtcome⟩ := exists_warehouseFeeOf hlen buyer hsellers answer
    have hresolves := warehouseFeeOf_resolves sellers.length buyer
      (locationRequests region sellers buyer channels weight) answer
    exact ⟨outcome, houtcome, resolves_ofExcept_iff.mp (houtcome ▸ hresolves)⟩

theorem severalFees_settled (services : Services σ) {routes : List (ℕ × Route)}
    (h : ∀ r ∈ routes, r.2.Bounded) :
    Ensures (severalFees services routes) fun fees => ∃ outcomes, fees = evaluations outcomes ∧
      Settled (routes.countP fun r => r.2.isSeveral) outcomes := by
  induction routes with
  | nil => exact .pure ⟨[], rfl, rfl, by simp⟩
  | cons r rest ih =>
    have hrest := ih fun r' hr' => h r' (List.mem_cons_of_mem r hr')
    rcases r with ⟨n, f | q | ⟨sellers, buyer, channels, l⟩⟩
    · exact hrest
    · exact hrest
    · have hlen : sellers.length < memoryLimit := h _ List.mem_cons_self
      refine (warehouseFee_resolved services.locationFees _ hlen _ _ _).bind fun fee hfee => ?_
      refine hrest.bind fun fees hfees => .pure ?_
      obtain ⟨outcome, rfl, hresolved⟩ := hfee
      obtain ⟨outcomes, rfl, hsettled⟩ := hfees
      refine ⟨(n, outcome) :: outcomes, rfl, ?_, fun o ho => ?_⟩
      · rw [List.length_cons, hsettled.length_eq, List.countP_cons_of_pos rfl]
      · rcases List.mem_cons.mp ho with rfl | ho
        · exact hresolved
        · exact hsettled.resolved o ho

theorem evaluations_append (os os' : List (ℕ × Outcome Decimal)) :
    evaluations (os ++ os') = evaluations os ++ evaluations os' :=
  List.map_append

/-- Each listing that logistics serves gets an outcome. -/
theorem quotedHiddenPrices_settled (ls : List (ℕ × ListingQuery)) :
    Ensures (s.quotedHiddenPrices book ls) fun prices => ∃ outcomes, prices = evaluations outcomes ∧
      Settled ls.length outcomes := by
  unfold Setup.quotedHiddenPrices
  split
  next hempty =>
    rw [List.isEmpty_iff.mp hempty]
    exact .pure ⟨[], rfl, rfl, by simp⟩
  next =>
    refine (answering_fetch_map (answering_shops s) (fun l => l.2.shopId) ls).bind
      fun shops hshops => ?_
    refine (Ensures.trivial _).bind fun answer _ => ?_
    dsimp only
    generalize hroutes : (ls.map fun l =>
      (l.1, routeOf book shops (enabledChannels answer) l.2)) = routes
    have hlength : routes.length = ls.length := by rw [← hroutes, List.length_map]
    have hroute : ∀ r ∈ routes, r.2.Bounded ∧ r.2.Sound := by
      intro r hr
      rw [← hroutes] at hr
      obtain ⟨l, hl, rfl⟩ := List.mem_map.mp hr
      exact ⟨routeOf_bounded book _ _ l.2, routeOf_sound book (hshops l hl)⟩
    have hfailed := failedRoutes_settled fun r hr => (hroute r hr).2
    refine (ensures_ask (severalFees_settled s.services fun r hr => (hroute r hr).1)).bind
      fun several hseveral => ?_
    refine (ensures_ask (quoteInChunks_settled (by decide) _ _ (singleRequests routes))).bind
      fun singles hsingles => .pure ?_
    obtain ⟨outcomes, rfl, hseveral⟩ := hseveral
    refine ⟨failedRoutes routes ++ outcomes ++ singles, ?_, ?_⟩
    · rw [evaluations_append, evaluations_append]
    · rw [← hlength, ← length_routes routes]
      exact (hfailed.append hseveral).append hsingles

/-! ### All listings -/

theorem inOrder_evaluations (os : List (ℕ × Outcome Decimal)) :
    inOrder (evaluations os) = (inOrder os).map fun o => (ofExcept o : Evaluation Decimal) := by
  have hsort := List.map_mergeSort (r := fun a b : ℕ × Outcome Decimal => decide (a.1 ≤ b.1))
    (s := fun a b : ℕ × Evaluation Decimal => decide (a.1 ≤ b.1))
    (f := fun o : ℕ × Outcome Decimal => (o.1, (ofExcept o.2 : Evaluation Decimal))) (l := os)
    (fun _ _ _ _ => rfl)
  rw [inOrder, evaluations, ← hsort, inOrder, List.map_map, List.map_map]
  rfl

/-- Every listing gets a hidden price or a failure of its own; arithmetic does not fail. -/
theorem hiddenPrices_resolved (ls : List ListingQuery) :
    Ensures (s.hiddenPrices book ls) fun prices => ∃ outcomes, prices = .ok outcomes ∧
      outcomes.length = ls.length ∧ ∀ o ∈ outcomes, IsResolved o := by
  intro e
  have hstored := storedFees_settled book .hiddenPrice e.behind.store
    (ls.zipIdx.map fun l => (l.2, l.1))
  obtain ⟨quotes, hquotes, hsettled⟩ := quotedHiddenPrices_settled s book
    (servedBy book .hiddenPrice .logistics (ls.zipIdx.map fun l => (l.2, l.1))) e
  have hall := (hstored.append hsettled).inOrder
  rw [length_servedBy, length_marked] at hall
  refine ⟨_, ?_, hall⟩
  show (inOrder (evaluations (storedFees book .hiddenPrice e.behind.store _) ++
    (s.quotedHiddenPrices book _ e).1)).mapM ExceptT.run = _
  rw [hquotes, ← evaluations_append, inOrder_evaluations]
  exact mapM_run_ofExcept _

/-- The fees that the price of a query depends on are there. -/
structure ListingFees.Serves (fees : ListingFees) (book : Book) (q : ListingPriceQuery) : Prop where
  hidden : needsFees book q → Answered (fees.hiddenPrices.get? q.id)
  shipping : needsFees book q → Answered (fees.shippingFees.get? q.id)

theorem listingFees_serves (qs : List ListingPriceQuery) :
    Ensures (s.listingFees book qs) fun result => ∃ fees, result = .ok fees ∧
      ∀ q ∈ qs, fees.Serves book q := by
  refine (hiddenPrices_resolved s book _).bind fun prices hprices => ?_
  refine (shippingFees_resolved s book _).bind fun fees hfees => .pure ?_
  obtain ⟨hidden, rfl, hlength, hresolved⟩ := hprices
  obtain ⟨hlength', hresolved'⟩ := hfees
  rw [List.length_map] at hlength hlength'
  have hid : ∀ q ∈ qs, needsFees book q →
      q.id ∈ (qs.filter (needsFees book)).map ListingPriceQuery.id := fun q hq hneeds =>
    List.mem_map_of_mem (List.mem_filter.mpr ⟨hq, hneeds⟩)
  refine ⟨_, rfl, fun q hq => ⟨fun hneeds => ?_, fun hneeds => ?_⟩⟩
  · exact answered_ofList_zip (by rw [hlength, List.length_map]) hresolved (hid q hq hneeds)
  · exact answered_ofList_zip (by rw [hlength', List.length_map]) hresolved' (hid q hq hneeds)

theorem listingPrice_resolves {fees : ListingFees} {q : ListingPriceQuery}
    (h : fees.Serves book q) : Resolves (listingPrice book fees q) := by
  unfold listingPrice
  split
  · exact resolves_pure _
  next hweight =>
    split
    · exact resolves_pure _
    next terms hterms =>
      -- with a weight and terms the price depends on fees, and these were asked for
      have hneeds : needsFees book q := by
        rw [needsFees, hterms, Option.isSome_some, Bool.and_true, decide_eq_true_eq]
        exact Int64.not_le.mp hweight
      refine .ofExcept_bind ((h.hidden hneeds).lookup _) fun hidden _ => ?_
      refine .ofExcept_bind ((h.shipping hneeds).lookup _) fun shipping _ => ?_
      exact .liftM_bind fun price _ => resolves_liftM _

/-! ## Cross-border listings -/

theorem resolved_charge (t : Fee.Tariff) (p : Fee.Parcel) : IsResolved (t.charge p) := by
  unfold Fee.Tariff.charge
  split
  · exact resolved_ok _
  next b _ => exact (resolved_fee b p.grams).map _

theorem tariffPrice_resolved {shops : Answers Id Shop} {items : Answers Id Item}
    {q : CrossBorderQuery} (hshop : Answered (shops.get? q.shopId))
    (hitem : Answered (items.get? q.itemId)) : IsResolved (tariffPrice book shops items q) := by
  refine (hshop.lookup _).bind fun shop _ => (hitem.lookup _).bind fun item _ => ?_
  refine (resolved_charge _ _).bind fun charge _ => ?_
  split
  · exact resolved_ok _
  · exact resolved_of_kind (by decide)

theorem rateOrTerms_resolved (c : Corridor) {rate : Outcome Decimal} (h : IsResolved rate) :
    IsResolved (rateOrTerms book c rate) := by
  unfold rateOrTerms
  split
  · exact resolved_ok _
  · exact h

/-- What the price of a query depends on is there. -/
structure CrossBorderFactors.Serves (factors : CrossBorderFactors) (q : CrossBorderQuery) :
    Prop where
  rate : Answered (factors.exchangeRates.get? q.corridor)
  hidden : Answered (factors.hiddenPrices.get? q.id)

theorem crossBorderFactors_serves (qs : List CrossBorderQuery) :
    Ensures (s.crossBorderFactors book qs) fun factors => ∀ q ∈ qs, factors.Serves q := by
  refine (answering_fetch_map (answering_shops s) CrossBorderQuery.shopId qs).bind
    fun shops hshops => ?_
  refine (answering_fetch_map (answering_items s) CrossBorderQuery.itemId qs).bind
    fun items hitems => ?_
  refine (answering_fetch_map answering_exchangeRates CrossBorderQuery.corridor qs).bind
    fun rates hrates => .pure fun q hq => ⟨?_, ?_⟩
  · obtain ⟨rate, hget, hresolved⟩ := hrates q hq
    refine ⟨_, ?_, rateOrTerms_resolved book q.corridor hresolved⟩
    rw [KeyMap.get?_mapValues, hget, Option.map_some]
  · refine answered_ofList (fun e he => ?_) ?_
    · obtain ⟨q', hq', rfl⟩ := List.mem_map.mp he
      exact tariffPrice_resolved book (hshops q' hq') (hitems q' hq')
    · rw [List.map_map]
      exact List.mem_map_of_mem hq

theorem crossBorderPrice_resolves {factors : CrossBorderFactors} {q : CrossBorderQuery}
    (h : factors.Serves q) : Resolves (crossBorderPrice book factors q) := by
  refine .ofExcept_bind (h.rate.lookup _) fun rate _ => ?_
  refine .ofExcept_bind (h.hidden.lookup _) fun hidden _ => ?_
  exact .liftM_bind fun price _ => resolves_liftM _

/-! ## Conversions -/

theorem ownedShop_resolved {shops : Answers Id Shop} {merchantId shopId : Id}
    (h : Answered (shops.get? shopId)) : IsResolved (ownedShop shops merchantId shopId) := by
  refine (h.lookup _).bind fun shop _ => ?_
  split
  · exact resolved_ok _
  · exact resolved_of_kind (by decide)

theorem checkLimit_resolved {limits : Answers Id ProfitRateLimit} {merchantId : Id} (rate : Int64)
    (h : Answered (limits.get? merchantId)) : IsResolved (checkLimit limits merchantId rate) := by
  have hlookup := h.lookup "profit rate limit"
  unfold checkLimit
  split
  · split
    · exact resolved_ok _
    · exact resolved_of_kind (by decide)
  · exact resolved_ok _
  next f _ hf => exact resolved_error (hlookup f hf)

/-- What the price of a query depends on is there, the exchange rate if the shop is known. -/
structure ConversionFactors.Serves (factors : ConversionFactors) (q : ConversionQuery) : Prop where
  shop : Answered (factors.shops.get? q.shopId)
  commission : Answered (factors.commissions.get? q.shopId)
  rate : ∀ shop, factors.shops.get? q.shopId = some (.ok shop) →
    Answered (factors.exchangeRates.get? (conversionCorridor shop))
  profitRate : Answered (factors.profitRates.get? (profitKey q))
  limit : Answered (factors.limits.get? q.merchantId)
  hiddenFee : Answered (factors.hiddenFees.get? (feeKey q))

theorem conversionFactors_serves (qs : List ConversionQuery) :
    Ensures (s.conversionFactors qs) fun factors => ∀ q ∈ qs, factors.Serves q := by
  refine (answering_fetch_map (answering_shops s) ConversionQuery.shopId qs).bind
    fun shops hshops => ?_
  refine (answering_fetch_map (answering_commissions s) ConversionQuery.shopId qs).bind
    fun commissions hcommissions => ?_
  refine (answering_exchangeRates (corridorsOf shops qs)).bind fun rates hrates => ?_
  refine (answering_fetch_map answering_profitRates profitKey qs).bind
    fun profitRates hprofitRates => ?_
  refine (answering_fetch_map answering_profitRateLimits ConversionQuery.merchantId qs).bind
    fun limits hlimits => ?_
  refine (answering_fetch_map (answering_hiddenFees s) feeKey qs).bind
    fun hiddenFees hhiddenFees => .pure fun q hq => ?_
  exact ⟨hshops q hq, hcommissions q hq, fun shop hshop => hrates _ (mem_corridorsOf hq hshop),
    hprofitRates q hq, hlimits q hq, hhiddenFees q hq⟩

theorem conversionPrice_resolves {factors : ConversionFactors} {q : ConversionQuery}
    (h : factors.Serves q) : Resolves (conversionPrice book factors q) := by
  refine .ofExcept_bind (ownedShop_resolved h.shop) fun shop hshop => ?_
  -- a shop that the merchant owns was found, and so its corridor was asked for
  have hknown : factors.shops.get? q.shopId = some (.ok shop) := by
    obtain ⟨outcome, hget, _⟩ := h.shop
    rw [hget, ← lookup_of_ownedShop hshop, Answers.lookup_of_get? hget]
  refine .ofExcept_bind (h.profitRate.lookup _) fun profitRate _ => ?_
  refine .ofExcept_bind (checkLimit_resolved profitRate h.limit) fun _ _ => ?_
  refine .ofExcept_bind (h.commission.lookup _) fun commission _ => ?_
  refine .liftM_bind fun share _ => ?_
  refine .ofExcept_bind ((h.rate shop hknown).lookup _) fun rate _ => ?_
  refine .ofExcept_bind (h.hiddenFee.lookup _) fun hidden _ => ?_
  exact .liftM_bind fun price _ => resolves_liftM _

theorem articleFees_resolved (qs : List ArticleQuery) :
    Ensures (s.articleFees qs) fun fees =>
      fees.length = qs.length ∧ ∀ fee ∈ fees, IsResolved fee := by
  refine (answering_fetch_map (answering_shops s) ArticleQuery.shopId qs).bind
    fun shops hshops => ?_
  refine (answering_fetch_map (answering_hiddenFees s) articleKey qs).bind fun fees hfees => ?_
  refine .pure ⟨List.length_map _, fun fee hfee => ?_⟩
  obtain ⟨q, hq, rfl⟩ := List.mem_map.mp hfee
  exact (ownedShop_resolved (hshops q hq)).bind fun _ _ => (hfees q hq).lookup _

/-! ## All prices -/

/-- Whatever the services answer, the caches hold and the store has: what is gathered for a
batch holds everything that the price of each query depends on, and no price, no hidden fee of
an article and no answer for hidden fees fails for a key that was not asked for. -/
theorem factors_gathered (e : Env (Backing σ)) :
    (∀ qs, ∃ fees, (s.listingFees book qs e).1 = .ok fees ∧
      ∀ q ∈ qs, fees.Serves book q ∧ Resolves (listingPrice book fees q)) ∧
    (∀ qs, ∀ q ∈ qs, (s.crossBorderFactors book qs e).1.Serves q ∧
      Resolves (crossBorderPrice book (s.crossBorderFactors book qs e).1 q)) ∧
    (∀ qs, ∀ q ∈ qs, (s.conversionFactors qs e).1.Serves q ∧
      Resolves (conversionPrice book (s.conversionFactors qs e).1 q)) ∧
    (∀ qs, (s.articleFees qs e).1.length = qs.length ∧
      ∀ fee ∈ (s.articleFees qs e).1, IsResolved fee) ∧
    (∀ keys, ∀ k ∈ keys, Answered ((s.hiddenFees.fetch keys e).1.get? k)) ∧
    ∀ keys, (s.hiddenFeesVia s.shops s.items keys e).1.length = keys.length ∧
      ∀ fee ∈ (s.hiddenFeesVia s.shops s.items keys e).1, IsResolved fee := by
  refine ⟨fun qs => ?_, fun qs q hq => ?_, fun qs q hq => ?_, fun qs => articleFees_resolved s qs e,
    fun keys => answering_hiddenFees s keys e, fun keys => hiddenFeesVia_resolved s keys e⟩
  · obtain ⟨fees, hfees, hserves⟩ := listingFees_serves s book qs e
    exact ⟨fees, hfees, fun q hq => ⟨hserves q hq, listingPrice_resolves book (hserves q hq)⟩⟩
  · have hserves := crossBorderFactors_serves s book qs e q hq
    exact ⟨hserves, crossBorderPrice_resolves book hserves⟩
  · have hserves := conversionFactors_serves s qs e q hq
    exact ⟨hserves, conversionPrice_resolves book hserves⟩

/-- A call that fails. -/
def rejected (α : Type) : Call Unit α := fun state => (.error .rateLimited, state)

/-- Services of which none answers. -/
def outage : Services Unit :=
  ⟨fun _ => rejected _, fun _ => rejected _, fun _ => rejected _, fun _ => rejected _,
    fun _ => rejected _, fun _ => rejected _, fun _ => rejected _⟩

/-- During an outage the price of a query fails for its shop, whose lookup has failed. -/
theorem factors_gathered_outage :
    let q : ConversionQuery := ⟨1, 5, 50, ⟨10, 1⟩, 100000, .forward⟩
    let e : Env (Backing Unit) := ⟨0, [.inMemory 10 1000 .asWritten], ⟨(), .empty⟩⟩
    let factors := ((⟨outage, 1, 1⟩ : Setup Unit).conversionFactors [q] e).1
    factors.Serves q ∧ Resolves (conversionPrice default factors q) ∧
      (conversionPrice default factors q).run
        = .ok (.error ServiceError.rateLimited.toFailure) := by
  intro q e factors
  obtain ⟨_, _, hconversions, _⟩ := factors_gathered (⟨outage, 1, 1⟩ : Setup Unit) default e
  obtain ⟨hserves, hresolves⟩ := hconversions [q] q (List.mem_singleton_self q)
  exact ⟨hserves, hresolves, by decide +kernel⟩

end RegionPricing.Pricing
