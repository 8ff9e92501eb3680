import RegionPricing.Proofs.Formula.Order
import RegionPricing.Proofs.PriceRounding
import RegionPricing.Proofs.Pricing.ConversionPrice
import RegionPricing.Pricing.CrossBorder

/-!
# Prices keep the order of source prices

Two queries that differ in their source price alone are priced in the order of these prices:
local listings, cross-border listings, and conversions in both directions, whatever the
currency and whether the result can be stored or not (`prices_inOrder`). The one exception is a
merchant's price whose quotient no decimal can hold: the greater price of the shop then leads to
zero (`merchantPrice_drops`). It takes a share far above the whole sale
(`not_quotientOverflows`).
-/

namespace RegionPricing.Pricing

open Decimal Factor Market Batch Rules

/-! ## Rounded and stored -/

/-- Rounding to the currency and storing keep prices in order, through all that is too large
to be stored. -/
theorem charged_mono {book : Book} {region : Region} {a b : Decimal} {n n' : Int64}
    (h : Formula.Sorted a b) (ha : charged book region a = .ok n)
    (hb : charged book region b = .ok n') : n ≤ n' := by
  obtain ⟨x, hx, ha⟩ := exists_of_bind_eq_ok ha
  obtain ⟨y, hy, hb⟩ := exists_of_bind_eq_ok hb
  cases ha
  cases hb
  rw [FixedPoint.rawOfPrice_eq, FixedPoint.rawOfPrice_eq]
  by_cases hhuge : Formula.hugePrice.value ≤ b.value
  · -- the greater price is stored as the greatest number
    rw [Formula.value_hugePrice] at hhuge
    have hb0 : 0 ≤ b.value := le_trans (by norm_num) hhuge
    have hfloor : (10 ^ 14 : ℤ) ≤ ⌊b.value⌋ := Int.le_floor.mpr (by exact_mod_cast hhuge)
    have hfloor' : (10 ^ 14 : ℚ) ≤ ⌊b.value⌋ := by exact_mod_cast hfloor
    have hgreatest : FixedPoint.greatestAmount 5 ≤ 10 ^ 14 := by
      norm_num [FixedPoint.greatestAmount]
    rw [FixedPoint.rawOf_eq_maxValue
      (hgreatest.trans (hfloor'.trans (PriceRounding.floor_le_of_round hb0 hy)))]
    exact Int64.le_maxValue _
  · have hle := h.le_or_huge.resolve_right hhuge
    rw [Formula.value_hugePrice] at hhuge
    have hx0 : 0 ≤ x.value := by
      have hfloor : (0 : ℚ) ≤ ⌊a.value⌋ := by exact_mod_cast Int.floor_nonneg.mpr h.nonneg
      exact hfloor.trans (PriceRounding.floor_le_of_round h.nonneg hx)
    have hxy := PriceRounding.round_mono h.nonneg hle (by linarith) hx hy
    exact FixedPoint.rawOf_mono (by linarith) (by linarith) hxy

theorem charged_zero (book : Book) (region : Region) : charged book region .zero = .ok 0 := by
  have hround : ∃ x, (book.rounding region).round .zero = .ok x ∧ x.value = 0 := by
    unfold PriceRounding.round
    split
    next => exact ⟨.zero, PriceRounding.toPricePoint_of_not_pos (by simp), value_zero⟩
    next =>
      refine ⟨_, rfl, ?_⟩
      rw [PriceRounding.toPlaces, value_roundUp, value_zero]
      exact roundedUp_eq_self HasPlaces.zero
  obtain ⟨x, hx, hv⟩ := hround
  have hraw : FixedPoint.rawOfPrice x = 0 := by
    rw [FixedPoint.rawOfPrice_eq, hv]
    decide +kernel
  rw [charged, hx, ok_bind, hraw]
  rfl

section

variable {book : Book} {p p' n n' : Int64}

theorem priceOfRaw_from (h0 : 0 < p) (hp : p ≤ p') :
    Formula.From .zero (FixedPoint.priceOfRaw p) (FixedPoint.priceOfRaw p') where
  low_le := by
    rw [value_zero, FixedPoint.value_priceOfRaw]
    exact (FixedPoint.amountOf_pos h0).le
  le := by
    rw [FixedPoint.value_priceOfRaw, FixedPoint.value_priceOfRaw]
    exact FixedPoint.amountOf_mono h0 hp

/-! ## Local listings -/

/-- A usable rate, and fees that are not negative together. -/
structure ListingNonneg (book : Book) (fees : ListingFees) (q : ListingPriceQuery) : Prop where
  rate_pos : ∀ terms, book.terms? q.corridor = some terms → 0 < terms.effectiveExchangeRate.value
  fees_nonneg : ∀ hidden shipping, fees.hiddenPrices.lookup "hidden price" q.id = .ok hidden →
    fees.shippingFees.lookup "shipping fee" q.id = .ok shipping → 0 ≤ hidden.value + shipping.value

theorem listingPrice_mono {fees : ListingFees} {q : ListingPriceQuery}
    (hq : ListingNonneg book fees q) (h0 : 0 < p) (hp : p ≤ p')
    (h : (listingPrice book fees { q with primaryPrice := p }).run = .ok (.ok n))
    (h' : (listingPrice book fees { q with primaryPrice := p' }).run = .ok (.ok n')) : n ≤ n' := by
  unfold listingPrice at h h'
  split at h
  next hweight =>
    -- without a weight the price is zero
    rw [if_pos hweight] at h'
    cases h
    cases h'
    exact Int64.le_refl 0
  next hweight =>
    rw [if_neg hweight] at h'
    cases hterms : book.terms? q.corridor with
    | none =>
      -- without terms the price is left as it is
      simp only [hterms] at h h'
      cases h
      cases h'
      exact hp
    | some terms =>
      simp only [hterms] at h h'
      obtain ⟨hidden, hhidden, h⟩ := exists_of_ofExcept_bind h
      obtain ⟨shipping, hshipping, h⟩ := exists_of_ofExcept_bind h
      obtain ⟨r, hr, h⟩ := exists_of_liftM_bind h
      rw [hhidden, ofExcept_ok_bind, hshipping, ofExcept_ok_bind] at h'
      obtain ⟨r', hr', h'⟩ := exists_of_liftM_bind h'
      have hgrams : 0 < (FixedPoint.gramsOfRaw q.weight).value := by
        rw [FixedPoint.value_gramsOfRaw]
        exact FixedPoint.amountOf_pos (Int64.not_le.mp hweight)
      have hfrom := Formula.affiliatePrice_from (l := listingOf q terms hidden shipping)
        (priceOfRaw_from h0 hp) rfl hgrams (hq.rate_pos terms hterms) (effectiveMargin_pos terms).le
        (hq.fees_nonneg hidden shipping hhidden hshipping) r r' hr hr'
      exact charged_mono hfrom.sorted (eq_ok_of_liftM h) (eq_ok_of_liftM h')

/-! ## Cross-border listings -/

/-- Rates, ratios and fees that are not negative. -/
structure CrossBorderNonneg (factors : CrossBorderFactors) (q : CrossBorderQuery) : Prop where
  rate_nonneg : ∀ rate, factors.exchangeRates.lookup "exchange rate" q.corridor = .ok rate →
    0 ≤ rate.value
  hidden_nonneg : ∀ hidden, factors.hiddenPrices.lookup "hidden price" q.id = .ok hidden →
    0 ≤ hidden.value
  priceRatio_nonneg : 0 ≤ q.priceRatio.value
  ratio_nonneg : 0 ≤ q.ratio.value
  finalFee_nonneg : 0 ≤ q.finalFee.value

theorem crossBorderPrice_mono {factors : CrossBorderFactors} {q : CrossBorderQuery}
    (hq : CrossBorderNonneg factors q) (h0 : 0 < p) (hp : p ≤ p')
    (h : (crossBorderPrice book factors { q with primaryPrice := p }).run = .ok (.ok n))
    (h' : (crossBorderPrice book factors { q with primaryPrice := p' }).run = .ok (.ok n')) :
    n ≤ n' := by
  unfold crossBorderPrice at h h'
  obtain ⟨rate, hrate, h⟩ := exists_of_ofExcept_bind h
  obtain ⟨hidden, hhidden, h⟩ := exists_of_ofExcept_bind h
  obtain ⟨r, hr, h⟩ := exists_of_liftM_bind h
  rw [hrate, ofExcept_ok_bind, hhidden, ofExcept_ok_bind] at h'
  obtain ⟨r', hr', h'⟩ := exists_of_liftM_bind h'
  have hfrom := Formula.crossBorderPrice_from (l := crossBorderListing q rate hidden)
    (priceOfRaw_from h0 hp) hq.priceRatio_nonneg (hq.rate_nonneg rate hrate)
    (hq.hidden_nonneg hidden hhidden) hq.ratio_nonneg hq.finalFee_nonneg r r' hr hr'
  exact charged_mono hfrom.sorted (eq_ok_of_liftM h) (eq_ok_of_liftM h')

/-! ## Conversions -/

section

variable {factors : ConversionFactors} {q : ConversionQuery}

/-- A rate, a profit rate and a hidden fee that are not negative. -/
structure ConversionNonneg (factors : ConversionFactors) (q : ConversionQuery) : Prop where
  rate_nonneg : ∀ shop rate, ownedShop factors.shops q.merchantId q.shopId = .ok shop →
    factors.exchangeRates.lookup "exchange rate" (conversionCorridor shop) = .ok rate →
    0 ≤ rate.value
  profit_nonneg : ∀ profit, factors.profitRates.lookup "profit rate" (profitKey q) = .ok profit →
    0 ≤ profit
  hidden_nonneg : ∀ hidden, factors.hiddenFees.lookup "hidden fee" (feeKey q) = .ok hidden →
    0 ≤ hidden.value

/-- A price that comes out has been computed from factors that were all found. -/
theorem exists_resolved (h : (conversionPrice book factors q).run = .ok (.ok n)) :
    ∃ shop profit commission rate hidden share,
      Resolved factors q shop profit commission rate hidden ∧ shareOf commission = .ok share := by
  unfold conversionPrice at h
  obtain ⟨shop, hshop, h⟩ := exists_of_ofExcept_bind h
  obtain ⟨profit, hprofit, h⟩ := exists_of_ofExcept_bind h
  obtain ⟨_, hlimit, h⟩ := exists_of_ofExcept_bind h
  obtain ⟨commission, hcommission, h⟩ := exists_of_ofExcept_bind h
  obtain ⟨share, hshare, h⟩ := exists_of_liftM_bind h
  obtain ⟨rate, hrate, h⟩ := exists_of_ofExcept_bind h
  obtain ⟨hidden, hhidden, _⟩ := exists_of_ofExcept_bind h
  exact ⟨shop, profit, commission, rate, hidden, share,
    ⟨hshop, hprofit, hlimit, hcommission, hrate, hhidden⟩, hshare⟩

theorem exists_of_conversionPrice {shop : Shop} {profit : Int64} {commission : Commission}
    {rate hidden share : Decimal} (hfound : Resolved factors q shop profit commission rate hidden)
    (hshare : shareOf commission = .ok share)
    (h : (conversionPrice book factors q).run = .ok (.ok n)) :
    ∃ r, converted q.direction (FixedPoint.priceOfRaw q.price) rate (profitRatio profit) hidden
        share = .ok r ∧ charged book (conversionRegion q.direction shop) r = .ok n := by
  simp only [conversionPrice, hfound.shop_eq, hfound.profit_eq, hfound.limit_eq,
    hfound.commission_eq, hfound.rate_eq, hfound.hidden_eq, hshare, ofExcept_ok_bind,
    liftM_ok_bind] at h
  obtain ⟨r, hr, h⟩ := exists_of_liftM_bind h
  exact ⟨r, hr, eq_ok_of_liftM h⟩

/-- The factors do not depend on the price. -/
theorem Resolved.withPrice {shop : Shop} {profit : Int64} {commission : Commission}
    {rate hidden : Decimal} (h : Resolved factors { q with price := p } shop profit commission rate
      hidden) (p' : Int64) :
    Resolved factors { q with price := p' } shop profit commission rate hidden :=
  ⟨h.shop_eq, h.profit_eq, h.limit_eq, h.commission_eq, h.rate_eq, h.hidden_eq⟩

/-- Whether no decimal can hold the quotient that the merchant's price of a query is. -/
def QuotientOverflows (factors : ConversionFactors) (q : ConversionQuery) : Prop :=
  ∃ shop profit commission rate hidden share,
    Resolved factors q shop profit commission rate hidden ∧ shareOf commission = .ok share ∧
    Formula.Overflows (FixedPoint.priceOfRaw q.price) rate (profitRatio profit) hidden share

theorem le_shareOf {c : Commission} {share : Decimal} (h : shareOf c = .ok share) :
    1 / 10 ^ 4 ≤ share.value := by
  obtain ⟨d, hd, hv⟩ := exists_shareOf c
  obtain rfl := Except.ok.inj (hd.symm.trans h)
  have := (exactShareOf_hasPlaces c).one_le_mul_pow (Formula.exactShare_pos _ _ _)
  rw [hv]
  exact (div_le_iff₀ (by norm_num)).mpr this

theorem profitRatio_nonneg {profit : Int64} (h : 0 ≤ profit) : 0 ≤ (profitRatio profit).value := by
  rw [value_profitRatio]
  by_cases h0 : profit = 0
  · rw [h0, FixedPoint.amountOf_eq (n := 0) rfl (by decide)]
    norm_num
  · exact (FixedPoint.amountOf_pos (Int64.lt_of_le_of_ne h (Ne.symm h0))).le

theorem conversionPrice_order (hq : ConversionNonneg factors q) (h0 : 0 < p) (hp : p ≤ p')
    (h : (conversionPrice book factors { q with price := p }).run = .ok (.ok n))
    (h' : (conversionPrice book factors { q with price := p' }).run = .ok (.ok n')) :
    n ≤ n' ∨
      q.direction = .reverse ∧ n' = 0 ∧ QuotientOverflows factors { q with price := p' } := by
  obtain ⟨shop, profit, commission, rate, hidden, share, hfound, hshare⟩ := exists_resolved h
  obtain ⟨r, hr, hn⟩ := exists_of_conversionPrice hfound hshare h
  have hfound' := hfound.withPrice p'
  obtain ⟨r', hr', hn'⟩ := exists_of_conversionPrice hfound' hshare h'
  have hrate := hq.rate_nonneg shop rate hfound.shop_eq hfound.rate_eq
  have hprofit := profitRatio_nonneg (hq.profit_nonneg profit hfound.profit_eq)
  have hhidden := hq.hidden_nonneg hidden hfound.hidden_eq
  have hunit := le_shareOf hshare
  have hfrom := priceOfRaw_from h0 hp
  have hdirection : q.direction = .forward ∨ q.direction = .reverse := by
    cases q.direction <;> simp
  rcases hdirection with hd | hd
  · simp only [hd, converted] at hr hr' hn hn'
    exact .inl (charged_mono
      (Formula.shopPrice_sorted hfrom hrate hprofit hhidden hunit r r' hr hr') hn hn')
  · simp only [hd, converted] at hr hr' hn hn'
    rcases Formula.merchantPrice_order hfrom hrate hprofit (by linarith) r r' hr hr' with
      hle | ⟨rfl, hlarge⟩
    · exact .inl (charged_mono ⟨Formula.merchantPrice_nonneg hrate hprofit hr, .inl hle⟩ hn hn')
    · rw [charged_zero, Except.ok.injEq] at hn'
      exact .inr ⟨hd, hn'.symm,
        shop, profit, commission, rate, hidden, share, hfound', hshare, hlarge⟩

/-- With stored rates that are positive, and fees of a sale that do not add to its price, the
quotient never is too large. -/
theorem not_quotientOverflows {shop : Shop} {profit : Int64} {commission : Commission}
    {rate hidden : Decimal} (hfound : Resolved factors q shop profit commission rate hidden)
    (hprice : 0 < q.price) (hrate : 1 / 10 ^ 5 ≤ rate.value) (hprofit : 0 < profit)
    (hhidden : 0 ≤ hidden.value) (hshare : exactShareOf commission ≤ 1) :
    ¬QuotientOverflows factors q := by
  rintro ⟨shop', profit', commission', rate', hidden', share', hfound', hshare', hlarge⟩
  obtain rfl := Except.ok.inj (hfound.shop_eq.symm.trans hfound'.shop_eq)
  obtain rfl := Except.ok.inj (hfound.profit_eq.symm.trans hfound'.profit_eq)
  obtain rfl := Except.ok.inj (hfound.commission_eq.symm.trans hfound'.commission_eq)
  obtain rfl := Except.ok.inj (hfound.rate_eq.symm.trans hfound'.rate_eq)
  obtain rfl := Except.ok.inj (hfound.hidden_eq.symm.trans hfound'.hidden_eq)
  obtain ⟨d, hd, hv⟩ := exists_shareOf commission
  obtain rfl := Except.ok.inj (hd.symm.trans hshare')
  have hamount : FixedPoint.amountOf 5 q.price ≤ 10 ^ 14 := by
    refine (FixedPoint.amountOf_le q.price).trans ?_
    norm_num [FixedPoint.greatestAmount]
  have hunit : 1 / 10 ^ 4 ≤ (profitRatio profit).value := by
    rw [value_profitRatio, div_le_iff₀ (by norm_num)]
    exact (FixedPoint.amountOf_hasPlaces 4 profit).one_le_mul_pow (FixedPoint.amountOf_pos hprofit)
  rw [← FixedPoint.value_priceOfRaw, ← Formula.value_hugePrice] at hamount
  refine Formula.not_overflows ?_ hamount hrate hunit hhidden (hv ▸ hshare) hlarge
  rw [FixedPoint.value_priceOfRaw]
  exact (FixedPoint.amountOf_pos hprice).le

end

/-! ## All programs -/

/-- The prices of two queries that differ in their source price alone are in the order of
these, except where the merchant's price for the greater one has become zero because no decimal
can hold it. -/
theorem prices_inOrder (h0 : 0 < p) (hp : p ≤ p') :
    (∀ fees q, ListingNonneg book fees q →
      (listingPrice book fees { q with primaryPrice := p }).run = .ok (.ok n) →
      (listingPrice book fees { q with primaryPrice := p' }).run = .ok (.ok n') → n ≤ n') ∧
    (∀ factors q, CrossBorderNonneg factors q →
      (crossBorderPrice book factors { q with primaryPrice := p }).run = .ok (.ok n) →
      (crossBorderPrice book factors { q with primaryPrice := p' }).run = .ok (.ok n') → n ≤ n') ∧
    (∀ factors q, ConversionNonneg factors q → q.direction = .forward →
      (conversionPrice book factors { q with price := p }).run = .ok (.ok n) →
      (conversionPrice book factors { q with price := p' }).run = .ok (.ok n') → n ≤ n') ∧
    (∀ factors q, ConversionNonneg factors q → q.direction = .reverse →
      (conversionPrice book factors { q with price := p }).run = .ok (.ok n) →
      (conversionPrice book factors { q with price := p' }).run = .ok (.ok n') →
      n ≤ n' ∨ n' = 0 ∧ QuotientOverflows factors { q with price := p' }) := by
  refine ⟨fun fees q hq h h' => listingPrice_mono hq h0 hp h h',
    fun factors q hq h h' => crossBorderPrice_mono hq h0 hp h h', fun factors q hq hd h h' => ?_,
    fun factors q hq _ h h' => ?_⟩
  · rcases conversionPrice_order hq h0 hp h h' with hle | ⟨hreverse, _⟩
    · exact hle
    · rw [hd] at hreverse
      cases hreverse
  · exact (conversionPrice_order hq h0 hp h h').imp_right And.right

end

/-! Prices of 2 and 3, or 85 and 100, in all programs. -/

/-- Three to one, without a hidden price. -/
def thirdsRates : CrossBorderFactors :=
  ⟨.ofKeys [thirdsCorridor] fun _ => .ok (.ofInt64 3), .ofKeys [1] fun _ => .ok .zero⟩

def thirdsParcel : CrossBorderQuery :=
  ⟨1, 1, 10, thirdsCorridor, 200000, 100000, .one, .one, .zero, .zero, .zero, .one⟩

/-- The factors of the shop in Malaysia, with a hidden fee in both directions. -/
def bothWays : ConversionFactors :=
  { malaysianFactors with
    hiddenFees := .ofKeys [⟨50, 10, .forward⟩, ⟨50, 10, .reverse⟩] fun _ => .ok malaysianFee }

/-- From the price of the merchant to the price of the shop. -/
def forwardQuery : ConversionQuery := { malaysianQuery with direction := .forward }

theorem thirds_nonneg : ListingNonneg thirdsBook thirdsFees thirdsQuery where
  rate_pos := by
    intro terms h
    rw [thirds_terms, Option.some.injEq] at h
    rw [← h, thirds_rate]
    norm_num
  fees_nonneg := by
    intro hidden shipping hhidden hshipping
    rw [Answers.eq_of_lookup_ofKeys hhidden, Answers.eq_of_lookup_ofKeys hshipping]
    simp

theorem thirdsParcel_nonneg : CrossBorderNonneg thirdsRates thirdsParcel where
  rate_nonneg := by
    intro rate h
    rw [Answers.eq_of_lookup_ofKeys h, value_ofInt64]
    decide +kernel
  hidden_nonneg := by
    intro hidden h
    rw [Answers.eq_of_lookup_ofKeys h, value_zero]
  priceRatio_nonneg := by simp [thirdsParcel]
  ratio_nonneg := by simp [thirdsParcel]
  finalFee_nonneg := by simp [thirdsParcel]

theorem rateOfRaw_nonneg {raw : Int64} (h : 0 < raw) : 0 ≤ (FixedPoint.rateOfRaw raw).value := by
  rw [FixedPoint.rateOfRaw, FixedPoint.value_deflate (k := 5) (by decide) (by omega)]
  exact (FixedPoint.amountOf_pos h).le

theorem bothWays_nonneg (direction : Direction) :
    ConversionNonneg bothWays { malaysianQuery with direction } where
  rate_nonneg := by
    intro shop rate _ h
    rw [Answers.eq_of_lookup_ofKeys h]
    exact rateOfRaw_nonneg (by decide)
  profit_nonneg := by
    intro profit h
    rw [Answers.eq_of_lookup_ofKeys h]
    decide
  hidden_nonneg := by
    intro hidden h
    rw [Answers.eq_of_lookup_ofKeys h, malaysianFee, FixedPoint.value_priceOfRaw]
    exact (FixedPoint.amountOf_pos (by decide)).le

theorem prices_inOrder_instances :
    ((listingPrice thirdsBook thirdsFees { thirdsQuery with primaryPrice := 200000 }).run
        = .ok (.ok 201000) ∧
      (listingPrice thirdsBook thirdsFees { thirdsQuery with primaryPrice := 300000 }).run
        = .ok (.ok 300000) ∧ (201000 : Int64) ≤ 300000) ∧
    ((crossBorderPrice .empty thirdsRates { thirdsParcel with primaryPrice := 200000 }).run
        = .ok (.ok 600000) ∧
      (crossBorderPrice .empty thirdsRates { thirdsParcel with primaryPrice := 300000 }).run
        = .ok (.ok 900000) ∧ (600000 : Int64) ≤ 900000) ∧
    ((conversionPrice .empty bothWays { forwardQuery with price := 8500000 }).run
        = .ok (.ok 7900000) ∧
      (conversionPrice .empty bothWays { forwardQuery with price := 10000000 }).run
        = .ok (.ok 9250000) ∧ (7900000 : Int64) ≤ 9250000) ∧
    (conversionPrice .empty bothWays { malaysianQuery with price := 8500000 }).run
        = .ok (.ok 9167000) ∧
      (conversionPrice .empty bothWays { malaysianQuery with price := 10000000 }).run
        = .ok (.ok 10834000) ∧ (9167000 : Int64) ≤ 10834000 := by
  have listing : (listingPrice thirdsBook thirdsFees
      { thirdsQuery with primaryPrice := 200000 }).run = .ok (.ok 201000) := by decide +kernel
  have listing' : (listingPrice thirdsBook thirdsFees
      { thirdsQuery with primaryPrice := 300000 }).run = .ok (.ok 300000) := by decide +kernel
  have parcel : (crossBorderPrice .empty thirdsRates
      { thirdsParcel with primaryPrice := 200000 }).run = .ok (.ok 600000) := by decide +kernel
  have parcel' : (crossBorderPrice .empty thirdsRates
      { thirdsParcel with primaryPrice := 300000 }).run = .ok (.ok 900000) := by decide +kernel
  have there : (conversionPrice .empty bothWays { forwardQuery with price := 8500000 }).run
      = .ok (.ok 7900000) := by decide +kernel
  have there' : (conversionPrice .empty bothWays { forwardQuery with price := 10000000 }).run
      = .ok (.ok 9250000) := by decide +kernel
  have back : (conversionPrice .empty bothWays { malaysianQuery with price := 8500000 }).run
      = .ok (.ok 9167000) := by decide +kernel
  have back' : (conversionPrice .empty bothWays { malaysianQuery with price := 10000000 }).run
      = .ok (.ok 10834000) := by decide +kernel
  have hback := (prices_inOrder (by decide) (by decide)).2.2.2 bothWays malaysianQuery
    (bothWays_nonneg .reverse) rfl back back'
  refine ⟨⟨listing, listing', ?_⟩, ⟨parcel, parcel', ?_⟩, ⟨there, there', ?_⟩, back, back', ?_⟩
  · exact (prices_inOrder (by decide) (by decide)).1 thirdsFees thirdsQuery thirds_nonneg listing
      listing'
  · exact (prices_inOrder (by decide) (by decide)).2.1 thirdsRates thirdsParcel thirdsParcel_nonneg
      parcel parcel'
  · exact (prices_inOrder (by decide) (by decide)).2.2.1 bothWays forwardQuery
      (bothWays_nonneg .forward) rfl there there'
  · exact hback.resolve_right fun h => absurd h.1 (by decide)

/-! A platform that pays for a sale. -/

/-- The least rates that are stored, and a share of 100 000 000 001 times the price. -/
def subsidised : ConversionFactors :=
  { malaysianFactors with
    commissions := .ofKeys [50] fun _ => .ok ⟨-1000000000000000, 0, 0⟩
    exchangeRates := .ofKeys [conversionCorridor malaysianShop] fun _ =>
      .ok (FixedPoint.rateOfRaw 1)
    profitRates := .ofKeys [⟨5, 50⟩] fun _ => .ok 1
    hiddenFees := .ofKeys [⟨50, 10, .reverse⟩] fun _ => .ok .zero }

/-- The shop's price of 1.00 leads to the greatest price that is stored, its price of
1 000 000 000.00 to zero. -/
theorem merchantPrice_drops :
    ConversionNonneg subsidised malaysianQuery ∧ malaysianQuery.direction = .reverse ∧
      (0 : Int64) < 100000 ∧ (100000 : Int64) ≤ 100000000000000 ∧
      (conversionPrice .empty subsidised { malaysianQuery with price := 100000 }).run
        = .ok (.ok 9223372036854775807) ∧
      (conversionPrice .empty subsidised { malaysianQuery with price := 100000000000000 }).run
        = .ok (.ok 0) ∧
      ¬(9223372036854775807 : Int64) ≤ 0 := by
  refine ⟨⟨?_, ?_, ?_⟩, rfl, by decide, by decide, by decide +kernel, by decide +kernel, by decide⟩
  · intro shop rate _ h
    rw [Answers.eq_of_lookup_ofKeys h]
    exact rateOfRaw_nonneg (by decide)
  · intro profit h
    rw [Answers.eq_of_lookup_ofKeys h]
    decide
  · intro hidden h
    rw [Answers.eq_of_lookup_ofKeys h, value_zero]

end RegionPricing.Pricing
