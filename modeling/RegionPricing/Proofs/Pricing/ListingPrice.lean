import RegionPricing.Proofs.Factor.Answers
import RegionPricing.Proofs.FixedPoint
import RegionPricing.Proofs.Formula
import RegionPricing.Pricing.Listings

/-!
# How exact the price of a listing is

The price of a listing is divided by the exchange rate first and multiplied by three
margins afterwards, so the rounding of the quotient is there, enlarged, when the
price is rounded up. `listingPrice_near` bounds it: the price is that of a number
within `listingError` of the exact one. It is the price of the exact number unless a
price lies as near to that as the error, and always if the division ends early
enough. `listingPrice_thirds` shows that the exception is real.
-/

namespace RegionPricing.Pricing

open Decimal Factor Batch Rules

/-- With plain decimal places a price is rounded up and stored, and nothing can fail. -/
theorem charged_eq {book : Book} {region : Region} (price : Decimal)
    (hplain : (book.rounding region).pricePoints = false) :
    charged book region price = .ok (FixedPoint.rawOf 5
      (roundedUp (book.rounding region).places.toNat price.value)) := by
  simp only [charged, PriceRounding.round, hplain, Bool.false_eq_true, if_false, ok_bind]
  rw [FixedPoint.rawOfPrice_eq, PriceRounding.toPlaces, value_roundUp]
  rfl

/-- What the formula needs of the terms and the fees. -/
def factorsOf (terms : Terms) (hidden shipping : Decimal) : Formula.ListingFactors :=
  ⟨terms.effectiveExchangeRate, terms.effectiveMargin, hidden, shipping⟩

/-- The price of a listing before rounding. -/
def exactListingPrice (q : ListingPriceQuery) (terms : Terms) (hidden shipping : Decimal) : ℚ :=
  Formula.exactAffiliatePrice (listingOf q terms hidden shipping) (factorsOf terms hidden shipping)

/-- What remains of the price of the query, in the currency of the affiliate region. -/
def convertedPrice (q : ListingPriceQuery) (terms : Terms) (hidden shipping : Decimal) : ℚ :=
  Formula.exactConverted (listingOf q terms hidden shipping) (factorsOf terms hidden shipping)

/-- The size of the numbers on the way to the price. -/
def priceSize (q : ListingPriceQuery) (terms : Terms) (hidden shipping : Decimal) : ℚ :=
  Formula.listingSize (listingOf q terms hidden shipping) (factorsOf terms hidden shipping)

/-- How far the computed price can be from the exact one. -/
def listingError (q : ListingPriceQuery) (terms : Terms) (hidden shipping : Decimal) : ℚ :=
  priceSize q terms hidden shipping / 10 ^ 27

/-- A query with a weight and a usable exchange rate, with amounts below one million, fees
with five places, and rates and margins with four. -/
structure Ordinary (q : ListingPriceQuery) (terms : Terms) (hidden shipping : Decimal) :
    Prop where
  weight_pos : 0 < q.weight
  price_lt : |FixedPoint.amountOf 5 q.primaryPrice| < 10 ^ 6
  oversea_places : HasPlaces 4 (Formula.effectiveOversea q.overseaRate).value
  rate_pos : 0 < terms.effectiveExchangeRate.value
  rate_places : HasPlaces 4 terms.effectiveExchangeRate.value
  hidden_lt : |hidden.value| < 10 ^ 6
  hidden_places : HasPlaces 5 hidden.value
  shipping_lt : |shipping.value| < 10 ^ 6
  shipping_places : HasPlaces 5 shipping.value
  region_lt : terms.effectiveMargin.value < 10 ^ 6
  region_places : HasPlaces 4 terms.effectiveMargin.value
  shop_lt : (q.shopMargin.getD .zero).value < 10 ^ 6
  shop_places : HasPlaces 4 (q.shopMargin.getD .zero).value
  item_lt : (q.itemMargin.getD .zero).value < 10 ^ 6
  item_places : HasPlaces 4 (q.itemMargin.getD .zero).value

theorem effectiveMargin_pos (terms : Terms) : 0 < terms.effectiveMargin.value := by
  unfold Terms.effectiveMargin
  split
  next m _ =>
    split
    next h => exact (isPositive_iff m).mp h
    next => simp
  next => simp

section

variable {book : Book} {fees : ListingFees} {q : ListingPriceQuery} {terms : Terms}
  {hidden shipping : Decimal}

theorem Ordinary.moderate (h : Ordinary q terms hidden shipping) :
    Formula.Moderate (listingOf q terms hidden shipping) (factorsOf terms hidden shipping) where
  weight_pos := by
    show 0 < (FixedPoint.gramsOfRaw q.weight).value
    rw [FixedPoint.value_gramsOfRaw]
    exact FixedPoint.amountOf_pos h.weight_pos
  price_lt := by
    show |(FixedPoint.priceOfRaw q.primaryPrice).value| < 10 ^ 6
    rw [FixedPoint.value_priceOfRaw]
    exact h.price_lt
  price_places := by
    show HasPlaces 5 (FixedPoint.priceOfRaw q.primaryPrice).value
    rw [FixedPoint.value_priceOfRaw]
    exact FixedPoint.amountOf_hasPlaces 5 _
  oversea_places := h.oversea_places
  rate_pos := h.rate_pos
  rate_places := h.rate_places
  hidden_lt := h.hidden_lt
  hidden_places := h.hidden_places
  shipping_lt := h.shipping_lt
  shipping_places := h.shipping_places
  region_pos := effectiveMargin_pos terms
  region_lt := h.region_lt
  region_places := h.region_places
  shop_lt := h.shop_lt
  shop_places := h.shop_places
  item_lt := h.item_lt
  item_places := h.item_places

/-- The price of a listing is the price of what the formula comes to. -/
theorem listingPrice_eq {r : Decimal} (hweight : 0 < q.weight)
    (hterms : book.terms? q.corridor = some terms)
    (hhidden : fees.hiddenPrices.lookup "hidden price" q.id = .ok hidden)
    (hshipping : fees.shippingFees.lookup "shipping fee" q.id = .ok shipping)
    (hplain : (book.rounding q.corridor.affiliate).pricePoints = false)
    (hr : Formula.affiliatePrice (listingOf q terms hidden shipping) = .ok r) :
    (listingPrice book fees q).run = .ok (.ok (FixedPoint.rawOf 5
      (roundedUp (book.rounding q.corridor.affiliate).places.toNat r.value))) := by
  have hw : ¬q.weight ≤ 0 := Int64.not_le.mpr hweight
  unfold listingPrice
  rw [if_neg hw]
  simp only [hterms, hhidden, hshipping, ofExcept_ok_bind, hr, liftM_ok_bind, charged_eq _ hplain]
  rfl

theorem listingPrice_near (h : Ordinary q terms hidden shipping)
    (hterms : book.terms? q.corridor = some terms)
    (hhidden : fees.hiddenPrices.lookup "hidden price" q.id = .ok hidden)
    (hshipping : fees.shippingFees.lookup "shipping fee" q.id = .ok shipping)
    (hplain : (book.rounding q.corridor.affiliate).pricePoints = false)
    {k : ℕ} (hk : (book.rounding q.corridor.affiliate).places.toNat = k) :
    ∃ y, (listingPrice book fees q).run = .ok (.ok (FixedPoint.rawOf 5 (roundedUp k y))) ∧
      |y - exactListingPrice q terms hidden shipping| ≤ listingError q terms hidden shipping ∧
      ((∀ n : ℤ, listingError q terms hidden shipping
          < |(n : ℚ) / 10 ^ k - exactListingPrice q terms hidden shipping|) →
        roundedUp k y = roundedUp k (exactListingPrice q terms hidden shipping)) ∧
      (listingError q terms hidden shipping * 10 ^ k < 1 →
        |roundedUp k y - roundedUp k (exactListingPrice q terms hidden shipping)| ≤ 1 / 10 ^ k) ∧
      (∀ j, 5 ≤ j → HasPlaces j (convertedPrice q terms hidden shipping) →
        priceSize q terms hidden shipping * 10 ^ (j + 12) ≤ 79 * 10 ^ 27 →
        y = exactListingPrice q terms hidden shipping) := by
  subst hk
  have hm := h.moderate
  obtain ⟨r, hr, hnear⟩ := Formula.exists_affiliatePrice hm rfl
  have herror : |r.value - exactListingPrice q terms hidden shipping|
      ≤ listingError q terms hidden shipping := by
    have := hnear.error_le
    unfold epsilon at this
    unfold exactListingPrice listingError priceSize
    linarith
  refine ⟨r.value, listingPrice_eq h.weight_pos hterms hhidden hshipping hplain hr, herror, ?_, ?_,
    ?_⟩
  · intro hfar
    refine roundedUp_eq_of_near (fun n hn => ?_) fun n _ => lt_of_le_of_lt herror (hfar n)
    have := hfar n
    rw [hn, sub_self, abs_zero] at this
    exact absurd ((abs_nonneg _).trans herror) (not_le.mpr this)
  · intro hunit
    have hpow : (0 : ℚ) ≤ 10 ^ (book.rounding q.corridor.affiliate).places.toNat := by positivity
    exact abs_roundedUp_sub_le (lt_of_le_of_lt (mul_le_mul_of_nonneg_right herror hpow) hunit)
  · intro j hj hplaces hdigits
    obtain ⟨r', hr', hv⟩ := Formula.value_affiliatePrice hm rfl hj hplaces hdigits
    rw [hr] at hr'
    rw [Except.ok.inj hr']
    exact hv

end

/-! Two thirds times three: `2 / 3 * 3` is above 2 once two thirds have been rounded. -/

/-- From Singapore to Malaysia. -/
def thirdsCorridor : Corridor := ⟨.ofText "SG", .ofText "MY"⟩

/-- Three to one, and three times the price. -/
def thirdsTerms : Terms :=
  ⟨thirdsCorridor, some (.ofInt64 3), some (.ofInt64 3), some .zero, .brackets, .brackets, none⟩

def thirdsBook : Book := ⟨.ofList ([thirdsCorridor].map fun c => (c, thirdsTerms)), .empty, default⟩

def thirdsFees : ListingFees := ⟨.ofKeys [1] fun _ => .ok .zero, .ofKeys [1] fun _ => .ok .zero⟩

/-- A price of 2. -/
def thirdsQuery : ListingPriceQuery :=
  ⟨1, 1, 10, thirdsCorridor, 200000, 100000, none, none, none⟩

theorem thirds_terms : thirdsBook.terms? thirdsQuery.corridor = some thirdsTerms :=
  KeyMap.get?_ofList_map [thirdsCorridor] (fun _ => thirdsTerms) thirdsCorridor

theorem thirds_rate : thirdsTerms.effectiveExchangeRate.value = 3 := by
  have h : thirdsTerms.effectiveExchangeRate = .ofInt64 3 := by decide
  rw [h, value_ofInt64]
  rfl

theorem thirds_margin : thirdsTerms.effectiveMargin.value = 3 := by
  have h : thirdsTerms.effectiveMargin = .ofInt64 3 := by decide
  rw [h, value_ofInt64]
  rfl

theorem thirds_price : FixedPoint.amountOf 5 thirdsQuery.primaryPrice = 2 := by
  rw [FixedPoint.amountOf_eq (n := 200000) rfl (by decide)]
  norm_num

theorem thirds_ordinary : Ordinary thirdsQuery thirdsTerms .zero .zero where
  weight_pos := by decide
  price_lt := by
    rw [thirds_price]
    norm_num
  oversea_places := by simp [thirdsQuery, Formula.effectiveOversea, HasPlaces.zero]
  rate_pos := by
    rw [thirds_rate]
    norm_num
  rate_places := thirds_rate ▸ HasPlaces.intCast 3
  hidden_lt := by simp
  hidden_places := by simp [HasPlaces.zero]
  shipping_lt := by simp
  shipping_places := by simp [HasPlaces.zero]
  region_lt := by
    rw [thirds_margin]
    norm_num
  region_places := thirds_margin ▸ HasPlaces.intCast 3
  shop_lt := by simp [thirdsQuery]
  shop_places := by simp [thirdsQuery, HasPlaces.zero]
  item_lt := by simp [thirdsQuery]
  item_places := by simp [thirdsQuery, HasPlaces.zero]

theorem convertedPrice_thirds : convertedPrice thirdsQuery thirdsTerms .zero .zero = 2 / 3 := by
  have hprice : (listingOf thirdsQuery thirdsTerms .zero .zero).primaryPrice.value = 2 := by
    rw [← thirds_price]
    exact FixedPoint.value_priceOfRaw _
  have hrate : (factorsOf thirdsTerms .zero .zero).exchangeRate.value = 3 := thirds_rate
  have hoversea : (Formula.effectiveOversea
      (listingOf thirdsQuery thirdsTerms .zero .zero).overseaRate).value = 0 := by
    simp [listingOf, thirdsQuery, Formula.effectiveOversea]
  rw [convertedPrice, Formula.exactConverted, hprice, hrate, hoversea]
  norm_num

theorem exactListingPrice_thirds : exactListingPrice thirdsQuery thirdsTerms .zero .zero = 2 := by
  have hq := convertedPrice_thirds
  have hmargin : (factorsOf thirdsTerms .zero .zero).regionMargin.value = 3 := thirds_margin
  unfold convertedPrice at hq
  rw [exactListingPrice, Formula.exactAffiliatePrice, hq, hmargin]
  norm_num [listingOf, factorsOf, thirdsQuery, Formula.value_positiveOrOne]

/-- The exact price is 2.00, the charged one 2.01. -/
theorem listingPrice_thirds :
    Ordinary thirdsQuery thirdsTerms .zero .zero ∧
      thirdsBook.terms? thirdsQuery.corridor = some thirdsTerms ∧
      thirdsFees.hiddenPrices.lookup "hidden price" thirdsQuery.id = .ok .zero ∧
      thirdsFees.shippingFees.lookup "shipping fee" thirdsQuery.id = .ok .zero ∧
      thirdsBook.rounding thirdsQuery.corridor.affiliate = .standard ∧
      (listingPrice thirdsBook thirdsFees thirdsQuery).run = .ok (.ok 201000) ∧
      FixedPoint.rawOf 5 (roundedUp 2 (exactListingPrice thirdsQuery thirdsTerms .zero .zero))
        = 200000 := by
  refine ⟨thirds_ordinary, thirds_terms, Answers.lookup_ofKeys (by simp [thirdsQuery]),
    Answers.lookup_ofKeys (by simp [thirdsQuery]), rfl, by decide +kernel, ?_⟩
  rw [exactListingPrice_thirds]
  decide +kernel

theorem listingPrice_near_thirds :
    ∃ y, (listingPrice thirdsBook thirdsFees thirdsQuery).run
        = .ok (.ok (FixedPoint.rawOf 5 (roundedUp 2 y))) ∧ |y - 2| ≤ 1 / 10 ^ 25 := by
  have hfee : Answers.lookup "hidden price" thirdsFees.hiddenPrices thirdsQuery.id = .ok .zero :=
    Answers.lookup_ofKeys (by simp [thirdsQuery])
  obtain ⟨y, hy, herror, _⟩ := listingPrice_near thirds_ordinary thirds_terms hfee
    (Answers.lookup_ofKeys (by simp [thirdsQuery])) rfl (k := 2) rfl
  refine ⟨y, hy, ?_⟩
  rw [exactListingPrice_thirds] at herror
  refine herror.trans ?_
  have hq := convertedPrice_thirds
  have hmargin : (factorsOf thirdsTerms .zero .zero).regionMargin.value = 3 := thirds_margin
  unfold convertedPrice at hq
  rw [listingError, priceSize, Formula.listingSize, hq, hmargin]
  norm_num [listingOf, factorsOf, thirdsQuery, Formula.value_positiveOrOne, abs_of_pos]

end RegionPricing.Pricing
