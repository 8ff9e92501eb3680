import RegionPricing.Proofs.Decimal.Error
import RegionPricing.Proofs.Decimal.Places
import RegionPricing.Proofs.Evaluation
import RegionPricing.Formula

/-!
# How exact the price formulas are

A formula multiplies and adds before it divides, or the other way round, and that
decides what its result is worth.

* The price of a local listing (`affiliatePrice`) divides first. A quotient that does not
  end is rounded, and the fees and margins after it carry the error on: the price is
  wrong by less than ten roundings (`exists_affiliatePrice`), and exact when the quotient
  ends early enough (`value_affiliatePrice`).
* A merchant's price and a shop's price (`shopPrice`, `merchantPrice`) divide last.
  Everything before the division is exact, and the rounding of the quotient does not
  show once the price is rounded up: a quotient that is no price lies farther from
  every price than the division can be wrong (`exists_div?_roundedUp`).
-/

namespace RegionPricing.Formula

open Decimal

theorem positiveOrOne_of_pos {v : Decimal} (h : 0 < v.value) : positiveOrOne v = v := by
  rw [positiveOrOne, if_pos ((isPositive_iff v).mpr h)]

theorem value_positiveOrOne (v : Decimal) :
    (positiveOrOne v).value = if 0 < v.value then v.value else 1 := by
  unfold positiveOrOne
  split
  next h => rw [if_pos ((isPositive_iff v).mp h)]
  next h => rw [if_neg (fun h' => h ((isPositive_iff v).mpr h')), value_one]

/-! ## Local listings -/

theorem effectiveOversea_mem (rate : Option Decimal) :
    0 ≤ (effectiveOversea rate).value ∧ (effectiveOversea rate).value ≤ 1 := by
  unfold effectiveOversea
  split
  next r =>
    split
    next h =>
      rw [Bool.and_eq_true, le_iff, le_iff, value_zero, value_one] at h
      exact h
    next => simp
  next => simp

/-- The price in the currency of the affiliate region, before fees and margins. -/
def exactConverted (l : Listing) (f : ListingFactors) : ℚ :=
  l.primaryPrice.value * (1 - (effectiveOversea l.overseaRate).value) / f.exchangeRate.value

/-- What the price of a listing comes to before it is rounded. -/
def exactAffiliatePrice (l : Listing) (f : ListingFactors) : ℚ :=
  (exactConverted l f + f.hiddenPrice.value + f.shippingFee.value) * f.regionMargin.value
    * (positiveOrOne l.shopMargin).value * (positiveOrOne l.itemMargin).value

/-- The size of the numbers on the way to the price of a listing. -/
def listingSize (l : Listing) (f : ListingFactors) : ℚ :=
  (1 + |exactConverted l f| + |f.hiddenPrice.value| + |f.shippingFee.value|)
    * (1 + f.regionMargin.value) * (1 + (positiveOrOne l.shopMargin).value)
    * (1 + (positiveOrOne l.itemMargin).value)

/-- A listing with amounts below one million, prices and fees with five places, and rates
and margins with four. -/
structure Moderate (l : Listing) (f : ListingFactors) : Prop where
  weight_pos : 0 < l.weight.value
  price_lt : |l.primaryPrice.value| < 10 ^ 6
  price_places : HasPlaces 5 l.primaryPrice.value
  oversea_places : HasPlaces 4 (effectiveOversea l.overseaRate).value
  rate_pos : 0 < f.exchangeRate.value
  rate_places : HasPlaces 4 f.exchangeRate.value
  hidden_lt : |f.hiddenPrice.value| < 10 ^ 6
  hidden_places : HasPlaces 5 f.hiddenPrice.value
  shipping_lt : |f.shippingFee.value| < 10 ^ 6
  shipping_places : HasPlaces 5 f.shippingFee.value
  region_pos : 0 < f.regionMargin.value
  region_lt : f.regionMargin.value < 10 ^ 6
  region_places : HasPlaces 4 f.regionMargin.value
  shop_lt : l.shopMargin.value < 10 ^ 6
  shop_places : HasPlaces 4 l.shopMargin.value
  item_lt : l.itemMargin.value < 10 ^ 6
  item_places : HasPlaces 4 l.itemMargin.value

theorem positiveOrOne_pos (v : Decimal) : 0 < (positiveOrOne v).value := by
  rw [value_positiveOrOne]
  split
  next h => exact h
  next => exact one_pos

theorem positiveOrOne_lt {v : Decimal} {b : ℚ} (hb : 1 < b) (h : v.value < b) :
    (positiveOrOne v).value < b := by
  rw [value_positiveOrOne]
  split
  next => exact h
  next => exact hb

theorem positiveOrOne_hasPlaces {v : Decimal} {k : ℕ} (h : HasPlaces k v.value) :
    HasPlaces k (positiveOrOne v).value := by
  rw [value_positiveOrOne]
  split
  next => exact h
  next => exact HasPlaces.one

section

variable {l : Listing} {f : ListingFactors}

/-- The price that is left after the oversea rate still has all its digits. -/
theorem exists_earned (h : Moderate l f) :
    ∃ kept earned, Decimal.one.sub (effectiveOversea l.overseaRate) = .ok kept ∧
      l.primaryPrice.mul kept = .ok earned ∧
      earned.value / f.exchangeRate.value = exactConverted l f ∧ |earned.value| ≤ 10 ^ 6 := by
  obtain ⟨h0, h1⟩ := effectiveOversea_mem l.overseaRate
  have hk : |1 - (effectiveOversea l.overseaRate).value| ≤ 1 :=
    abs_le.mpr ⟨by linarith, by linarith⟩
  have hp := HasPlaces.one.sub h.oversea_places
  obtain ⟨kept, hkept, hkv⟩ := exists_sub_eq (a := one) (b := effectiveOversea l.overseaRate)
    (by rw [value_one]; exact hp) (by omega)
    (by rw [value_one]; exact abs_mul_pow_lt_limit hk (by norm_num))
  rw [value_one] at hkv
  have hsize : |l.primaryPrice.value * kept.value| ≤ 10 ^ 6 := by
    rw [abs_mul, hkv]
    calc |l.primaryPrice.value| * |1 - (effectiveOversea l.overseaRate).value|
        ≤ 10 ^ 6 * 1 := mul_le_mul h.price_lt.le hk (abs_nonneg _) (by norm_num)
      _ = 10 ^ 6 := mul_one _
  obtain ⟨earned, he, hev⟩ := exists_mul_eq (a := l.primaryPrice) (b := kept)
    (h.price_places.mul (hkv ▸ hp)) (by omega) (abs_mul_pow_lt_limit hsize (by norm_num))
  refine ⟨kept, earned, hkept, he, ?_, by rw [hev]; exact hsize⟩
  rw [hev, hkv, exactConverted]

theorem abs_exactConverted_le (h : Moderate l f) : |exactConverted l f| ≤ 10 ^ 10 := by
  obtain ⟨_, earned, _, _, hquot, hsize⟩ := exists_earned h
  have hunit := h.rate_places.one_le_mul_pow h.rate_pos
  rw [← hquot, abs_div, abs_of_pos h.rate_pos, div_le_iff₀ h.rate_pos]
  linarith

/-- No operation on the way fails. -/
theorem listingSize_le_room (h : Moderate l f) : listingSize l f ≤ room := by
  have hq := abs_exactConverted_le h
  have hh := h.hidden_lt
  have hs := h.shipping_lt
  have hb := h.region_pos
  have hb' := h.region_lt
  have hsm := positiveOrOne_pos l.shopMargin
  have him := positiveOrOne_pos l.itemMargin
  have hsm' := positiveOrOne_lt (by norm_num) h.shop_lt
  have him' := positiveOrOne_lt (by norm_num) h.item_lt
  have h1 : 1 + |exactConverted l f| + |f.hiddenPrice.value| + |f.shippingFee.value|
      ≤ 2 * 10 ^ 10 := by linarith
  calc listingSize l f
      ≤ 2 * 10 ^ 10 * (1 + 10 ^ 6) * (1 + 10 ^ 6) * (1 + 10 ^ 6) := by
        unfold listingSize
        gcongr
    _ ≤ room := by norm_num [room]

/-- The numbers on the way only grow. -/
theorem sizes_le (h : Moderate l f) :
    1 + |exactConverted l f| + |f.hiddenPrice.value| + |f.shippingFee.value| ≤ listingSize l f ∧
      (1 + |exactConverted l f| + |f.hiddenPrice.value| + |f.shippingFee.value|)
        * (1 + f.regionMargin.value) ≤ listingSize l f ∧
      (1 + |exactConverted l f| + |f.hiddenPrice.value| + |f.shippingFee.value|)
        * (1 + f.regionMargin.value) * (1 + (positiveOrOne l.shopMargin).value)
        ≤ listingSize l f := by
  have hb := h.region_pos
  have hsm := positiveOrOne_pos l.shopMargin
  have him := positiveOrOne_pos l.itemMargin
  have hshop : _ ≤ listingSize l f := le_mul_of_one_le_right (by positivity) (by linarith)
  have hregion := (le_mul_of_one_le_right (by positivity) (by linarith)).trans hshop
  have hfees := (le_mul_of_one_le_right (by positivity) (by linarith)).trans hregion
  exact ⟨hfees, hregion, hshop⟩

/-- The steps of the formula, one after the other. -/
theorem affiliatePrice_eq (h : Moderate l f) (hf : l.factors = some f)
    {kept earned converted withHidden withFees regional ofShop r : Decimal}
    (hkept : Decimal.one.sub (effectiveOversea l.overseaRate) = .ok kept)
    (hearned : l.primaryPrice.mul kept = .ok earned)
    (hconverted : earned.div f.exchangeRate = .ok converted)
    (hhidden : converted.add f.hiddenPrice = .ok withHidden)
    (hfees : withHidden.add f.shippingFee = .ok withFees)
    (hregion : withFees.mul f.regionMargin = .ok regional)
    (hshop : regional.mul (positiveOrOne l.shopMargin) = .ok ofShop)
    (hitem : ofShop.mul (positiveOrOne l.itemMargin) = .ok r) : affiliatePrice l = .ok r := by
  simp only [affiliatePrice, (isPositive_iff _).mpr h.weight_pos, hf,
    isZero_eq_false h.rate_pos.ne', Bool.not_true, Bool.false_eq_true, if_false, hkept, hearned,
    hconverted, hhidden, hfees, hregion, hshop, hitem, ok_bind]

/-- The computed price of a listing is wrong by less than ten roundings. -/
theorem exists_affiliatePrice (h : Moderate l f) (hf : l.factors = some f) :
    ∃ r, affiliatePrice l = .ok r ∧ Near r (exactAffiliatePrice l f) (listingSize l f) 10 := by
  have hh := abs_nonneg f.hiddenPrice.value
  have hs := abs_nonneg f.shippingFee.value
  have hsm := positiveOrOne_pos l.shopMargin
  have him := positiveOrOne_pos l.itemMargin
  have hroom := listingSize_le_room h
  obtain ⟨hfees, hregion, hshop⟩ := sizes_le h
  obtain ⟨kept, earned, hkept, hearned, hquot, _⟩ := exists_earned h
  obtain ⟨r0, h0, hn0⟩ := Near.div (a := earned) h.rate_pos.ne' (by rw [hquot]; linarith)
  rw [hquot] at hn0
  obtain ⟨r1, h1, hn1⟩ := hn0.add (b := f.hiddenPrice) (by norm_num) (by norm_num) (by linarith)
  obtain ⟨r2, h2, hn2⟩ := hn1.add (b := f.shippingFee) (by norm_num) (by norm_num)
    (hfees.trans hroom)
  obtain ⟨r3, h3, hn3⟩ := hn2.mul (by norm_num) (by norm_num) h.region_pos.le (hregion.trans hroom)
  obtain ⟨r4, h4, hn4⟩ := hn3.mul (by norm_num) (by norm_num) hsm.le (hshop.trans hroom)
  obtain ⟨r5, h5, hn5⟩ := hn4.mul (by norm_num) (by norm_num) him.le hroom
  -- Each operation has added a little more than one rounding.
  exact ⟨r5, affiliatePrice_eq h hf hkept hearned h0 h1 h2 h3 h4 h5, hn5.mono (by norm_num)⟩

/-- Where the division ends after `j` places, and digits are left for the margins, the
computed price of a listing is exact. -/
theorem value_affiliatePrice (h : Moderate l f) (hf : l.factors = some f) {j : ℕ} (hj : 5 ≤ j)
    (hplaces : HasPlaces j (exactConverted l f))
    (hdigits : listingSize l f * 10 ^ (j + 12) ≤ 79 * 10 ^ 27) :
    ∃ r, affiliatePrice l = .ok r ∧ r.value = exactAffiliatePrice l f := by
  have hq := abs_nonneg (exactConverted l f)
  have hh := abs_nonneg f.hiddenPrice.value
  have hs := abs_nonneg f.shippingFee.value
  have hsm := positiveOrOne_pos l.shopMargin
  have him := positiveOrOne_pos l.itemMargin
  obtain ⟨hfees, hregion, hshop⟩ := sizes_le h
  have hone : 1 ≤ listingSize l f := by linarith
  have hdigits28 : j + 12 ≤ 28 := by
    by_contra hlarge
    have hpow : (10 : ℚ) ^ 29 ≤ 10 ^ (j + 12) := pow_le_pow_right₀ (by norm_num) (by omega)
    have := mul_le_mul hone hpow (by positivity) (by linarith)
    linarith
  have hroom : ∀ {size : ℚ} {k : ℕ}, size ≤ listingSize l f → k ≤ j + 12 →
      size * 10 ^ k ≤ 79 * 10 ^ 27 := by
    intro size k hs hk
    have hpow := pow_le_pow_right₀ (by norm_num : (1 : ℚ) ≤ 10) hk
    exact (mul_le_mul hs hpow (by positivity) (by linarith)).trans hdigits
  obtain ⟨kept, earned, hkept, hearned, hquot, _⟩ := exists_earned h
  obtain ⟨r0, h0, hv0⟩ := exists_div_eq (a := earned) h.rate_pos.ne' (hquot ▸ hplaces)
    (by omega) (hquot ▸ abs_mul_pow_lt_limit (le_refl _) (hroom (by linarith) (by omega)))
  have he0 : Exact r0 (exactConverted l f) (1 + |exactConverted l f|) j :=
    ⟨hv0.trans hquot, hplaces, by linarith⟩
  -- A sum keeps the number of places, and each margin adds four.
  obtain ⟨r1, h1, he1⟩ := he0.add (h.hidden_places.mono hj) (by omega)
    (hroom (by linarith) (by omega))
  obtain ⟨r2, h2, he2⟩ := he1.add (h.shipping_places.mono hj) (by omega) (hroom hfees (by omega))
  obtain ⟨r3, h3, he3⟩ := he2.mul h.region_places h.region_pos.le (by omega)
    (hroom hregion (by omega))
  obtain ⟨r4, h4, he4⟩ := he3.mul (positiveOrOne_hasPlaces h.shop_places) hsm.le (by omega)
    (hroom hshop (by omega))
  obtain ⟨r5, h5, he5⟩ := he4.mul (positiveOrOne_hasPlaces h.item_places) him.le (by omega)
    (hroom le_rfl (by omega))
  exact ⟨r5, affiliatePrice_eq h hf hkept hearned h0 h1 h2 h3 h4 h5, he5.value_eq⟩

end

/-! ## Merchant prices and shop prices -/

/-- What the platform leaves of a sale: the part that is not charged, or everything
if nothing would be left. -/
def exactShare (commission transaction service : ℚ) : ℚ :=
  if 0 < 1 - commission - transaction - service then 1 - commission - transaction - service else 1

theorem exactShare_pos (commission transaction service : ℚ) :
    0 < exactShare commission transaction service := by
  unfold exactShare
  split
  next h => exact h
  next => exact one_pos

/-- The share is exact for rates with four places, of any size that can be stored. -/
theorem exists_keptShare {c t s : Decimal} (hc : HasPlaces 4 c.value) (ht : HasPlaces 4 t.value)
    (hs : HasPlaces 4 s.value) (hc' : |c.value| ≤ 10 ^ 15) (ht' : |t.value| ≤ 10 ^ 15)
    (hs' : |s.value| ≤ 10 ^ 15) :
    ∃ d, keptShare c t s = .ok d ∧ d.value = exactShare c.value t.value s.value := by
  have h1 := abs_sub (1 : ℚ) c.value
  have h2 := abs_sub (1 - c.value) t.value
  have h3 := abs_sub (1 - c.value - t.value) s.value
  rw [abs_one] at h1
  obtain ⟨x, hx, hxv⟩ := exists_sub_eq (a := one) (b := c) (by
    rw [value_one]
    exact HasPlaces.one.sub hc) (by omega) (by
    rw [value_one]
    exact abs_mul_pow_lt_limit (b := 10 ^ 16) (by linarith) (by norm_num))
  rw [value_one] at hxv
  have hx4 : HasPlaces 4 x.value := hxv ▸ HasPlaces.one.sub hc
  obtain ⟨y, hy, hyv⟩ := exists_sub_eq (a := x) (b := t) (hx4.sub ht) (by omega) (by
    rw [hxv]
    exact abs_mul_pow_lt_limit (b := 10 ^ 16) (by linarith) (by norm_num))
  rw [hxv] at hyv
  have hy4 : HasPlaces 4 y.value := hyv ▸ (HasPlaces.one.sub hc).sub ht
  obtain ⟨z, hz, hzv⟩ := exists_sub_eq (a := y) (b := s) (hy4.sub hs) (by omega) (by
    rw [hyv]
    exact abs_mul_pow_lt_limit (b := 10 ^ 16) (by linarith) (by norm_num))
  rw [hyv] at hzv
  refine ⟨positiveOrOne z, ?_, ?_⟩
  · simp only [keptShare, hx, hy, hz, ok_bind]
    rfl
  · rw [value_positiveOrOne, hzv]
    rfl

/-- The quotient of a numerator with 14 places and a divisor with 9 rounds up to the
price that the exact quotient rounds up to. -/
theorem exists_div?_roundedUp {a b : Decimal} {k : ℕ} (ha : HasPlaces 14 a.value)
    (hb : HasPlaces 9 b.value) (ha' : |a.value| ≤ 10 ^ 13) (hb0 : 0 < b.value)
    (hb' : b.value ≤ 10 ^ 14) (hk : k ≤ 5) :
    ∃ r, a.div? b = some r ∧ roundedUp k r.value = roundedUp k (a.value / b.value) := by
  have hunit := hb.one_le_mul_pow hb0
  have hx : |a.value / b.value| ≤ 10 ^ 22 := by
    rw [abs_div, abs_of_pos hb0, div_le_iff₀ hb0]
    linarith
  have hfits : Fits (a.value / b.value) := by
    unfold Fits limit
    norm_num
    linarith
  have hround := div?_roundsTo (a := a) hb0.ne'
  obtain ⟨r, hr⟩ := hround.exists_some hfits
  obtain ⟨bound, hrounds, hbound⟩ := hround.rounds hr
  refine ⟨r, hr, roundedUp_eq_of_near ?_ ?_⟩
  · -- a quotient that is a price already is not rounded
    intro n hn
    have hplaces : HasPlaces 5 (a.value / b.value) := (hn ▸ HasPlaces.div_pow n k).mono hk
    obtain ⟨r', hr', hv⟩ := hround.exact hplaces (by omega)
      (abs_mul_pow_lt_limit hx (by norm_num))
    rw [hr, Option.some.injEq] at hr'
    rw [hr', hv]
  · intro n hn
    refine lt_of_mul_lt_mul_right ?_ hb0.le
    -- the distance to a price, times the divisor, is a number with 14 places
    have hgap : 1 ≤ |(n : ℚ) / 10 ^ k - a.value / b.value| * b.value * 10 ^ 14 := by
      have heq : ((n : ℚ) / 10 ^ k - a.value / b.value) * b.value
          = n / 10 ^ k * b.value - a.value := by
        rw [sub_mul, div_mul_cancel₀ _ hb0.ne']
      rw [← abs_of_pos hb0, ← abs_mul, abs_of_pos hb0]
      refine HasPlaces.one_le_abs_mul_pow ?_ (mul_ne_zero (sub_ne_zero.mpr hn) hb0.ne')
      rw [heq]
      exact (((HasPlaces.div_pow n k).mono hk).mul hb).sub ha
    rcases hrounds.error_cases hbound with he | he
    · have := mul_le_mul_of_nonneg_right he hb0.le
      unfold epsilon at this
      linarith
    · have := mul_le_mul_of_nonneg_right he hb0.le
      rw [abs_div, abs_of_pos hb0, div_right_comm, div_mul_cancel₀ _ hb0.ne',
        le_div_iff₀ (by norm_num)] at this
      linarith

/-- The operands of a conversion: prices, rates and fees as they are stored, and a share
of the sale. -/
structure Convertible (price rate profit hidden share : ℚ) : Prop where
  price_pos : 0 < price
  price_places : HasPlaces 5 price
  rate_pos : 0 < rate
  rate_places : HasPlaces 5 rate
  profit_pos : 0 < profit
  profit_places : HasPlaces 4 profit
  hidden_nonneg : 0 ≤ hidden
  hidden_places : HasPlaces 5 hidden
  share_pos : 0 < share
  share_le_one : share ≤ 1
  share_places : HasPlaces 4 share

/-- The shop's price before rounding. -/
def exactShopPrice (price rate profit hidden share : ℚ) : ℚ :=
  (price * rate * profit + hidden) / share

/-- The merchant's price before rounding. -/
def exactMerchantPrice (price rate profit hidden share : ℚ) : ℚ :=
  max 0 (price * share - hidden) / (rate * profit)

section

variable {p fx profit h d : Decimal} {k : ℕ}

theorem exists_shopPrice (hc : Convertible p.value fx.value profit.value h.value d.value)
    (hb : p.value * fx.value * profit.value + h.value ≤ 10 ^ 9) (hk : k ≤ 5) :
    ∃ r, shopPrice p fx profit h d = .ok r ∧ roundedUp k r.value
      = roundedUp k (exactShopPrice p.value fx.value profit.value h.value d.value) := by
  have hunit := hc.profit_places.one_le_mul_pow hc.profit_pos
  have hpf := mul_pos hc.price_pos hc.rate_pos
  have hpfp := mul_pos hpf hc.profit_pos
  have hh := hc.hidden_nonneg
  have hsize : p.value * fx.value ≤ 10 ^ 13 := by
    have := mul_le_mul_of_nonneg_left hunit hpf.le
    linarith
  obtain ⟨x, hx, hxv⟩ := exists_mul_eq (a := p) (b := fx)
    (hc.price_places.mul hc.rate_places) (by omega)
    (abs_mul_pow_lt_limit (abs_le.mpr ⟨by linarith, hsize⟩) (by norm_num))
  have hxp : HasPlaces 10 x.value := hxv ▸ hc.price_places.mul hc.rate_places
  obtain ⟨y, hy, hyv⟩ := exists_mul_eq (a := x) (b := profit)
    (hxp.mul hc.profit_places) (by omega) (by
      rw [hxv]
      exact abs_mul_pow_lt_limit (abs_le.mpr ⟨by linarith, by linarith⟩ : _ ≤ (10 : ℚ) ^ 9)
        (by norm_num))
  have hyp : HasPlaces 14 y.value := hyv ▸ hxp.mul hc.profit_places
  rw [hxv] at hyv
  have hn : HasPlaces 14 (y.value + h.value) := hyp.add (hc.hidden_places.mono (by omega))
  have hnabs : |y.value + h.value| ≤ 10 ^ 9 := by
    rw [hyv, abs_of_nonneg (by linarith)]
    exact hb
  obtain ⟨n, hn', hnv⟩ := exists_add_eq hn (by omega) (abs_mul_pow_lt_limit hnabs (by norm_num))
  obtain ⟨r, hr, hv⟩ := exists_div?_roundedUp (a := n) (b := d) (hnv ▸ hn)
    (hc.share_places.mono (by omega)) (by rw [hnv]; linarith) hc.share_pos
    (by linarith [hc.share_le_one]) hk
  refine ⟨r, ?_, ?_⟩
  · simp only [shopPrice, hx, hy, hn', ok_bind, positiveOrOne_of_pos hc.share_pos, hr]
    rfl
  · rw [hv, hnv, hyv]
    rfl

theorem exists_merchantPrice (hc : Convertible p.value fx.value profit.value h.value d.value)
    (hp : p.value ≤ 10 ^ 13) (hb : fx.value * profit.value ≤ 10 ^ 14) (hk : k ≤ 5) :
    ∃ r, merchantPrice p fx profit h d = .ok r ∧ roundedUp k r.value
      = roundedUp k (exactMerchantPrice p.value fx.value profit.value h.value d.value) := by
  have hpd := mul_pos hc.price_pos hc.share_pos
  have hfp := mul_pos hc.rate_pos hc.profit_pos
  have hh := hc.hidden_nonneg
  have hsize : p.value * d.value ≤ 10 ^ 13 := by
    have := mul_le_mul_of_nonneg_left hc.share_le_one hc.price_pos.le
    linarith
  obtain ⟨x, hx, hxv⟩ := exists_mul_eq (a := p) (b := d)
    (hc.price_places.mul hc.share_places) (by omega)
    (abs_mul_pow_lt_limit (abs_le.mpr ⟨by linarith, hsize⟩) (by norm_num))
  have hxp : HasPlaces 9 x.value := hxv ▸ hc.price_places.mul hc.share_places
  have hnp : HasPlaces 9 (x.value - h.value) := hxp.sub (hc.hidden_places.mono (by omega))
  have hfx : fx.isZero = false := isZero_eq_false hc.rate_pos.ne'
  have hpr : profit.isZero = false := isZero_eq_false hc.profit_pos.ne'
  unfold merchantPrice exactMerchantPrice
  rw [hfx, hpr, ← hxv]
  simp only [Bool.or_self, Bool.false_eq_true, if_false, hx, ok_bind]
  rcases le_or_gt 0 (x.value - h.value) with hpos | hneg
  · have hnabs : |x.value - h.value| ≤ 10 ^ 13 := by
      rw [abs_of_nonneg hpos, hxv]
      linarith
    obtain ⟨n, hn, hnv⟩ := exists_sub_eq hnp (by omega) (abs_mul_pow_lt_limit hnabs (by norm_num))
    obtain ⟨e, he, hev⟩ := exists_mul_eq (a := fx) (b := profit)
      (hc.rate_places.mul hc.profit_places) (by omega)
      (abs_mul_pow_lt_limit (abs_le.mpr ⟨by linarith, hb⟩) (by norm_num))
    have hep : HasPlaces 9 e.value := hev ▸ hc.rate_places.mul hc.profit_places
    obtain ⟨r, hr, hv⟩ := exists_div?_roundedUp (a := n) (b := e) (hnv ▸ hnp.mono (by omega)) hep
      (hnv ▸ hnabs) (hev ▸ hfp) (hev ▸ hb) hk
    have hsign : n.isNegative = false := by
      rw [← Bool.not_eq_true, isNegative_iff, hnv]
      exact not_lt.mpr hpos
    refine ⟨r, ?_, ?_⟩
    · simp only [hn, ok_bind, hsign, Bool.false_eq_true, if_false, he, hr]
      rfl
    · rw [hv, hnv, hev, max_eq_right hpos]
  · -- the fee is not covered; it may be so large that the difference is rounded
    obtain ⟨n, hn, hnneg⟩ := exists_sub_neg (hxv ▸ hpd.le) (sub_neg.mp hneg) hnp (by omega)
    refine ⟨.zero, ?_, ?_⟩
    · simp only [hn, ok_bind, (isNegative_iff n).mpr hnneg, if_true]
      rfl
    · rw [max_eq_left hneg.le, zero_div, value_zero]

end

end RegionPricing.Formula
