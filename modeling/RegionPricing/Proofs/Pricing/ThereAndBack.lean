import RegionPricing.Proofs.Pricing.ConversionPrice

/-!
# To the shop and back

A merchant's price that is converted to the shop's price, stored, and converted back is not
the price that it was: both ways round up to their currency. `thereAndBack_bounds` says how
far it can be off: never below, and above by less than one unit of the shop's currency, as
the merchant sees it, and one unit of the merchant's own.

Neither quotient ends, as a rule. Both are rounded to a decimal before they are rounded up,
and that both come out as exact arithmetic would have them is `exists_converted`.
-/

namespace RegionPricing.Pricing

open Decimal Market Rules

/-- The merchant's price that comes back, when the shop's price that a merchant's price leads
to is converted again, with the same rates and fees. -/
def thereAndBack (book : Book) (shop : Shop) (price : Int64)
    (rate profit hidden share : Decimal) : Except Fault Int64 := do
  let there ← converted .forward (FixedPoint.priceOfRaw price) rate profit hidden share
  let inShop ← charged book (conversionRegion .forward shop) there
  let back ← converted .reverse (FixedPoint.priceOfRaw inShop) rate profit hidden share
  charged book (conversionRegion .reverse shop) back

section

variable {p fx profit h d : ℚ}

/-- What is left of a shop's price once fee and share are taken off, in the merchant's
currency, if the price is at least what the merchant's price leads to. -/
theorem le_exactMerchantPrice (hfp : 0 < fx * profit) (hd : 0 < d) {s : ℚ}
    (hs : Formula.exactShopPrice p fx profit h d ≤ s) :
    p ≤ Formula.exactMerchantPrice s fx profit h d := by
  rw [Formula.exactShopPrice, div_le_iff₀ hd] at hs
  rw [Formula.exactMerchantPrice, le_div_iff₀ hfp]
  exact (by linarith : p * (fx * profit) ≤ s * d - h).trans (le_max_right _ _)

/-- A shop's price that is too high by less than `u` comes back as a price that is too high by
less than `u * d / (fx * profit)`. -/
theorem exactMerchantPrice_lt (hp : 0 < p) (hfp : 0 < fx * profit) (hd : 0 < d) {s u : ℚ}
    (hu : 0 ≤ u) (hs : s < Formula.exactShopPrice p fx profit h d + u) :
    Formula.exactMerchantPrice s fx profit h d < p + u * d / (fx * profit) := by
  have hnum : s * d - h < p * (fx * profit) + u * d := by
    have hsd := mul_lt_mul_of_pos_right hs hd
    rw [Formula.exactShopPrice, add_mul, div_mul_cancel₀ _ hd.ne'] at hsd
    linarith
  have hpos : 0 < p * (fx * profit) + u * d :=
    add_pos_of_pos_of_nonneg (mul_pos hp hfp) (mul_nonneg hu hd.le)
  rw [Formula.exactMerchantPrice, div_lt_iff₀ hfp, add_mul, div_mul_cancel₀ _ hfp.ne']
  exact max_lt hpos hnum

/-- No price in a shop is above this one. -/
theorem exactShopPrice_le (hd : 0 < d) (hd4 : HasPlaces 4 d) (hb : p * fx * profit + h ≤ 10 ^ 9) :
    Formula.exactShopPrice p fx profit h d ≤ 10 ^ 13 := by
  have hunit := hd4.one_le_mul_pow hd
  rw [Formula.exactShopPrice, div_le_iff₀ hd]
  linarith

end

section

variable {book : Book} {shop : Shop} {price : Int64} {rate profit hidden share : Decimal}

/-- The price in the shop, as it is stored: it can always be stored as it is. -/
theorem exists_stored_there
    (hc : Formula.Convertible (FixedPoint.amountOf 5 price) rate.value profit.value hidden.value
      share.value)
    (hrange : FixedPoint.amountOf 5 price * rate.value * profit.value + hidden.value ≤ 10 ^ 9)
    {region : Region} (hplain : (book.rounding region).pricePoints = false) {a : ℕ}
    (hplaces : (book.rounding region).places.toNat = a) (ha : a ≤ 5) :
    ∃ there inShop,
      converted .forward (FixedPoint.priceOfRaw price) rate profit hidden share = .ok there ∧
      charged book region there = .ok inShop ∧
      FixedPoint.amountOf 5 inShop = roundedUp a (Formula.exactShopPrice
        (FixedPoint.amountOf 5 price) rate.value profit.value hidden.value share.value) ∧
      FixedPoint.amountOf 5 inShop ≤ 10 ^ 13 := by
  rw [← FixedPoint.value_priceOfRaw] at hc hrange ⊢
  obtain ⟨there, hthere, hup⟩ := exists_converted hc (show InRange .forward _ _ _ _ from hrange) ha
  refine ⟨there, _, hthere, charged_eq there hplain, ?_⟩
  set exact := exactPrice .forward (FixedPoint.priceOfRaw price).value rate.value profit.value
    hidden.value share.value with hexact
  have hle : roundedUp a exact ≤ 10 ^ 13 :=
    roundedUp_le (exactShopPrice_le hc.share_pos hc.share_places hrange)
      ⟨10 ^ 13 * 10 ^ a, by push_cast; rfl⟩
  have hpos : 0 ≤ roundedUp a exact := by
    have hnum := mul_pos (mul_pos hc.price_pos hc.rate_pos) hc.profit_pos
    exact (div_nonneg (by linarith [hc.hidden_nonneg]) hc.share_pos.le).trans (le_roundedUp a exact)
  rw [hplaces, hup, FixedPoint.amountOf_rawOf hpos ((roundedUp_hasPlaces a exact).mono ha),
    min_eq_left]
  · exact ⟨rfl, hle⟩
  · exact hle.trans (by norm_num [FixedPoint.greatestAmount])

/-- A price that has gone to the shop and back has not become less, and not more by the two
units that rounding up adds. -/
theorem thereAndBack_bounds
    (hc : Formula.Convertible (FixedPoint.amountOf 5 price) rate.value profit.value hidden.value
      share.value)
    (hrange : FixedPoint.amountOf 5 price * rate.value * profit.value + hidden.value ≤ 10 ^ 9)
    {a b : ℕ} (ha : a ≤ 5) (hb : b ≤ 5)
    (hshop : (book.rounding (conversionRegion .forward shop)).pricePoints = false)
    (hshop' : (book.rounding (conversionRegion .forward shop)).places.toNat = a)
    (hmerchant : (book.rounding (conversionRegion .reverse shop)).pricePoints = false)
    (hmerchant' : (book.rounding (conversionRegion .reverse shop)).places.toNat = b) :
    ∃ back, thereAndBack book shop price rate profit hidden share = .ok back ∧
      FixedPoint.amountOf 5 price ≤ FixedPoint.amountOf 5 back ∧
      FixedPoint.amountOf 5 back < FixedPoint.amountOf 5 price
        + 1 / 10 ^ a * share.value / (rate.value * profit.value) + 1 / 10 ^ b := by
  obtain ⟨there, inShop, hthere, hinShop, hvalue, hsize⟩ :=
    exists_stored_there hc hrange hshop hshop' ha
  set p := FixedPoint.amountOf 5 price with hp
  set exact := Formula.exactShopPrice p rate.value profit.value hidden.value share.value
  have hfp := mul_pos hc.rate_pos hc.profit_pos
  have hle : exact ≤ FixedPoint.amountOf 5 inShop := hvalue ▸ le_roundedUp a exact
  have hlt : FixedPoint.amountOf 5 inShop < exact + 1 / 10 ^ a := hvalue ▸ roundedUp_lt a exact
  have hexact : 0 < exact := by
    have hnum := mul_pos (mul_pos hc.price_pos hc.rate_pos) hc.profit_pos
    exact div_pos (by linarith [hc.hidden_nonneg]) hc.share_pos
  -- What is on the way back can be converted exactly as well.
  have hback : Formula.Convertible (FixedPoint.priceOfRaw inShop).value rate.value profit.value
      hidden.value share.value := by
    rw [FixedPoint.value_priceOfRaw]
    exact { hc with
      price_pos := hexact.trans_le hle
      price_places := FixedPoint.amountOf_hasPlaces 5 inShop }
  have hfactor : rate.value * profit.value ≤ 10 ^ 14 := by
    have hunit := hc.price_places.one_le_mul_pow hc.price_pos
    have hgrow := mul_le_mul_of_nonneg_right hunit hfp.le
    linarith [hc.hidden_nonneg]
  have hrange' : InRange .reverse (FixedPoint.priceOfRaw inShop).value rate.value profit.value
      hidden.value := ⟨FixedPoint.value_priceOfRaw inShop ▸ hsize, hfactor⟩
  obtain ⟨r, hr, hup⟩ := exists_converted hback hrange' hb
  rw [FixedPoint.value_priceOfRaw] at hup
  set exactBack := exactPrice .reverse (FixedPoint.amountOf 5 inShop) rate.value profit.value
    hidden.value share.value
  have hlow : p ≤ exactBack := le_exactMerchantPrice hfp hc.share_pos hle
  have hhigh : exactBack < p + 1 / 10 ^ a * share.value / (rate.value * profit.value) :=
    exactMerchantPrice_lt hc.price_pos hfp hc.share_pos (by positivity) hlt
  have hlow' : p ≤ roundedUp b exactBack := hlow.trans (le_roundedUp b exactBack)
  have hhigh' : roundedUp b exactBack < exactBack + 1 / 10 ^ b := roundedUp_lt b exactBack
  refine ⟨FixedPoint.rawOf 5 (roundedUp b r.value), ?_, ?_⟩
  · simp only [thereAndBack, hthere, hinShop, hr, ok_bind, charged_eq _ hmerchant, hmerchant']
  · -- If the price cannot be stored, the greatest amount is stored, and no price is above that.
    rw [hup, FixedPoint.amountOf_rawOf (hc.price_pos.le.trans hlow')
      ((roundedUp_hasPlaces b exactBack).mono hb)]
    refine ⟨le_min hlow' (FixedPoint.amountOf_le price), (min_le_left _ _).trans_lt ?_⟩
    linarith

end

/-- A shop in Malaysia, of a merchant there. -/
def tenShop : Shop := .plain 50 (.ofText "MY")

/-- A price of 10.00 is 12.2941… in the shop, hence 12.30, and that is 10.0050… for the
merchant, hence 10.01. -/
theorem thereAndBack_ten :
    thereAndBack .empty tenShop 1000000 (FixedPoint.rateOfRaw 90000) (profitRatio 11000)
        (FixedPoint.priceOfRaw 55000) (profitRatio 8500) = .ok 1001000 ∧
      (10 : ℚ) ≤ FixedPoint.amountOf 5 1001000 ∧
      FixedPoint.amountOf 5 1001000
        < 10 + 1 / 10 ^ 2 * (17 / 20) / (9 / 10 * (11 / 10)) + 1 / 10 ^ 2 := by
  have hprice : FixedPoint.amountOf 5 1000000 = 10 := by
    rw [FixedPoint.amountOf_eq (n := 1000000) rfl (by decide)]
    norm_num
  have hrate : (FixedPoint.rateOfRaw 90000).value = 9 / 10 := by
    rw [FixedPoint.rateOfRaw, FixedPoint.value_deflate (k := 5) (by decide) (by omega),
      FixedPoint.amountOf_eq (n := 90000) rfl (by decide)]
    norm_num
  have hprofit : (profitRatio 11000).value = 11 / 10 := by
    rw [value_profitRatio, FixedPoint.amountOf_eq (n := 11000) rfl (by decide)]
    norm_num
  have hfee : (FixedPoint.priceOfRaw 55000).value = 11 / 20 := by
    rw [FixedPoint.value_priceOfRaw, FixedPoint.amountOf_eq (n := 55000) rfl (by decide)]
    norm_num
  have hshare : (profitRatio 8500).value = 17 / 20 := by
    rw [value_profitRatio, FixedPoint.amountOf_eq (n := 8500) rfl (by decide)]
    norm_num
  have hconvertible : Formula.Convertible (FixedPoint.amountOf 5 1000000)
      (FixedPoint.rateOfRaw 90000).value (profitRatio 11000).value
      (FixedPoint.priceOfRaw 55000).value (profitRatio 8500).value := by
    rw [hprice, hrate, hprofit, hfee, hshare]
    refine ⟨?_, ⟨1000000, ?_⟩, ?_, ⟨90000, ?_⟩, ?_, ⟨11000, ?_⟩, ?_, ⟨55000, ?_⟩, ?_, ?_,
      ⟨8500, ?_⟩⟩ <;> norm_num
  have hplain : (Book.empty.rounding (conversionRegion .forward tenShop)).pricePoints = false := rfl
  obtain ⟨back, hback, hlow, hhigh⟩ := thereAndBack_bounds hconvertible
    (by rw [hprice, hrate, hprofit, hfee]; norm_num) (show 2 ≤ 5 by omega) (show 2 ≤ 5 by omega)
    hplain rfl rfl rfl
  have hcomputed : thereAndBack .empty tenShop 1000000 (FixedPoint.rateOfRaw 90000)
      (profitRatio 11000) (FixedPoint.priceOfRaw 55000) (profitRatio 8500) = .ok 1001000 := by
    decide +kernel
  obtain rfl := Except.ok.inj (hback.symm.trans hcomputed)
  rw [hprice] at hlow hhigh
  rw [hrate, hprofit, hshare] at hhigh
  exact ⟨hcomputed, hlow, hhigh⟩

end RegionPricing.Pricing
