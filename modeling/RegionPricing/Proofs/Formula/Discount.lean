import RegionPricing.FixedPoint
import RegionPricing.Proofs.Formula

/-!
# Discounts, exactly

Neither discount formula loses anything, for prices and rates as they are stored.

* The price after a discount (`discountedPrice`) divides by a power of ten, so that all digits
  are kept (`exists_discountedPrice`).
* The rate between two prices (`discountRate`) divides by a price. The quotient is rounded, its
  multiple may be rounded again, and only then the rate is rounded to two places. Still the rate is
  the exact one, rounded once (`exists_discountRate`): a rate that lies half-way between two
  others ends early and is not rounded before, and any other is farther from the middle
  than two roundings can lead.
-/

namespace RegionPricing.Formula

open Decimal

/-- A rate strictly between zero and the precision. -/
def RateInRange (rate : Decimal) (precision : Int64) : Prop :=
  0 < rate.value ∧ rate.value < precision.toInt

section

variable {rate price discounted : Decimal} {precision : Int64}

theorem checkRate_test : (rate.isPositive && rate.lt (.ofInt64 precision)) = true ↔
    RateInRange rate precision := by
  rw [Bool.and_eq_true, isPositive_iff, lt_iff, value_ofInt64]
  rfl

theorem checkRate_of_inRange (h : RateInRange rate precision) :
    checkRate rate precision = .ok () := by
  unfold checkRate
  rw [if_pos (checkRate_test.mpr h)]

theorem checkRate_of_not_inRange (h : ¬RateInRange rate precision) :
    ∃ f, checkRate rate precision = .error f := by
  unfold checkRate
  rw [if_neg (mt checkRate_test.mp h)]
  exact ⟨_, rfl⟩

theorem value_profitPrecision : (ofInt64 FixedPoint.profitPrecision).value = 10 ^ 4 := by
  have h : FixedPoint.profitPrecision.toInt = 10 ^ 4 := by decide
  rw [value_ofInt64, h]
  norm_num

/-! ## From a rate to a price -/

theorem discountedPrice_stops (h : ¬RateInRange rate precision) :
    ∃ f, StopsBy (discountedPrice price rate precision) (.ok f) := by
  obtain ⟨f, hf⟩ := checkRate_of_not_inRange h
  refine ⟨f, ?_⟩
  unfold discountedPrice
  rw [hf]
  exact stopsBy_throw_iff.mpr rfl

section

variable {kept : Decimal} {p r : ℤ}

/-- What is kept of a price, in units of the precision. -/
theorem exists_kept (hrate : rate.value = r) (hr : 0 < r) (hr' : r < 10 ^ 4) :
    ∃ kept, (ofInt64 FixedPoint.profitPrecision).sub rate = .ok kept ∧
      kept.value = 10 ^ 4 - r := by
  have hrq : (0 : ℚ) < r := by exact_mod_cast hr
  have hrq' : (r : ℚ) < 10 ^ 4 := by exact_mod_cast hr'
  have hdiff : (ofInt64 FixedPoint.profitPrecision).value - rate.value = 10 ^ 4 - r := by
    rw [value_profitPrecision, hrate]
  have hplaces : HasPlaces 0 ((10 : ℚ) ^ 4 - r) := by
    refine ⟨10 ^ 4 - r, ?_⟩
    push_cast
    ring
  have hsize : |(10 : ℚ) ^ 4 - r| ≤ 10 ^ 4 := by
    rw [abs_of_nonneg (by linarith)]
    linarith
  obtain ⟨kept, hkept, hv⟩ := exists_sub_eq (hdiff ▸ hplaces) (by omega)
    (hdiff ▸ abs_mul_pow_lt_limit hsize (by norm_num))
  exact ⟨kept, hkept, hv.trans hdiff⟩

/-- A stored price after a discount has nine places at most, and none is lost. -/
theorem exists_scaled (hp : 0 < p) (hp' : p < 2 ^ 63) (hprice : price.value = p / 10 ^ 5)
    (hkept : kept.value = 10 ^ 4 - r) (hr : 0 < r) (hr' : r < 10 ^ 4) :
    ∃ scaled v, price.mul kept = .ok scaled ∧
      scaled.div (ofInt64 FixedPoint.profitPrecision) = .ok v ∧
      v.value = p * (10 ^ 4 - r) / 10 ^ 9 := by
  have hprecision : (ofInt64 FixedPoint.profitPrecision).value ≠ 0 := by
    rw [value_profitPrecision]
    norm_num
  have hnonneg : (0 : ℚ) ≤ (p * (10 ^ 4 - r) : ℤ) := by
    exact_mod_cast mul_nonneg hp.le (by omega)
  have hsize : ((p * (10 ^ 4 - r) : ℤ) : ℚ) < limit := by
    have hle : p * (10 ^ 4 - r) ≤ p * 10 ^ 4 := mul_le_mul_of_nonneg_left (by omega) hp.le
    have hlt : p * (10 ^ 4 - r) < 2 ^ 63 * 10 ^ 4 := by omega
    have hltq : ((p * (10 ^ 4 - r) : ℤ) : ℚ) < ((2 ^ 63 * 10 ^ 4 : ℤ) : ℚ) := by
      exact_mod_cast hlt
    refine hltq.trans_le ?_
    unfold limit
    norm_num
  -- product and quotient are one whole number, with more and more places
  have hfits : ∀ k : ℕ, |((p * (10 ^ 4 - r) : ℤ) : ℚ) / 10 ^ k| * 10 ^ k < limit := by
    intro k
    rw [abs_of_nonneg (div_nonneg hnonneg (by positivity)), div_mul_cancel₀ _ (by positivity)]
    exact hsize
  have hproduct : price.value * kept.value = (p * (10 ^ 4 - r) : ℤ) / 10 ^ 5 := by
    rw [hprice, hkept]
    push_cast
    ring
  obtain ⟨scaled, hscaled, hsv⟩ := exists_mul_eq (a := price) (b := kept)
    (hproduct ▸ HasPlaces.div_pow _ 5) (by omega) (hproduct ▸ hfits 5)
  have hquotient : scaled.value / (ofInt64 FixedPoint.profitPrecision).value
      = (p * (10 ^ 4 - r) : ℤ) / 10 ^ 9 := by
    rw [hsv, hproduct, value_profitPrecision, div_div]
    norm_num
  obtain ⟨v, hv, hvv⟩ := exists_div_eq hprecision (hquotient ▸ HasPlaces.div_pow _ 9)
    (by omega) (hquotient ▸ hfits 9)
  refine ⟨scaled, v, hscaled, hv, ?_⟩
  rw [hvv, hquotient]
  push_cast
  ring

theorem exists_discountedPrice (hp : 0 < p) (hp' : p < 2 ^ 63)
    (hprice : price.value = p / 10 ^ 5) (hrate : rate.value = r) (hr : 0 < r) (hr' : r < 10 ^ 4) :
    ∃ v, ComesTo (discountedPrice price rate FixedPoint.profitPrecision) v ∧
      v.value = p * (10 ^ 4 - r) / 10 ^ 9 := by
  have hinRange : RateInRange rate FixedPoint.profitPrecision := by
    unfold RateInRange
    rw [hrate, ← value_ofInt64, value_profitPrecision]
    exact ⟨by exact_mod_cast hr, by exact_mod_cast hr'⟩
  obtain ⟨kept, hkept, hkv⟩ := exists_kept hrate hr hr'
  obtain ⟨scaled, v, hscaled, hv, hvv⟩ := exists_scaled hp hp' hprice hkv hr hr'
  refine ⟨v, ?_, hvv⟩
  unfold discountedPrice
  simp only [checkRate_of_inRange hinRange, hkept, hscaled, liftM_ok_bind]
  exact comesTo_liftM_iff.mpr hv

end

/-! ## From a price to a rate -/

/-- The rate between two prices in hundredths, the unit that it is rounded to. -/
def rateHundredths (p q : ℤ) : ℤ := halfAway (((p : ℚ) - q) * 10 ^ 6 / p)

section

variable {p q : ℤ} {ratio product : Decimal}

/-- The error of two roundings, in the unit that the rate is rounded to. -/
theorem product_error {ratio product x : ℚ} (hratio : |ratio - x| ≤ epsilon * (1 + |x|))
    (hproduct : |product - ratio * 10 ^ 4| ≤ epsilon * (1 + |ratio * 10 ^ 4|)) :
    |product * 10 ^ 2 - x * 10 ^ 6| ≤ epsilon * (4 * 10 ^ 6 * (1 + |x|)) := by
  have hx := abs_nonneg x
  have hgrown : |ratio| ≤ 2 * (1 + |x|) := by
    have h := abs_sub_abs_le_abs_sub ratio x
    unfold epsilon at hratio
    linarith
  rw [abs_mul, abs_of_pos (by norm_num : (0 : ℚ) < 10 ^ 4)] at hproduct
  calc |product * 10 ^ 2 - x * 10 ^ 6|
      = |(product - ratio * 10 ^ 4) * 10 ^ 2 + (ratio - x) * 10 ^ 6| := by
        congr 1
        ring
    _ ≤ |product - ratio * 10 ^ 4| * 10 ^ 2 + |ratio - x| * 10 ^ 6 := by
        refine (abs_add_le _ _).trans (le_of_eq ?_)
        rw [abs_mul, abs_mul, abs_of_pos (by norm_num : (0 : ℚ) < 10 ^ 2),
          abs_of_pos (by norm_num : (0 : ℚ) < 10 ^ 6)]
    _ ≤ epsilon * (4 * 10 ^ 6 * (1 + |x|)) := by
        unfold epsilon at *
        linarith only [hproduct, hratio, hgrown, hx]

/-- Two roundings lead less than half-way to the next place where a rate would be rounded
otherwise. -/
theorem rounded_twice (hp : 0 < p) (hp' : p < 2 ^ 63) (hq : |q| ≤ 2 ^ 63)
    (hratio : |ratio.value - ((p : ℚ) - q) / p| ≤ epsilon * (1 + |((p : ℚ) - q) / p|))
    (hproduct : |product.value - ratio.value * 10 ^ 4|
      ≤ epsilon * (1 + |ratio.value * 10 ^ 4|)) :
    |product.value * 10 ^ 2 - ((p : ℚ) - q) * 10 ^ 6 / p| * (2 * (p : ℚ)) < 1 := by
  have hpq : (1 : ℚ) ≤ p := by exact_mod_cast hp
  have hpq' : (p : ℚ) < 2 ^ 63 := by exact_mod_cast hp'
  have hqq : |(q : ℚ)| ≤ 2 ^ 63 := by exact_mod_cast hq
  have herror := product_error hratio hproduct
  -- the size of the quotient is counted in units of the price
  have hsize : |((p : ℚ) - q) / p| * p ≤ 2 ^ 64 := by
    have hdiff := abs_sub (p : ℚ) q
    rw [abs_of_pos (by linarith : (0 : ℚ) < p)] at hdiff
    rw [abs_div, abs_of_pos (by linarith : (0 : ℚ) < p), div_mul_cancel₀ _ (by linarith)]
    linarith
  have hexact : ((p : ℚ) - q) * 10 ^ 6 / p = ((p : ℚ) - q) / p * 10 ^ 6 := by ring
  rw [hexact]
  refine lt_of_le_of_lt (mul_le_mul_of_nonneg_right herror (by linarith)) ?_
  unfold epsilon
  norm_num at hsize hpq' ⊢
  linarith

theorem abs_quotient_le (hp : 0 < p) (hp' : p < 2 ^ 63) (hq : |q| ≤ 2 ^ 63) :
    |((p : ℚ) - q) / p| ≤ 2 ^ 64 := by
  have hpq : (1 : ℚ) ≤ p := by exact_mod_cast hp
  have hpq' : (p : ℚ) < 2 ^ 63 := by exact_mod_cast hp'
  have hqq : |(q : ℚ)| ≤ 2 ^ 63 := by exact_mod_cast hq
  have hdiff := abs_sub (p : ℚ) q
  rw [abs_of_pos (by linarith : (0 : ℚ) < p)] at hdiff
  rw [abs_div, abs_of_pos (by linarith : (0 : ℚ) < p)]
  refine (div_le_self (abs_nonneg _) hpq).trans ?_
  linarith

/-- A rate half-way between two others has three places, and the quotient that it is made of
seven: neither is rounded. -/
theorem product_of_tie {m? m?' : Option Decimal} {x : ℚ} {m : ℤ} (hx : |x| ≤ 2 ^ 64)
    (hratio : RoundsTo m? x) (hr : m? = some ratio)
    (hproduct : RoundsTo m?' (ratio.value * 10 ^ 4)) (hpr : m?' = some product)
    (htie : x * 10 ^ 6 = m + 1 / 2) : product.value = x * 10 ^ 4 := by
  have hplaces : HasPlaces 7 x := by
    refine ⟨10 * m + 5, ?_⟩
    push_cast
    linarith
  have hrv := hratio.value_eq hr hplaces (by omega) (abs_mul_pow_lt_limit hx (by norm_num))
  rw [hrv] at hproduct
  have hplaces' : HasPlaces 3 (x * 10 ^ 4) := by
    obtain ⟨n, hn⟩ := hplaces
    exact ⟨n, by rw [← hn]; ring⟩
  refine hproduct.value_eq hpr hplaces' (by omega) ?_
  rw [abs_mul, abs_of_pos (by norm_num : (0 : ℚ) < 10 ^ 4)]
  unfold limit
  norm_num at hx ⊢
  linarith

/-- The rate before it is rounded to two places. -/
theorem exists_product {a b : Decimal} (hp : 0 < p) (hp' : p < 2 ^ 63) (hq : |q| ≤ 2 ^ 63)
    (hb : b.value ≠ 0) (hab : a.value / b.value = ((p : ℚ) - q) / p) :
    ∃ ratio product, a.div? b = some ratio ∧
      ratio.mul (ofInt64 FixedPoint.profitPrecision) = .ok product ∧
      halfAway (product.value * 10 ^ 2) = rateHundredths p q := by
  have hx := abs_quotient_le hp hp' hq
  have hratio := div?_roundsTo hb (a := a)
  rw [hab] at hratio
  obtain ⟨ratio, hr, hrnear⟩ := hratio.near (by
    unfold Fits limit
    norm_num at hx ⊢
    linarith)
  have hproduct := mul?_roundsTo ratio (ofInt64 FixedPoint.profitPrecision)
  rw [value_profitPrecision] at hproduct
  obtain ⟨product, hpr, hpnear⟩ := hproduct.near (by
    have h := abs_sub_abs_le_abs_sub ratio.value (((p : ℚ) - q) / p)
    unfold epsilon at hrnear
    unfold Fits limit
    rw [abs_mul, abs_of_pos (by norm_num : (0 : ℚ) < 10 ^ 4)]
    norm_num at hx hrnear h ⊢
    linarith)
  refine ⟨ratio, product, hr, mul_eq_ok hpr, ?_⟩
  refine halfAway_eq_of_near (n := (p - q) * 10 ^ 6) (d := p) hp (by push_cast; rfl) ?_
    (rounded_twice hp hp' hq hrnear hpnear)
  intro m hm
  have htie : ((p : ℚ) - q) / p * 10 ^ 6 = m + 1 / 2 := by
    rw [← hm]
    ring
  rw [product_of_tie hx hratio hr hproduct hpr htie]
  ring

/-- For stored prices the rate is the exact one, rounded once to two places; then it is
checked. -/
theorem exists_discountRate (hp : 0 < p) (hp' : p < 2 ^ 63) (hq : |q| ≤ 2 ^ 63)
    (hprice : price.value = p / 10 ^ 5) (hdiscounted : discounted.value = q / 10 ^ 5) :
    ∃ rate : Decimal, rate.value = (rateHundredths p q : ℚ) / 10 ^ 2 ∧
      (RateInRange rate FixedPoint.profitPrecision →
        ComesTo (discountRate price discounted FixedPoint.profitPrecision) rate) ∧
      (¬RateInRange rate FixedPoint.profitPrecision →
        ∃ f, StopsBy (discountRate price discounted FixedPoint.profitPrecision) (.ok f)) := by
  have hpq : (1 : ℚ) ≤ p := by exact_mod_cast hp
  have hpq' : (p : ℚ) < 2 ^ 63 := by exact_mod_cast hp'
  have hqq : |(q : ℚ)| ≤ 2 ^ 63 := by exact_mod_cast hq
  have hprice0 : price.value ≠ 0 := by
    rw [hprice]
    positivity
  have hsub : price.value - discounted.value = (p - q : ℤ) / 10 ^ 5 := by
    rw [hprice, hdiscounted]
    push_cast
    ring
  -- the difference keeps all its digits
  obtain ⟨difference, hdifference, hdv⟩ := exists_sub_eq (a := price) (b := discounted) (k := 5)
    (hsub ▸ HasPlaces.div_pow _ 5) (by omega)
    (by
      have hdiff := abs_sub (p : ℚ) q
      rw [abs_of_pos (by linarith : (0 : ℚ) < p)] at hdiff
      rw [hsub, abs_div, abs_of_pos (by norm_num : (0 : ℚ) < 10 ^ 5),
        div_mul_cancel₀ _ (by norm_num)]
      unfold limit
      push_cast
      norm_num at hpq' hqq ⊢
      linarith)
  have hquotient : difference.value / price.value = ((p : ℚ) - q) / p := by
    rw [hdv, hsub, hprice]
    push_cast
    field_simp
  obtain ⟨ratio, product, hr, hpr, hrate⟩ := exists_product hp hp' hq hprice0 hquotient
  refine ⟨product.roundHalfAway 2, ?_, ?_, ?_⟩
  · rw [value_roundHalfAway, hrate]
  · intro hin
    unfold discountRate
    simp only [hdifference, liftM_ok_bind, hr, hpr, checkRate_of_inRange hin]
    exact comesTo_pure_iff.mpr rfl
  · intro hout
    obtain ⟨f, hf⟩ := checkRate_of_not_inRange hout
    refine ⟨f, ?_⟩
    unfold discountRate
    simp only [hdifference, liftM_ok_bind, hr, hpr, hf]
    exact stopsBy_throw_iff.mpr rfl

end

end

end RegionPricing.Formula
