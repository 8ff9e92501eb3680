import RegionPricing.Pricing.Discounts
import RegionPricing.Proofs.FixedPoint
import RegionPricing.Proofs.Formula.Discount

/-!
# Discounts are arithmetic on stored numbers

A stored price and a stored target go through decimals, and nothing of that shows in the answer.
The price after a discount is `shopPriceOf`, a division of whole numbers rounded half up; the
rate between two prices is `rateHundredths`, and it is accepted when it is strictly between zero
and the precision. No target makes the arithmetic fail, the "no value" price of -1 included: it
stands for a real price of -1, but its rate is out of range either way (`isRate_asRead`).

From a price of 1000000 on a rate is found again from the price it led to
(`rateHundredths_shopPriceOf`): rounding to a stored price changes the rate by at most half a
hundredth, and half a hundredth too little is rounded up.
-/

namespace RegionPricing.Pricing

open Decimal Formula Batch

/-! ## From a rate to a price -/

/-- The stored price after a discount, rounded half up. -/
def shopPriceOf (p r : ℤ) : ℤ := (p * (10000 - r) + 5000) / 10000

section

variable {p r q : ℤ}

theorem shopPriceOf_bounds (hp : 0 < p) (hr : 0 < r) (hr' : r < 10000) :
    0 ≤ shopPriceOf p r ∧ shopPriceOf p r ≤ p := by
  have h0 : 0 ≤ p * (10000 - r) := mul_nonneg hp.le (by omega)
  have h1 : p * (10000 - r) ≤ p * 9999 := mul_le_mul_of_nonneg_left (by omega) hp.le
  unfold shopPriceOf
  constructor <;> omega

theorem halfAway_discounted (hp : 0 < p) (hr' : r < 10000) :
    halfAway ((p : ℚ) * (10 ^ 4 - r) / 10 ^ 9 * 10 ^ 5) = shopPriceOf p r := by
  have h0 : (0 : ℚ) ≤ (p * (10000 - r) : ℤ) := by
    exact_mod_cast mul_nonneg hp.le (by omega)
  have hcents : (p : ℚ) * (10 ^ 4 - r) / 10 ^ 9 * 10 ^ 5 = (p * (10000 - r) : ℤ) / (10000 : ℕ) := by
    push_cast
    ring
  have hhalf : ((p * (10000 - r) : ℤ) : ℚ) / (10000 : ℕ) + 1 / 2
      = (p * (10000 - r) + 5000 : ℤ) / (10000 : ℕ) := by
    push_cast
    ring
  rw [hcents, halfAway, if_neg (not_lt.mpr (by positivity)), hhalf, Rat.floor_intCast_div_natCast]
  rfl

/-! ## From a price to a rate -/

/-- Prices of zero or less are too far away for a rate. -/
theorem le_rateHundredths (hp : 0 < p) (hq : q ≤ 0) : 10 ^ 6 ≤ rateHundredths p q := by
  have hpq : (0 : ℚ) < p := by exact_mod_cast hp
  have hqq : (q : ℚ) ≤ 0 := by exact_mod_cast hq
  have hmono := halfAway_mono (x := ((10 ^ 6 : ℤ) : ℚ)) (y := ((p : ℚ) - q) * 10 ^ 6 / p) (by
    rw [le_div_iff₀ hpq]
    push_cast
    linarith)
  rwa [halfAway_intCast] at hmono

/-- Prices that are not below the merchant's leave no rate. -/
theorem rateHundredths_nonpos (hp : 0 < p) (hq : p ≤ q) : rateHundredths p q ≤ 0 := by
  have hpq : (0 : ℚ) < p := by exact_mod_cast hp
  have hqq : (p : ℚ) ≤ q := by exact_mod_cast hq
  have hmono := halfAway_mono (x := ((p : ℚ) - q) * 10 ^ 6 / p) (y := ((0 : ℤ) : ℚ)) (by
    rw [div_le_iff₀ hpq]
    push_cast
    linarith)
  rwa [halfAway_intCast] at hmono

/-- From 1000000 on, the rate of the price that a rate leads to is that rate. -/
theorem rateHundredths_shopPriceOf (hp : 1000000 ≤ p) (hr : 0 < r) :
    rateHundredths p (shopPriceOf p r) = 100 * r := by
  have hpq : (1000000 : ℚ) ≤ p := by exact_mod_cast hp
  have hrq : (1 : ℚ) ≤ r := by exact_mod_cast hr
  -- the stored price is less than half a unit below the exact one, and at most half a unit above
  have hlo : p * (10000 - r) - 5000 < 10000 * shopPriceOf p r := by
    unfold shopPriceOf
    omega
  have hhi : 10000 * shopPriceOf p r ≤ p * (10000 - r) + 5000 := by
    unfold shopPriceOf
    omega
  have hloq : (p : ℚ) * (10000 - r) - 5000 < 10000 * shopPriceOf p r := by exact_mod_cast hlo
  have hhiq : (10000 : ℚ) * shopPriceOf p r ≤ p * (10000 - r) + 5000 := by exact_mod_cast hhi
  unfold rateHundredths
  generalize shopPriceOf p r = m at hloq hhiq
  have hbelow : (100 : ℚ) * r - 1 / 2 ≤ ((p : ℚ) - m) * 10 ^ 6 / p := by
    rw [le_div_iff₀ (by linarith)]
    linarith
  have habove : ((p : ℚ) - m) * 10 ^ 6 / p < 100 * r + 1 / 2 := by
    rw [div_lt_iff₀ (by linarith)]
    linarith
  rw [halfAway, if_neg (by linarith), Int.floor_eq_iff]
  push_cast
  constructor <;> linarith

end

/-! ## Answers -/

section

variable (id : Id) (article : ItemModel) {price : Int64}

/-- A positive price is read as it is stored. -/
theorem value_price (hp : 0 < price) :
    (FixedPoint.priceOfRaw price).value = price.toInt / 10 ^ 5 := by
  have hpi : 0 < price.toInt := Int64.lt_iff_toInt_lt.mp hp
  rw [FixedPoint.value_priceOfRaw, FixedPoint.amountOf_eq rfl (by omega)]

theorem priceFromRate_comesTo {r : Int64} (hp : 0 < price) (hr : 0 < r) (hr' : r < 10000) :
    ∃ d, ComesTo (discount ⟨id, article, price, .priceFromRate r⟩) d ∧
      d.shopPrice.toInt = shopPriceOf price.toInt r.toInt ∧ d.rate = ofInt64 r := by
  have hpi : 0 < price.toInt := Int64.lt_iff_toInt_lt.mp hp
  have hri : 0 < r.toInt := Int64.lt_iff_toInt_lt.mp hr
  have hri' : r.toInt < 10000 := Int64.lt_iff_toInt_lt.mp hr'
  have hmax := price.toInt_lt
  obtain ⟨v, hv, hvv⟩ := exists_discountedPrice hpi hmax (value_price hp)
    (value_ofInt64 r) hri hri'
  refine ⟨⟨FixedPoint.rawOfPrice v, ofInt64 r⟩, ?_, ?_, rfl⟩
  · unfold discount
    exact comesTo_bind_iff.mpr ⟨v, hv, comesTo_pure_iff.mpr rfl⟩
  · have hround := halfAway_discounted hpi hri'
    rw [← hvv] at hround
    have hnonneg : 0 ≤ v.value := by
      rw [hvv]
      have h1 : (0 : ℚ) < price.toInt := by exact_mod_cast hpi
      have h2 : (r.toInt : ℚ) < 10 ^ 4 := by exact_mod_cast hri'
      exact div_nonneg (mul_nonneg h1.le (by linarith)) (by norm_num)
    have hle := (shopPriceOf_bounds hpi hri hri').2
    show (FixedPoint.rawOfPrice v).toInt = _
    rw [FixedPoint.rawOfPrice_eq, FixedPoint.toInt_rawOf hnonneg, hround]
    omega

theorem priceFromRate_stops (price : Int64) {r : Int64} (hr : ¬(0 < r ∧ r < 10000)) :
    ∃ f, StopsBy (discount ⟨id, article, price, .priceFromRate r⟩) (.ok f) := by
  have hout : ¬RateInRange (ofInt64 r) FixedPoint.profitPrecision := by
    intro hin
    obtain ⟨h0, h1⟩ := hin
    rw [value_ofInt64] at h0 h1
    refine hr ⟨Int64.lt_iff_toInt_lt.mpr ?_, Int64.lt_iff_toInt_lt.mpr ?_⟩
    · exact_mod_cast h0
    · exact_mod_cast h1
  obtain ⟨f, hf⟩ : ∃ f, StopsBy (discountedPrice (FixedPoint.priceOfRaw price) (ofInt64 r)
      FixedPoint.profitPrecision) (.ok f) := discountedPrice_stops hout
  exact ⟨f, stopsBy_bind_iff.mpr (.inl hf)⟩

/-- The stored price that a price is read as: "no value" is read as -1.00000. -/
def asRead (m : Int64) : ℤ := if m = FixedPoint.unset then -100000 else m.toInt

theorem value_asRead (m : Int64) : (FixedPoint.priceOfRaw m).value = (asRead m : ℚ) / 10 ^ 5 := by
  rw [FixedPoint.value_priceOfRaw]
  unfold FixedPoint.amountOf asRead
  by_cases h : m = FixedPoint.unset
  · rw [if_pos h, if_pos h]
    norm_num
  · rw [if_neg h, if_neg h]

theorem abs_asRead_le (m : Int64) : |asRead m| ≤ 2 ^ 63 := by
  have h0 := m.le_toInt
  have h1 := m.toInt_lt
  unfold asRead
  split
  · norm_num
  · rw [abs_le]
    omega

/-- A rate in hundredths, within range. -/
def IsRate (n : ℤ) : Prop := 0 < n ∧ n < 10 ^ 6

/-- How "no value" is read makes no difference: no rate leads there. -/
theorem isRate_asRead {p : ℤ} (hp : 0 < p) (m : Int64) :
    IsRate (rateHundredths p (asRead m)) ↔ IsRate (rateHundredths p m.toInt) := by
  unfold asRead IsRate
  by_cases h : m = FixedPoint.unset
  · have hm : m.toInt = -1 := by
      rw [h]
      rfl
    have hread := le_rateHundredths hp (q := -100000) (by omega)
    have hstored := le_rateHundredths hp (q := -1) (by omega)
    rw [if_pos h, hm]
    constructor <;> omega
  · rw [if_neg h]

theorem asRead_of_isRate {p : ℤ} {m : Int64} (hp : 0 < p)
    (h : IsRate (rateHundredths p m.toInt)) : 0 < m.toInt ∧ m.toInt < p ∧ asRead m = m.toInt := by
  have hpos : 0 < m.toInt := by
    by_contra hneg
    have := le_rateHundredths hp (not_lt.mp hneg)
    have := h.2
    omega
  have hlt : m.toInt < p := by
    by_contra hge
    have := rateHundredths_nonpos hp (not_lt.mp hge)
    have := h.1
    omega
  refine ⟨hpos, hlt, if_neg ?_⟩
  intro hunset
  have hm : m.toInt = -1 := by
    rw [hunset]
    rfl
  omega

theorem rateInRange_iff {rate : Decimal} {n : ℤ} (h : rate.value = (n : ℚ) / 10 ^ 2) :
    RateInRange rate FixedPoint.profitPrecision ↔ IsRate n := by
  unfold RateInRange IsRate
  rw [h, ← value_ofInt64, value_profitPrecision, lt_div_iff₀ (by norm_num),
    div_lt_iff₀ (by norm_num)]
  norm_num
  intro _
  exact_mod_cast Iff.rfl

theorem rateFromPrice_comesTo {m : Int64} (hp : 0 < price)
    (h : IsRate (rateHundredths price.toInt m.toInt)) :
    ∃ rate : Decimal, rate.value = (rateHundredths price.toInt m.toInt : ℚ) / 10 ^ 2 ∧
      ComesTo (discount ⟨id, article, price, .rateFromPrice m⟩) ⟨m, rate⟩ := by
  have hpi : 0 < price.toInt := Int64.lt_iff_toInt_lt.mp hp
  have hmax := price.toInt_lt
  obtain ⟨rate, hrate, hin, _⟩ := exists_discountRate hpi hmax (abs_asRead_le m)
    (value_price hp) (value_asRead m)
  rw [(asRead_of_isRate hpi h).2.2] at hrate
  have hrun := hin ((rateInRange_iff hrate).mpr h)
  exact ⟨rate, hrate, comesTo_bind_iff.mpr ⟨rate, hrun, comesTo_pure_iff.mpr rfl⟩⟩

theorem rateFromPrice_stops {m : Int64} (hp : 0 < price)
    (h : ¬IsRate (rateHundredths price.toInt m.toInt)) :
    ∃ f, StopsBy (discount ⟨id, article, price, .rateFromPrice m⟩) (.ok f) := by
  have hpi : 0 < price.toInt := Int64.lt_iff_toInt_lt.mp hp
  have hmax := price.toInt_lt
  obtain ⟨rate, hrate, _, hout⟩ := exists_discountRate hpi hmax (abs_asRead_le m)
    (value_price hp) (value_asRead m)
  rw [← isRate_asRead hpi] at h
  obtain ⟨f, hf⟩ := hout (mt (rateInRange_iff hrate).mp h)
  exact ⟨f, stopsBy_bind_iff.mpr (.inl hf)⟩

/-! ## Which targets have an answer, and which answer -/

variable {d : Discount}

theorem priceFromRate_iff {r : Int64} (hp : 0 < price) :
    (∃ d, ComesTo (discount ⟨id, article, price, .priceFromRate r⟩) d) ↔ 0 < r ∧ r < 10000 := by
  constructor
  · intro ⟨d, hd⟩
    by_contra hr
    obtain ⟨f, hf⟩ := priceFromRate_stops id article price hr
    exact hd.not_stopsBy hf
  · intro ⟨hr, hr'⟩
    obtain ⟨d, hd, _⟩ := priceFromRate_comesTo id article hp hr hr'
    exact ⟨d, hd⟩

theorem of_priceFromRate {r : Int64} (hp : 0 < price)
    (hd : ComesTo (discount ⟨id, article, price, .priceFromRate r⟩) d) :
    d.shopPrice.toInt = shopPriceOf price.toInt r.toInt ∧
      0 ≤ d.shopPrice ∧ d.shopPrice ≤ price ∧ d.rate = ofInt64 r := by
  obtain ⟨hr, hr'⟩ := (priceFromRate_iff id article hp).mp ⟨d, hd⟩
  obtain ⟨d', hd', hprice, hrate⟩ :=
    priceFromRate_comesTo id article hp hr hr'
  obtain rfl : d = d' := hd.unique hd'
  obtain ⟨h0, hle⟩ := shopPriceOf_bounds (Int64.lt_iff_toInt_lt.mp hp)
    (Int64.lt_iff_toInt_lt.mp hr) (Int64.lt_iff_toInt_lt.mp hr')
  refine ⟨hprice, Int64.le_iff_toInt_le.mpr ?_, Int64.le_iff_toInt_le.mpr ?_, hrate⟩
  · rw [hprice]
    exact h0
  · rw [hprice]
    exact hle

theorem rateFromPrice_iff {m : Int64} (hp : 0 < price) :
    (∃ d, ComesTo (discount ⟨id, article, price, .rateFromPrice m⟩) d) ↔
      IsRate (rateHundredths price.toInt m.toInt) := by
  constructor
  · intro ⟨d, hd⟩
    by_contra hm
    obtain ⟨f, hf⟩ := rateFromPrice_stops id article hp hm
    exact hd.not_stopsBy hf
  · intro hm
    obtain ⟨rate, _, hd⟩ := rateFromPrice_comesTo id article hp hm
    exact ⟨_, hd⟩

theorem of_rateFromPrice {m : Int64} (hp : 0 < price)
    (hd : ComesTo (discount ⟨id, article, price, .rateFromPrice m⟩) d) :
    d.shopPrice = m ∧ d.rate.value = (rateHundredths price.toInt m.toInt : ℚ) / 100 ∧
      0 < m ∧ m < price := by
  have hm := (rateFromPrice_iff id article hp).mp ⟨d, hd⟩
  obtain ⟨rate, hrate, hd'⟩ := rateFromPrice_comesTo id article hp hm
  obtain rfl : d = ⟨m, rate⟩ := hd.unique hd'
  obtain ⟨h0, hlt, _⟩ := asRead_of_isRate (Int64.lt_iff_toInt_lt.mp hp) hm
  refine ⟨rfl, ?_, Int64.lt_iff_toInt_lt.mpr h0, Int64.lt_iff_toInt_lt.mpr hlt⟩
  show rate.value = _
  rw [hrate]
  norm_num

/-- No target makes the arithmetic fail. -/
theorem discount_no_fault {target : DiscountTarget} {fault : Fault} (hp : 0 < price) :
    ¬StopsBy (discount ⟨id, article, price, target⟩) (.error fault) := by
  intro hfault
  cases target with
  | priceFromRate r =>
    have hr : ¬(0 < r ∧ r < 10000) := by
      intro hr
      obtain ⟨d, hd⟩ := (priceFromRate_iff id article hp).mpr hr
      exact hd.not_stopsBy hfault
    obtain ⟨f, hf⟩ := priceFromRate_stops id article price hr
    cases hf.unique hfault
  | rateFromPrice m =>
    have hm : ¬IsRate (rateHundredths price.toInt m.toInt) := by
      intro hm
      obtain ⟨d, hd⟩ := (rateFromPrice_iff id article hp).mpr hm
      exact hd.not_stopsBy hfault
    obtain ⟨f, hf⟩ := rateFromPrice_stops id article hp hm
    cases hf.unique hfault

/-- From 1000000 on, the rate of the price that a rate leads to is that rate. -/
theorem there_and_back {r : Int64} (hp : 1000000 ≤ price) (hr : 0 < r) (hr' : r < 10000) :
    ∃ d d', ComesTo (discount ⟨id, article, price, .priceFromRate r⟩) d ∧
      ComesTo (discount ⟨id, article, price, .rateFromPrice d.shopPrice⟩) d' ∧
      d'.shopPrice = d.shopPrice ∧ d'.rate.value = r.toInt := by
  have hpi : 1000000 ≤ price.toInt := Int64.le_iff_toInt_le.mp hp
  have hpos : 0 < price := Int64.lt_iff_toInt_lt.mpr (lt_of_lt_of_le (by decide) hpi)
  have hri : 0 < r.toInt := Int64.lt_iff_toInt_lt.mp hr
  have hri' : r.toInt < 10000 := Int64.lt_iff_toInt_lt.mp hr'
  obtain ⟨d, hd, hprice, _⟩ := priceFromRate_comesTo id article hpos hr hr'
  have hback : rateHundredths price.toInt d.shopPrice.toInt = 100 * r.toInt := by
    rw [hprice]
    exact rateHundredths_shopPriceOf hpi hri
  have hin : IsRate (rateHundredths price.toInt d.shopPrice.toInt) := by
    rw [hback]
    unfold IsRate
    omega
  obtain ⟨rate, hrate, hd'⟩ := rateFromPrice_comesTo id article hpos hin
  refine ⟨d, _, hd, hd', rfl, ?_⟩
  show rate.value = _
  rw [hrate, hback]
  push_cast
  ring

end

/-- A positive price has an answer for every target, and the answer is that of whole numbers. A
rate is accepted strictly between zero and the precision, and leads to the price less its
share, rounded half up. A price is accepted when its rate, rounded half away from zero to two
places, lies strictly between zero and the precision; then the price lies strictly between zero
and the merchant's. And from 1000000 on, the rate of the price that a rate leads to is that
rate. -/
theorem discount_exact (id : Id) (article : ItemModel) {price : Int64} (hp : 0 < price) :
    (∀ target fault, (discount ⟨id, article, price, target⟩).run ≠ .error fault) ∧
    (∀ r : Int64,
      ((∃ d, (discount ⟨id, article, price, .priceFromRate r⟩).run = .ok (.ok d)) ↔
        0 < r ∧ r < 10000) ∧
      ∀ d, (discount ⟨id, article, price, .priceFromRate r⟩).run = .ok (.ok d) →
        d.shopPrice.toInt = (price.toInt * (10000 - r.toInt) + 5000) / 10000 ∧
        0 ≤ d.shopPrice ∧ d.shopPrice ≤ price ∧ d.rate = ofInt64 r) ∧
    (∀ m : Int64,
      ((∃ d, (discount ⟨id, article, price, .rateFromPrice m⟩).run = .ok (.ok d)) ↔
        IsRate (rateHundredths price.toInt m.toInt)) ∧
      ∀ d, (discount ⟨id, article, price, .rateFromPrice m⟩).run = .ok (.ok d) →
        d.shopPrice = m ∧ d.rate.value = (rateHundredths price.toInt m.toInt : ℚ) / 100 ∧
        0 < m ∧ m < price) ∧
    (1000000 ≤ price → ∀ r : Int64, 0 < r → r < 10000 →
      ∃ d d', (discount ⟨id, article, price, .priceFromRate r⟩).run = .ok (.ok d) ∧
        (discount ⟨id, article, price, .rateFromPrice d.shopPrice⟩).run = .ok (.ok d') ∧
        d'.shopPrice = d.shopPrice ∧ d'.rate.value = r.toInt) := by
  refine ⟨?_, ?_, ?_, ?_⟩
  · intro target fault hfault
    exact discount_no_fault id article hp hfault
  · intro r
    exact ⟨priceFromRate_iff id article hp, fun d hd => of_priceFromRate id article hp hd⟩
  · intro m
    exact ⟨rateFromPrice_iff id article hp, fun d hd => of_rateFromPrice id article hp hd⟩
  · intro hlarge r hr hr'
    exact there_and_back id article hlarge hr hr'

/-- Half of 1000001 is rounded up to 500001, whose rate is 4999.995 and a little more. -/
theorem discount_exact_half :
    0 < (1000001 : Int64) ∧
      ∃ d d', (discount ⟨1, ⟨1, 1⟩, 1000001, .priceFromRate 5000⟩).run = .ok (.ok d) ∧
        d.shopPrice.toInt = 500001 ∧
        (discount ⟨1, ⟨1, 1⟩, 1000001, .rateFromPrice d.shopPrice⟩).run = .ok (.ok d') ∧
        d'.rate.value = 5000 := by
  have hp : 0 < (1000001 : Int64) := by decide
  obtain ⟨_, hprice, _, hback⟩ := discount_exact 1 ⟨1, 1⟩ hp
  obtain ⟨d, d', hd, hd', _, hrate⟩ := hback (by decide) 5000 (by decide) (by decide)
  refine ⟨hp, d, d', hd, ?_, hd', ?_⟩
  · rw [((hprice 5000).2 d hd).1]
    decide
  · have hr : (5000 : Int64).toInt = 5000 := by decide
    rw [hrate, hr]
    norm_num

/-- Of 999999 half is rounded up too, but its rate is not. -/
example : (value? (discount ⟨1, ⟨1, 1⟩, 999999, .priceFromRate 5000⟩)).map (·.shopPrice)
      = some 500000 ∧
    (value? (discount ⟨1, ⟨1, 1⟩, 999999, .rateFromPrice 500000⟩)).map (·.rate.canonical)
      = some "4999.99" := by
  decide +kernel

end RegionPricing.Pricing
