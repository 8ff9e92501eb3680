import RegionPricing.Proofs.Decimal.Order
import RegionPricing.Proofs.Decimal.Places
import RegionPricing.Proofs.Evaluation
import RegionPricing.PriceRounding

/-!
# Rounding a price, on values

With decimal places a price is rounded up, whatever its size. With price points it goes to
`pricePoint`: the whole number below it and a step that its fraction decides
(`exists_toPricePoint`). Fraction, tolerance and bounds between the steps never need rounding;
the last sum does once the price has more than 26 digits, and is not below the whole number
then either (`floor_le_of_toPricePoint`).
-/

namespace RegionPricing.PriceRounding

open Decimal

/-! ## Price points -/

/-- What is added to the whole number below a price, for a fraction and a tolerance. -/
def step (ε frac : ℚ) : ℚ :=
  if frac < ε then 0
  else if frac < 1 / 2 + ε then 1 / 2
  else if frac < 9 / 10 + ε then 9 / 10
  else if frac < 99 / 100 + ε then 99 / 100
  else 1

/-- The price point that a price goes to. -/
def pricePoint (ε x : ℚ) : ℚ := ⌊x⌋ + step ε (Int.fract x)

section

variable {ε x y : ℚ}

theorem step_nonneg (ε x : ℚ) : 0 ≤ step ε x := by
  unfold step
  split_ifs <;> norm_num

theorem step_le_one (ε x : ℚ) : step ε x ≤ 1 := by
  unfold step
  split_ifs <;> norm_num

theorem step_mono (h : x ≤ y) : step ε x ≤ step ε y := by
  unfold step
  split_ifs <;> linarith

/-- A greater price does not go to a smaller price point. -/
theorem pricePoint_mono (h : x ≤ y) : pricePoint ε x ≤ pricePoint ε y := by
  unfold pricePoint
  rcases (Int.floor_mono h).lt_or_eq with hlt | heq
  · -- the step does not go beyond the next whole number
    have hnext : (⌊x⌋ : ℚ) + 1 ≤ ⌊y⌋ := by exact_mod_cast hlt
    linarith [step_le_one ε (Int.fract x), step_nonneg ε (Int.fract y)]
  · have hfract : Int.fract x ≤ Int.fract y := by
      unfold Int.fract
      rw [heq]
      linarith
    rw [heq]
    linarith [step_mono (ε := ε) hfract]

end

/-- The tolerance of a number of decimal places. -/
def toleranceOf (places : UInt32) : ℚ := 1 / 10 ^ min (places.toNat + 2) 28

theorem toleranceOf_pos (places : UInt32) : 0 < toleranceOf places := by
  unfold toleranceOf
  positivity

theorem value_half : half.value = 1 / 2 := by
  norm_num [value, half, coeff]

theorem value_ninety : ninety.value = 9 / 10 := by
  norm_num [value, ninety, coeff]

theorem value_ninetyNine : ninetyNine.value = 99 / 100 := by
  norm_num [value, ninetyNine, coeff]

section

variable {price : Decimal} {places : UInt32}

theorem exists_tolerance (hp : places.toNat + 2 < 4294967296) :
    ∃ eps, tolerance places = .ok eps ∧ eps.value = toleranceOf places := by
  refine ⟨pow10Neg (places.toNat + 2), by rw [tolerance, if_pos hp], ?_⟩
  norm_num [value, pow10Neg, coeff, toleranceOf]

/-- The fraction of a price keeps all its digits. -/
theorem exists_fraction (h0 : 0 ≤ price.value) :
    ∃ frac, price.sub price.trunc = .ok frac ∧ frac.value = Int.fract price.value := by
  have hv : price.value - price.trunc.value = Int.fract price.value := by
    rw [value_trunc h0]
    rfl
  have hplaces : HasPlaces price.scale (price.value - price.trunc.value) := by
    rw [value_trunc h0]
    exact (HasPlaces.value price).sub (HasPlaces.intCast _)
  obtain ⟨frac, hfrac, hfv⟩ := exists_sub_eq hplaces price.scale_le (by
    have hpow : (10 : ℚ) ^ price.scale ≤ 10 ^ 28 :=
      pow_le_pow_right₀ (by norm_num) price.scale_le
    rw [hv, abs_of_nonneg (Int.fract_nonneg _)]
    have := mul_le_mul (Int.fract_lt_one price.value).le hpow (by positivity) (by norm_num)
    unfold limit
    norm_num at this ⊢
    linarith)
  exact ⟨frac, hfrac, hfv.trans hv⟩

/-- A bound between two steps keeps all its digits. -/
theorem exists_bound {a eps : Decimal} (ha : HasPlaces 2 a.value) (ha0 : 0 ≤ a.value)
    (ha1 : a.value ≤ 1) (heps : eps.value = toleranceOf places) :
    ∃ b, a.add eps = .ok b ∧ b.value = a.value + toleranceOf places := by
  have hplaces : HasPlaces 28 (toleranceOf places) := by
    have h := HasPlaces.div_pow 1 (min (places.toNat + 2) 28)
    rw [Int.cast_one] at h
    exact h.mono (min_le_right _ _)
  have hone : toleranceOf places ≤ 1 := by
    unfold toleranceOf
    exact div_le_one_of_le₀ (one_le_pow₀ (by norm_num)) (by positivity)
  have hpos := toleranceOf_pos places
  rw [← heps] at hplaces hone hpos ⊢
  refine exists_add_eq ((ha.mono (by omega)).add hplaces) le_rfl ?_
  exact abs_mul_pow_lt_limit (abs_le.mpr ⟨by linarith, by linarith⟩ : _ ≤ (2 : ℚ)) (by norm_num)

theorem toPricePoint_of_not_pos (h : ¬0 < price.value) : toPricePoint price places = .ok price := by
  unfold toPricePoint
  rw [← isPositive_iff, Bool.not_eq_true] at h
  rw [h]
  rfl

/-- A positive price is its whole part, to which the step is added unless there is none. -/
theorem toPricePoint_cases (h0 : 0 < price.value) (hp : places.toNat + 2 < 4294967296) :
    (step (toleranceOf places) (Int.fract price.value) = 0 ∧
        toPricePoint price places = .ok price.trunc) ∨
      ∃ c, c.value = step (toleranceOf places) (Int.fract price.value) ∧ HasPlaces 2 c.value ∧
        toPricePoint price places = price.trunc.add c := by
  have hhalf : HasPlaces 2 half.value := ⟨50, by rw [value_half]; norm_num⟩
  have hninety : HasPlaces 2 ninety.value := ⟨90, by rw [value_ninety]; norm_num⟩
  have hninetyNine : HasPlaces 2 ninetyNine.value := ⟨99, by rw [value_ninetyNine]; norm_num⟩
  obtain ⟨eps, heps, hepsv⟩ := exists_tolerance hp
  obtain ⟨frac, hfrac, hfracv⟩ := exists_fraction h0.le
  obtain ⟨b1, hb1, hv1⟩ := exists_bound hhalf (by rw [value_half]; norm_num)
    (by rw [value_half]; norm_num) hepsv
  obtain ⟨b2, hb2, hv2⟩ := exists_bound hninety (by rw [value_ninety]; norm_num)
    (by rw [value_ninety]; norm_num) hepsv
  obtain ⟨b3, hb3, hv3⟩ := exists_bound hninetyNine (by rw [value_ninetyNine]; norm_num)
    (by rw [value_ninetyNine]; norm_num) hepsv
  rw [value_half] at hv1
  rw [value_ninety] at hv2
  rw [value_ninetyNine] at hv3
  have hpositive : price.isPositive = true := (isPositive_iff price).mpr h0
  unfold toPricePoint step
  simp only [hpositive, Bool.not_true, Bool.false_eq_true, if_false, heps, hfrac, hb1, hb2, hb3,
    ok_bind, lt_iff, hfracv, hepsv, hv1, hv2, hv3]
  split_ifs
  · exact Or.inl ⟨rfl, rfl⟩
  · exact Or.inr ⟨half, value_half, hhalf, by simp⟩
  · exact Or.inr ⟨ninety, value_ninety, hninety, by simp⟩
  · exact Or.inr ⟨ninetyNine, value_ninetyNine, hninetyNine, by simp⟩
  · exact Or.inr ⟨one, value_one, value_one ▸ HasPlaces.one, rfl⟩

/-- Below 10^26 a positive price goes to its price point exactly. -/
theorem exists_toPricePoint (h0 : 0 < price.value) (h26 : price.value < 10 ^ 26)
    (hp : places.toNat + 2 < 4294967296) :
    ∃ r, toPricePoint price places = .ok r ∧
      r.value = pricePoint (toleranceOf places) price.value := by
  have hwhole := value_trunc h0.le
  rcases toPricePoint_cases h0 hp with ⟨hstep, h⟩ | ⟨c, hc, hplaces, h⟩
  · refine ⟨price.trunc, h, ?_⟩
    rw [pricePoint, hstep, add_zero, hwhole]
  · have hfloor0 : (0 : ℚ) ≤ ⌊price.value⌋ := by exact_mod_cast Int.floor_nonneg.mpr h0.le
    have hfloor := Int.floor_le price.value
    have hc0 := step_nonneg (toleranceOf places) (Int.fract price.value)
    have hc1 := step_le_one (toleranceOf places) (Int.fract price.value)
    obtain ⟨r, hr, hv⟩ := exists_add_eq (a := price.trunc) (b := c)
      (by
        rw [hwhole]
        exact (HasPlaces.intCast _).add hplaces)
      (by omega)
      (by
        rw [hwhole, hc]
        exact abs_mul_pow_lt_limit (abs_le.mpr ⟨by linarith, by linarith⟩ : _ ≤ (2 * 10 ^ 26 : ℚ))
          (by norm_num))
    refine ⟨r, h.trans hr, ?_⟩
    rw [hv, hwhole, hc]
    rfl

/-- Only a tolerance beyond all words stops a price that is positive. -/
theorem places_of_toPricePoint {r : Decimal} (h0 : 0 < price.value)
    (h : toPricePoint price places = .ok r) : places.toNat + 2 < 4294967296 := by
  by_contra hp
  have hpositive : price.isPositive = true := (isPositive_iff price).mpr h0
  unfold toPricePoint tolerance at h
  simp [hpositive, hp] at h

theorem add_no_placesOverflow (a b : Decimal) : a.add b ≠ .error .placesOverflow := by
  unfold Decimal.add
  split <;> simp

/-- The places are too many for the price points just when the tolerance is needed and cannot be
computed. -/
theorem toPricePoint_placesOverflow_iff :
    toPricePoint price places = .error .placesOverflow ↔
      0 < price.value ∧ 4294967296 ≤ places.toNat + 2 := by
  by_cases h0 : 0 < price.value
  · by_cases hp : places.toNat + 2 < 4294967296
    · refine iff_of_false ?_ (by omega)
      rcases toPricePoint_cases h0 hp with ⟨_, h⟩ | ⟨c, _, _, h⟩
      · rw [h]
        simp
      · rw [h]
        exact add_no_placesOverflow _ _
    · refine iff_of_true ?_ ⟨h0, not_lt.mp hp⟩
      unfold toPricePoint tolerance
      rw [(isPositive_iff price).mpr h0, if_neg hp]
      rfl
  · rw [toPricePoint_of_not_pos h0]
    simp [h0]

/-- However large, a price does not go below its whole part. -/
theorem floor_le_of_toPricePoint {r : Decimal} (h0 : 0 ≤ price.value)
    (h : toPricePoint price places = .ok r) : (⌊price.value⌋ : ℚ) ≤ r.value := by
  rcases h0.eq_or_lt with hzero | hpos
  · rw [toPricePoint_of_not_pos hzero.not_lt, Except.ok.injEq] at h
    rw [← h]
    exact Int.floor_le _
  · rw [← value_trunc h0]
    rcases toPricePoint_cases hpos (places_of_toPricePoint hpos h) with ⟨_, h'⟩ | ⟨c, hc, _, h'⟩
    · rw [h', Except.ok.injEq] at h
      rw [h]
    · refine (roundsTo_of_add (h'.symm.trans h)).value_le rfl ?_
      rw [hc]
      exact le_add_of_nonneg_right (step_nonneg _ _)

/-- Below 10^26 the price point is what a price that is not negative goes to. -/
theorem value_toPricePoint {r : Decimal} (h0 : 0 ≤ price.value) (h26 : price.value < 10 ^ 26)
    (h : toPricePoint price places = .ok r) :
    r.value = pricePoint (toleranceOf places) price.value := by
  rcases h0.eq_or_lt with hzero | hpos
  · rw [toPricePoint_of_not_pos hzero.not_lt, Except.ok.injEq] at h
    rw [← h, ← hzero, pricePoint, Int.floor_zero, Int.fract_zero, step,
      if_pos (toleranceOf_pos places)]
    norm_num
  · obtain ⟨r', hr', hv⟩ := exists_toPricePoint hpos h26 (places_of_toPricePoint hpos h)
    rw [hr', Except.ok.injEq] at h
    rwa [← h]

end

/-! ## Prices in order -/

section

variable {r : PriceRounding} {a b x y : Decimal}

/-- A price is not rounded below its whole part. -/
theorem floor_le_of_round (h0 : 0 ≤ a.value) (h : r.round a = .ok x) :
    (⌊a.value⌋ : ℚ) ≤ x.value := by
  unfold round at h
  split at h
  next => exact floor_le_of_toPricePoint h0 h
  next =>
    cases h
    rw [toPlaces, value_roundUp]
    exact (Int.floor_le _).trans (le_roundedUp _ _)

/-- Decimal places alone never are too many. -/
theorem round_placesOverflow_iff : r.round a = .error .placesOverflow ↔
    r.pricePoints = true ∧ 0 < a.value ∧ 4294967296 ≤ r.places.toNat + 2 := by
  unfold round
  split
  next h => rw [toPricePoint_placesOverflow_iff, h, eq_self, true_and]
  next h => simp [h]

/-- Of two prices the smaller one is not rounded to the greater one. -/
theorem round_mono (h0 : 0 ≤ a.value) (hab : a.value ≤ b.value) (h26 : b.value < 10 ^ 26)
    (ha : r.round a = .ok x) (hb : r.round b = .ok y) : x.value ≤ y.value := by
  unfold round at ha hb
  split at ha
  next hpoints =>
    rw [if_pos hpoints] at hb
    rw [value_toPricePoint h0 (by linarith) ha, value_toPricePoint (h0.trans hab) h26 hb]
    exact pricePoint_mono hab
  next hplaces =>
    rw [if_neg hplaces] at hb
    cases ha
    cases hb
    rw [toPlaces, toPlaces, value_roundUp, value_roundUp]
    exact roundedUp_mono hab

end

end RegionPricing.PriceRounding
