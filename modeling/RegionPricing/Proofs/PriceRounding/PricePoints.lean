import RegionPricing.Proofs.FixedPoint
import RegionPricing.Proofs.PriceRounding

/-!
# The nearest price point above

A price goes to the least price point that lies above the price less the tolerance
(`pricePoint_isLeast`), because the steps and the tolerance fit together: two neighbouring price
points are a hundredth apart or more, and no tolerance is greater than that. With no decimal
places the two are equal; then a price never goes to the next whole number, and the whole number
still is not reached from the 0.99 below it.

So a price point stays where it is (`pricePoint_self`), and the bound of 10^26 that the last sum
needs is kept: a decimal in the last unit below it has two places at most, and 0.99 is
within them (`pricePoint_lt`).
-/

namespace RegionPricing.PriceRounding

open Decimal

/-- What price points are above a whole number. -/
def offsets : List ℚ := [0, 1 / 2, 9 / 10, 99 / 100]

/-- A number of the grid that prices go to. -/
def IsPricePoint (y : ℚ) : Prop := ∃ n : ℕ, ∃ f ∈ offsets, y = n + f

section

variable {ε f frac x y : ℚ}

/-! ## Steps -/

theorem offset_cases (h : f ∈ offsets) : f = 0 ∨ f = 1 / 2 ∨ f = 9 / 10 ∨ f = 99 / 100 := by
  simpa [offsets] using h

theorem offset_bounds (h : f ∈ offsets) : 0 ≤ f ∧ f ≤ 99 / 100 := by
  rcases offset_cases h with h0 | h0 | h0 | h0
  all_goals
    rw [h0]
    norm_num

/-- A step is an offset, or leads to the next whole number. -/
theorem step_cases (ε frac : ℚ) : step ε frac ∈ offsets ∨ step ε frac = 1 := by
  unfold step offsets
  split_ifs
  all_goals simp

/-- A step leads above the fraction less the tolerance. -/
theorem sub_lt_step (h1 : frac < 1) (hε : 0 < ε) : frac - ε < step ε frac := by
  unfold step
  split_ifs
  all_goals linarith

/-- No offset above the fraction less the tolerance is passed over. -/
theorem step_le_offset (hf : f ∈ offsets) (h : frac < f + ε) : step ε frac ≤ f := by
  unfold step
  rcases offset_cases hf with h0 | h0 | h0 | h0
  all_goals
    rw [h0] at h ⊢
    split_ifs
    all_goals linarith

/-- An offset is its own step. -/
theorem step_offset (hε : 0 < ε) (hε' : ε ≤ 1 / 100) (hf : f ∈ offsets) : step ε f = f := by
  apply le_antisymm
  · exact step_le_offset hf (by linarith)
  · -- a smaller offset is below the fraction by more than the tolerance
    unfold step
    rcases offset_cases hf with h0 | h0 | h0 | h0
    all_goals
      rw [h0]
      split_ifs
      all_goals linarith

/-! ## Price points -/

theorem isPricePoint_pricePoint (h0 : 0 ≤ x) : IsPricePoint (pricePoint ε x) := by
  obtain ⟨n, hn⟩ := Int.eq_ofNat_of_zero_le (Int.floor_nonneg.mpr h0)
  have hfloor : (⌊x⌋ : ℚ) = n := by
    rw [hn]
    rfl
  unfold pricePoint
  rw [hfloor]
  rcases step_cases ε (Int.fract x) with hstep | hstep
  · exact ⟨n, _, hstep, rfl⟩
  · refine ⟨n + 1, 0, by simp [offsets], ?_⟩
    rw [hstep]
    push_cast
    ring

theorem sub_lt_pricePoint (hε : 0 < ε) : x - ε < pricePoint ε x := by
  have hstep := sub_lt_step (Int.fract_lt_one x) hε
  have hsplit := Int.floor_add_fract x
  unfold pricePoint
  linarith

theorem pricePoint_le (hε : ε ≤ 1 / 100) (hy : IsPricePoint y) (h : x - ε < y) :
    pricePoint ε x ≤ y := by
  obtain ⟨n, f, hf, rfl⟩ := hy
  have hsplit := Int.floor_add_fract x
  have hfract := Int.fract_nonneg x
  obtain ⟨hf0, hf1⟩ := offset_bounds hf
  unfold pricePoint
  rcases lt_trichotomy (n : ℤ) ⌊x⌋ with hlt | heq | hgt
  · -- below the whole number even 0.99 is too far away
    exfalso
    have hle : ((n : ℤ) : ℚ) + 1 ≤ ⌊x⌋ := by exact_mod_cast hlt
    push_cast at hle
    linarith
  · have hn : (⌊x⌋ : ℚ) = n := by
      rw [← heq]
      rfl
    have hbelow : Int.fract x < f + ε := by linarith
    have hstep := step_le_offset hf hbelow
    linarith
  · have hle : (⌊x⌋ : ℚ) + 1 ≤ ((n : ℤ) : ℚ) := by exact_mod_cast hgt
    push_cast at hle
    linarith [step_le_one ε (Int.fract x)]

theorem pricePoint_isLeast (hε : 0 < ε) (hε' : ε ≤ 1 / 100) (h0 : 0 ≤ x) :
    IsLeast {y | IsPricePoint y ∧ x - ε < y} (pricePoint ε x) := by
  refine ⟨⟨isPricePoint_pricePoint h0, sub_lt_pricePoint hε⟩, ?_⟩
  intro y hy
  exact pricePoint_le hε' hy.1 hy.2

theorem pricePoint_self (hε : 0 < ε) (hε' : ε ≤ 1 / 100) (hy : IsPricePoint y) :
    pricePoint ε y = y := by
  obtain ⟨n, f, hf, rfl⟩ := hy
  obtain ⟨hf0, hf1⟩ := offset_bounds hf
  have hfloor : ⌊(n : ℚ) + f⌋ = n := by
    rw [Int.floor_eq_iff]
    push_cast
    constructor <;> linarith
  have hfract : Int.fract ((n : ℚ) + f) = f := by
    unfold Int.fract
    rw [hfloor]
    push_cast
    ring
  unfold pricePoint
  rw [hfloor, hfract, step_offset hε hε' hf]
  push_cast
  rfl

end

/-! ## The price points of decimals -/

theorem toleranceOf_le (places : UInt32) : toleranceOf places ≤ 1 / 100 := by
  have hplaces : 2 ≤ min (places.toNat + 2) 28 := by omega
  have hpow : (10 : ℚ) ^ 2 ≤ 10 ^ min (places.toNat + 2) 28 :=
    pow_le_pow_right₀ (by norm_num) hplaces
  unfold toleranceOf
  rw [div_le_div_iff₀ (by positivity) (by norm_num)]
  linarith

section

variable {price r x y a b : Decimal} {places : UInt32}

/-- In the last unit below 10^26 a decimal has two places at most. -/
theorem hasPlaces_of_lastUnit (h : 10 ^ 26 - 1 ≤ price.value) : HasPlaces 2 price.value := by
  refine (HasPlaces.value price).mono ?_
  by_contra hscale
  have hpow : (10 : ℚ) ^ 3 ≤ 10 ^ price.scale := pow_le_pow_right₀ (by norm_num) (by omega)
  have hlt := price.abs_value_mul_pow_lt
  rw [abs_of_nonneg (by linarith)] at hlt
  have hle : (10 ^ 26 - 1) * (10 : ℚ) ^ 3 ≤ price.value * 10 ^ price.scale :=
    mul_le_mul h hpow (by norm_num) (by linarith)
  unfold limit at hlt
  norm_num at hle hlt
  linarith

/-- Below 10^26 a price goes to a price point below 10^26. -/
theorem pricePoint_lt {ε : ℚ} (hε : 0 < ε) (h26 : price.value < 10 ^ 26) :
    pricePoint ε price.value < 10 ^ 26 := by
  have hfloor := Int.floor_le price.value
  have hsplit := Int.floor_add_fract price.value
  unfold pricePoint
  by_cases hlast : 10 ^ 26 - 1 ≤ price.value
  · -- two places leave 0.99 at most
    obtain ⟨m, hm⟩ := (hasPlaces_of_lastUnit hlast).sub (HasPlaces.intCast ⌊price.value⌋)
    have hfract : Int.fract price.value * 10 ^ 2 = m := hm
    have hm1 : (m : ℚ) < 100 := by linarith [Int.fract_lt_one price.value]
    have hm2 : (m : ℚ) ≤ 99 := by
      have hlt : m < 100 := by exact_mod_cast hm1
      exact_mod_cast (by omega : m ≤ 99)
    have hoffset : (99 / 100 : ℚ) ∈ offsets := by simp [offsets]
    have hbelow : Int.fract price.value < 99 / 100 + ε := by linarith
    have hstep := step_le_offset hoffset hbelow
    have hwhole : (⌊price.value⌋ : ℚ) ≤ 10 ^ 26 - 1 := by
      have hlt : ((⌊price.value⌋ : ℤ) : ℚ) < ((10 ^ 26 : ℤ) : ℚ) := by
        push_cast
        linarith
      have hle : ⌊price.value⌋ ≤ 10 ^ 26 - 1 := by
        have : ⌊price.value⌋ < 10 ^ 26 := by exact_mod_cast hlt
        omega
      exact_mod_cast hle
    linarith
  · linarith [step_le_one ε (Int.fract price.value)]

theorem toPricePoint_isLeast (h0 : 0 < price.value) (h26 : price.value < 10 ^ 26)
    (hp : places.toNat + 2 < 4294967296) : ∃ r, toPricePoint price places = .ok r ∧
      IsLeast {y | IsPricePoint y ∧ price.value - toleranceOf places < y} r.value := by
  obtain ⟨r, hr, hv⟩ := exists_toPricePoint h0 h26 hp
  refine ⟨r, hr, ?_⟩
  rw [hv]
  exact pricePoint_isLeast (toleranceOf_pos places) (toleranceOf_le places) h0.le

/-- A second time nothing happens. -/
theorem toPricePoint_again (h26 : price.value < 10 ^ 26) (hr : toPricePoint price places = .ok r) :
    ∃ r', toPricePoint r places = .ok r' ∧ r'.value = r.value := by
  by_cases h0 : 0 < r.value
  · have hpos : 0 < price.value := by
      by_contra hneg
      rw [toPricePoint_of_not_pos hneg, Except.ok.injEq] at hr
      exact hneg (hr ▸ h0)
    have hv := value_toPricePoint hpos.le h26 hr
    have hlt : r.value < 10 ^ 26 := hv ▸ pricePoint_lt (toleranceOf_pos places) h26
    obtain ⟨r', hr', hv'⟩ := exists_toPricePoint h0 hlt (places_of_toPricePoint hpos hr)
    refine ⟨r', hr', ?_⟩
    rw [hv', hv]
    exact pricePoint_self (toleranceOf_pos places) (toleranceOf_le places)
      (isPricePoint_pricePoint hpos.le)
  · exact ⟨r, toPricePoint_of_not_pos h0, rfl⟩

/-- A price is not lowered by the tolerance. -/
theorem sub_lt_of_toPricePoint (h26 : price.value < 10 ^ 26)
    (hr : toPricePoint price places = .ok r) : price.value - toleranceOf places < r.value := by
  by_cases h0 : 0 < price.value
  · rw [value_toPricePoint h0.le h26 hr]
    exact sub_lt_pricePoint (toleranceOf_pos places)
  · rw [toPricePoint_of_not_pos h0, Except.ok.injEq] at hr
    rw [hr]
    linarith [toleranceOf_pos places]

theorem toPricePoint_mono (hab : a.value ≤ b.value) (h26 : b.value < 10 ^ 26)
    (hx : toPricePoint a places = .ok x) (hy : toPricePoint b places = .ok y) :
    x.value ≤ y.value := by
  by_cases ha : 0 ≤ a.value
  · rw [value_toPricePoint ha (lt_of_le_of_lt hab h26) hx,
      value_toPricePoint (ha.trans hab) h26 hy]
    exact pricePoint_mono hab
  · -- below zero prices stay as they are, and above it they do not fall below it
    rw [toPricePoint_of_not_pos (by linarith), Except.ok.injEq] at hx
    rw [← hx]
    by_cases hb : 0 < b.value
    · have hfloor : (0 : ℚ) ≤ ⌊b.value⌋ := by exact_mod_cast Int.floor_nonneg.mpr hb.le
      linarith [floor_le_of_toPricePoint hb.le hy]
    · rw [toPricePoint_of_not_pos hb, Except.ok.injEq] at hy
      rwa [← hy]

end

/-- With up to 2^32 - 3 places and below 10^26, a positive price goes to the least price point
above the price less the tolerance, and any other price stays as it is. So a second time nothing
happens, no price is lowered by the tolerance, and prices keep their order. -/
theorem toPricePoint_least {places : UInt32} (hp : places.toNat < 2 ^ 32 - 2) :
    (∀ price : Decimal, 0 < price.value → price.value < 10 ^ 26 →
      ∃ r, toPricePoint price places = .ok r ∧
        IsLeast {y | IsPricePoint y ∧ price.value - toleranceOf places < y} r.value) ∧
    (∀ price : Decimal, price.value ≤ 0 → toPricePoint price places = .ok price) ∧
    (∀ price : Decimal, price.value < 10 ^ 26 → ∃ r r', toPricePoint price places = .ok r ∧
      price.value - toleranceOf places < r.value ∧
      toPricePoint r places = .ok r' ∧ r'.value = r.value) ∧
    ∀ a b x y : Decimal, a.value ≤ b.value → b.value < 10 ^ 26 →
      toPricePoint a places = .ok x → toPricePoint b places = .ok y → x.value ≤ y.value := by
  have hplaces : places.toNat + 2 < 4294967296 := by omega
  refine ⟨?_, ?_, ?_, ?_⟩
  · intro price h0 h26
    exact toPricePoint_isLeast h0 h26 hplaces
  · intro price h0
    exact toPricePoint_of_not_pos h0.not_gt
  · intro price h26
    have hok : ∃ r, toPricePoint price places = .ok r := by
      by_cases h0 : 0 < price.value
      · obtain ⟨r, hr, _⟩ := exists_toPricePoint h0 h26 hplaces
        exact ⟨r, hr⟩
      · exact ⟨price, toPricePoint_of_not_pos h0⟩
    obtain ⟨r, hr⟩ := hok
    obtain ⟨r', hr', hv⟩ := toPricePoint_again h26 hr
    exact ⟨r, r', hr, sub_lt_of_toPricePoint h26 hr, hr', hv⟩
  · intro a b x y hab h26 hx hy
    exact toPricePoint_mono hab h26 hx hy

/-! Without decimal places the tolerance is 0.01, and between 0.90 and 0.91 prices stay at 0.90. -/

/-- A price of 10.91. -/
def nextAbove : Decimal := FixedPoint.priceOfRaw 1091000

theorem value_nextAbove : nextAbove.value = 1091 / 100 := by
  have hraw : (1091000 : Int64).toInt = 1091000 := by decide
  rw [nextAbove, FixedPoint.value_priceOfRaw, FixedPoint.amountOf_eq rfl (by decide), hraw]
  norm_num

theorem toPricePoint_least_noPlaces :
    ((0 : UInt32).toNat < 2 ^ 32 - 2) ∧ 0 < nextAbove.value ∧ nextAbove.value < 10 ^ 26 ∧
      ∃ r r', toPricePoint nextAbove 0 = .ok r ∧ r.value = 1099 / 100 ∧
        IsLeast {y | IsPricePoint y ∧ nextAbove.value - toleranceOf 0 < y} r.value ∧
        toPricePoint r 0 = .ok r' ∧ r'.value = r.value ∧
        ∀ x, toPricePoint one 0 = .ok x → x.value ≤ r.value := by
  have hp : (0 : UInt32).toNat < 2 ^ 32 - 2 := by decide
  have h0 : 0 < nextAbove.value := by
    rw [value_nextAbove]
    norm_num
  have h26 : nextAbove.value < 10 ^ 26 := by
    rw [value_nextAbove]
    norm_num
  obtain ⟨hleast, _, hagain, hmono⟩ := toPricePoint_least hp
  obtain ⟨r, hr, hmin⟩ := hleast nextAbove h0 h26
  obtain ⟨r₁, r', hr₁, _, hr', hv⟩ := hagain nextAbove h26
  rw [hr, Except.ok.injEq] at hr₁
  rw [← hr₁] at hr' hv
  refine ⟨hp, h0, h26, r, r', hr, ?_, hmin, hr', hv, ?_⟩
  · -- the whole number and 0.9 are too far below
    have hfloor : ⌊(1091 / 100 : ℚ)⌋ = 10 := by
      rw [Int.floor_eq_iff]
      norm_num
    have hplaces : (0 : UInt32).toNat = 0 := by decide
    rw [value_toPricePoint h0.le h26 hr, value_nextAbove, pricePoint, Int.fract, hfloor, step,
      toleranceOf, hplaces]
    norm_num
  · intro x hx
    refine hmono one nextAbove x r ?_ h26 hx hr
    rw [value_one, value_nextAbove]
    norm_num

end RegionPricing.PriceRounding
