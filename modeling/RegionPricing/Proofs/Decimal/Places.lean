import RegionPricing.Proofs.Decimal.Nearest

/-!
# Rounding to places, on values

`roundUp` takes a value to the next multiple of a unit above it, `roundHalfAway`
to the nearest one, and `truncInt` drops the fraction. None of them can fail, and
each depends on the value alone: a decimal that is left as it is lies on a multiple
already.

`roundedUp_eq_of_near` is the fact that lets an inexact computation have an exact
price: an error smaller than the distance to every multiple of the unit does not
show once the price is rounded up.
-/

namespace RegionPricing.Decimal

/-! ## Up to the next unit -/

/-- `x` rounded up to `k` decimal places. -/
def roundedUp (k : ℕ) (x : ℚ) : ℚ := ⌈x * 10 ^ k⌉ / 10 ^ k

theorem roundedUp_eq_self {k : ℕ} {x : ℚ} (h : HasPlaces k x) : roundedUp k x = x := by
  obtain ⟨m, hm⟩ := h
  rw [roundedUp, hm, Int.ceil_intCast, ← hm]
  exact mul_div_cancel_right₀ _ (by positivity)

theorem roundedUp_hasPlaces (k : ℕ) (x : ℚ) : HasPlaces k (roundedUp k x) := HasPlaces.div_pow _ k

theorem le_roundedUp (k : ℕ) (x : ℚ) : x ≤ roundedUp k x := by
  rw [roundedUp, le_div_iff₀ (by positivity)]
  exact Int.le_ceil _

theorem roundedUp_lt (k : ℕ) (x : ℚ) : roundedUp k x < x + 1 / 10 ^ k := by
  have hpow : (0 : ℚ) < 10 ^ k := by positivity
  rw [roundedUp, div_lt_iff₀ hpow, add_mul, one_div_mul_cancel hpow.ne']
  exact Int.ceil_lt_add_one _

theorem roundedUp_mono {k : ℕ} {x y : ℚ} (h : x ≤ y) : roundedUp k x ≤ roundedUp k y := by
  have hpow : (0 : ℚ) < 10 ^ k := by positivity
  rw [roundedUp, roundedUp, div_le_div_iff_of_pos_right hpow, Int.cast_le]
  exact Int.ceil_mono (mul_le_mul_of_nonneg_right h hpow.le)

/-- Rounding up does not go beyond a multiple of the unit. -/
theorem roundedUp_le {k : ℕ} {x y : ℚ} (h : x ≤ y) (hy : HasPlaces k y) : roundedUp k x ≤ y :=
  (roundedUp_mono h).trans_eq (roundedUp_eq_self hy)

/-- Numbers with no multiple of the unit between them, the upper one excluded,
round up alike. -/
theorem roundedUp_eq_of_near {k : ℕ} {x y : ℚ}
    (h : ∀ n : ℤ, (n : ℚ) / 10 ^ k = x → y = x)
    (hnear : ∀ n : ℤ, (n : ℚ) / 10 ^ k ≠ x → |y - x| < |(n : ℚ) / 10 ^ k - x|) :
    roundedUp k y = roundedUp k x := by
  have hpow : (0 : ℚ) < 10 ^ k := by positivity
  by_cases hx : ∃ n : ℤ, (n : ℚ) / 10 ^ k = x
  · obtain ⟨n, hn⟩ := hx
    rw [h n hn]
  · have hne : ∀ n : ℤ, (n : ℚ) / 10 ^ k ≠ x := fun n hn => hx ⟨n, hn⟩
    have hc : ⌈y * 10 ^ k⌉ = ⌈x * 10 ^ k⌉ := by
      -- The multiples on both sides of `x` are farther from it than `y` is.
      have hlo : ((⌈x * 10 ^ k⌉ - 1 : ℤ) : ℚ) / 10 ^ k < x := by
        rw [div_lt_iff₀ hpow]
        push_cast
        linarith [Int.ceil_lt_add_one (x * 10 ^ k)]
      have hhi : x < ((⌈x * 10 ^ k⌉ : ℤ) : ℚ) / 10 ^ k := by
        refine lt_of_le_of_ne ?_ (hne _).symm
        rw [le_div_iff₀ hpow]
        exact Int.le_ceil _
      have h1 := hnear _ (hne (⌈x * 10 ^ k⌉ - 1))
      have h2 := hnear _ (hne ⌈x * 10 ^ k⌉)
      rw [abs_sub_comm (((⌈x * 10 ^ k⌉ - 1 : ℤ) : ℚ) / 10 ^ k), abs_of_pos (sub_pos.mpr hlo)] at h1
      rw [abs_of_pos (sub_pos.mpr hhi)] at h2
      have h1' := (abs_lt.mp h1).1
      have h2' := (abs_lt.mp h2).2
      rw [Int.ceil_eq_iff]
      constructor
      · have : ((⌈x * 10 ^ k⌉ - 1 : ℤ) : ℚ) / 10 ^ k < y := by linarith
        rw [div_lt_iff₀ hpow] at this
        push_cast at this
        linarith
      · have : y < ((⌈x * 10 ^ k⌉ : ℤ) : ℚ) / 10 ^ k := by linarith
        rw [lt_div_iff₀ hpow] at this
        exact this.le
    rw [roundedUp, roundedUp, hc]

/-- Numbers less than a unit apart round up to the same multiple or to neighbours. -/
theorem abs_roundedUp_sub_le {k : ℕ} {x y : ℚ} (h : |y - x| * 10 ^ k < 1) :
    |roundedUp k y - roundedUp k x| ≤ 1 / 10 ^ k := by
  have hpow : (0 : ℚ) < 10 ^ k := by positivity
  rw [← abs_of_pos hpow, ← abs_mul, sub_mul, abs_lt] at h
  have hy1 := Int.le_ceil (y * 10 ^ k)
  have hy2 := Int.ceil_lt_add_one (y * 10 ^ k)
  have hx1 := Int.le_ceil (x * 10 ^ k)
  have hx2 := Int.ceil_lt_add_one (x * 10 ^ k)
  -- Two whole numbers less than two apart are at most one apart.
  have hlt : |⌈y * 10 ^ k⌉ - ⌈x * 10 ^ k⌉| < 2 := by
    have h2 : ((|⌈y * 10 ^ k⌉ - ⌈x * 10 ^ k⌉| : ℤ) : ℚ) < 2 := by
      push_cast
      rw [abs_lt]
      constructor <;> linarith [h.1, h.2]
    exact_mod_cast h2
  have hle : ((|⌈y * 10 ^ k⌉ - ⌈x * 10 ^ k⌉| : ℤ) : ℚ) ≤ 1 := by
    exact_mod_cast (by omega : |⌈y * 10 ^ k⌉ - ⌈x * 10 ^ k⌉| ≤ 1)
  push_cast at hle
  rw [roundedUp, roundedUp, ← sub_div, abs_div, abs_of_pos hpow]
  exact (div_le_div_iff_of_pos_right hpow).mpr hle

theorem ceiling_eq (n : ℤ) (d : ℕ) : ceiling n d = ⌈(n : ℚ) / d⌉ := by
  unfold ceiling
  rw [Int.fdiv_eq_ediv_of_nonneg _ (by omega), ← Rat.floor_intCast_div_natCast]
  push_cast
  rw [neg_div, Int.floor_neg, neg_neg]

theorem value_roundUp (a : Decimal) (k : ℕ) : (a.roundUp k).value = roundedUp k a.value := by
  unfold roundUp
  split
  next h => exact (roundedUp_eq_self ((HasPlaces.value a).mono h)).symm
  next h =>
    have hx : (a.coeff : ℚ) / (powerOfTen (a.scale - k) : ℕ) = a.value * 10 ^ k := by
      have hs : a.scale = (a.scale - k) + k := by omega
      rw [cast_powerOfTen, value]
      conv_rhs => rw [hs, pow_add]
      field_simp
    rw [value_ofCoeff, ceiling_eq, hx, roundedUp]

/-! ## To the nearest unit -/

/-- The whole number nearest to `x`; of two the one farther from zero. -/
def halfAway (x : ℚ) : ℤ := if x < 0 then -⌊-x + 1 / 2⌋ else ⌊x + 1 / 2⌋

theorem halfAway_intCast (n : ℤ) : halfAway n = n := by
  have hfloor : ∀ m : ℤ, ⌊(m : ℚ) + 1 / 2⌋ = m := by
    intro m
    rw [Int.floor_eq_iff]
    constructor <;> linarith
  unfold halfAway
  split
  next => rw [← Int.cast_neg, hfloor, neg_neg]
  next => exact hfloor n

theorem halfAway_near (x : ℚ) : |(halfAway x : ℚ) - x| ≤ 1 / 2 := by
  unfold halfAway
  split
  next =>
    have h1 := Int.floor_le (-x + 1 / 2)
    have h2 := Int.lt_floor_add_one (-x + 1 / 2)
    push_cast
    rw [abs_le]
    constructor <;> linarith
  next =>
    have h1 := Int.floor_le (x + 1 / 2)
    have h2 := Int.lt_floor_add_one (x + 1 / 2)
    rw [abs_le]
    constructor <;> linarith

theorem halfAway_mono {x y : ℚ} (h : x ≤ y) : halfAway x ≤ halfAway y := by
  unfold halfAway
  split
  next hx =>
    split
    next => exact neg_le_neg (Int.floor_mono (by linarith))
    next hy =>
      have h1 : 0 ≤ ⌊-x + 1 / 2⌋ := Int.floor_nonneg.mpr (by linarith)
      have h2 : 0 ≤ ⌊y + 1 / 2⌋ := Int.floor_nonneg.mpr (by linarith)
      omega
  next hx =>
    rw [if_neg (by linarith)]
    exact Int.floor_mono (by linarith)

theorem halfAway_eq_of_abs_lt {x : ℚ} {m : ℤ} (h : |(m : ℚ) - x| < 1 / 2) : halfAway x = m := by
  have hbounds := abs_lt.mp h
  unfold halfAway
  split
  next hneg =>
    have hfloor : ⌊-x + 1 / 2⌋ = -m := by
      rw [Int.floor_eq_iff]
      push_cast
      constructor <;> linarith
    rw [hfloor, neg_neg]
  next hnonneg =>
    rw [Int.floor_eq_iff]
    constructor <;> linarith

/-- A fraction that is no half lies half a unit of its divisor away from all halves, and an error
smaller than that does not show. -/
theorem halfAway_eq_of_near {x y : ℚ} {n d : ℤ} (hd : 0 < d) (hx : x = n / d)
    (htie : ∀ m : ℤ, x = m + 1 / 2 → y = x) (hnear : |y - x| * (2 * d) < 1) :
    halfAway y = halfAway x := by
  have hdq : (0 : ℚ) < 2 * d := by
    have : (0 : ℚ) < d := by exact_mod_cast hd
    linarith
  by_cases hhalf : ∃ m : ℤ, x = m + 1 / 2
  · obtain ⟨m, hm⟩ := hhalf
    rw [htie m hm]
  · apply halfAway_eq_of_abs_lt
    have hle := halfAway_near x
    generalize halfAway x = m at hle
    -- how far the fraction is from its nearest number, in halves of a unit of the divisor
    have hunits : |(m : ℚ) - x| * (2 * d) = (|2 * (m * d - n)| : ℤ) := by
      have hmul : ((m : ℚ) - x) * (2 * d) = (2 * (m * d - n) : ℤ) := by
        have : (d : ℚ) ≠ 0 := by exact_mod_cast hd.ne'
        rw [hx]
        push_cast
        field_simp
      rw [← abs_of_pos hdq, ← abs_mul, hmul, Int.cast_abs]
    have hlt : |(m : ℚ) - x| < 1 / 2 := by
      refine lt_of_le_of_ne hle ?_
      intro heq
      rcases eq_or_eq_neg_of_abs_eq heq with h | h
      · exact hhalf ⟨m - 1, by push_cast; linarith⟩
      · exact hhalf ⟨m, by linarith⟩
    have hgap : (|2 * (m * d - n)| : ℤ) ≤ d - 1 := by
      have hcast : ((|2 * (m * d - n)| : ℤ) : ℚ) < (d : ℤ) := by
        rw [← hunits]
        have := mul_lt_mul_of_pos_right hlt hdq
        linarith
      have : |2 * (m * d - n)| < d := by exact_mod_cast hcast
      omega
    have hfar : |(m : ℚ) - x| * (2 * d) ≤ d - 1 := by
      rw [hunits]
      exact_mod_cast hgap
    have htri : |(m : ℚ) - y| ≤ |(m : ℚ) - x| + |y - x| := by
      rw [abs_sub_comm y x]
      exact abs_sub_le (m : ℚ) x y
    have hsum := mul_le_mul_of_nonneg_right htri hdq.le
    refine lt_of_mul_lt_mul_right ?_ hdq.le
    rw [add_mul] at hsum
    linarith

theorem halfUp_eq (n d : ℕ) : (halfUp n d : ℤ) = ⌊(n : ℚ) / d + 1 / 2⌋ := by
  rcases Nat.eq_zero_or_pos d with rfl | hd
  · norm_num [halfUp]
  · have hq : (n : ℚ) / d + 1 / 2 = ((2 * n + d : ℤ) : ℚ) / (2 * d : ℕ) := by
      have : (d : ℚ) ≠ 0 := by exact_mod_cast hd.ne'
      push_cast
      field_simp
    rw [hq, Rat.floor_intCast_div_natCast, halfUp]
    push_cast
    rfl

theorem value_roundHalfAway (a : Decimal) (k : ℕ) :
    (a.roundHalfAway k).value = halfAway (a.value * 10 ^ k) / 10 ^ k := by
  have hpow : (0 : ℚ) < 10 ^ k := by positivity
  unfold roundHalfAway
  split
  next h =>
    obtain ⟨m, hm⟩ := (HasPlaces.value a).mono h
    rw [hm, halfAway_intCast, ← hm]
    exact (mul_div_cancel_right₀ _ hpow.ne').symm
  next h =>
    have hm : ((a.mantissa : ℕ) : ℚ) / (powerOfTen (a.scale - k) : ℕ)
        = a.mantissa / 10 ^ a.scale * 10 ^ k := by
      have hs : a.scale = (a.scale - k) + k := by omega
      rw [cast_powerOfTen]
      conv_rhs => rw [hs, pow_add]
      field_simp
    have hup := halfUp_eq a.mantissa (powerOfTen (a.scale - k))
    rw [hm] at hup
    have h0 : (0 : ℚ) ≤ a.mantissa / 10 ^ a.scale * 10 ^ k := by positivity
    simp only [value, coeff]
    cases a.negative with
    | false =>
      simp only [Bool.false_eq_true, if_false, Int.cast_natCast]
      rw [halfAway, if_neg (not_lt.mpr h0), ← hup]
      rfl
    | true =>
      simp only [if_true, Int.cast_neg, Int.cast_natCast, neg_div, neg_mul]
      rcases h0.lt_or_eq with hlt | heq
      · rw [halfAway, if_pos (by linarith), neg_neg, ← hup]
        push_cast
        ring
      · -- A negative zero rounds to zero, on whichever side.
        rw [← heq] at hup ⊢
        have hz : halfUp a.mantissa (powerOfTen (a.scale - k)) = 0 := by
          have : (⌊(0 : ℚ) + 1 / 2⌋ : ℤ) = 0 := by norm_num
          omega
        rw [hz]
        norm_num [halfAway]

/-! ## Without the fraction -/

theorem truncInt_eq {a : Decimal} {n : ℤ} (h : a.value = n) : a.truncInt = n := by
  have hc : a.coeff = n * (powerOfTen a.scale : ℕ) := by
    have := a.value_mul_pow
    rw [h, ← cast_powerOfTen] at this
    exact_mod_cast this.symm
  have hpos : (0 : ℤ) < powerOfTen a.scale := by exact_mod_cast powerOfTen_pos a.scale
  rw [truncInt, hc]
  exact Int.mul_tdiv_cancel _ hpos.ne'

theorem value_trunc {a : Decimal} (h : 0 ≤ a.value) : a.trunc.value = ⌊a.value⌋ := by
  have hcoeff : 0 ≤ a.coeff := by
    have : (0 : ℚ) ≤ a.coeff := a.value_mul_pow ▸ mul_nonneg h (by positivity)
    exact_mod_cast this
  have hfloor : a.truncInt = ⌊a.value⌋ := by
    rw [truncInt, Int.tdiv_eq_ediv_of_nonneg hcoeff, ← Rat.floor_intCast_div_natCast,
      cast_powerOfTen, value]
  have hwhole : a.trunc.value = a.truncInt / 10 ^ 0 := value_ofCoeff a.truncInt 0 _ _
  rw [hwhole, hfloor, pow_zero, div_one]

end RegionPricing.Decimal
