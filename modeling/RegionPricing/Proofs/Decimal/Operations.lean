import RegionPricing.Proofs.Decimal.Nearest

/-!
# What the operations come to

The result of an operation on decimals is the exact result, rounded (`RoundsTo`),
and there is one as long as the exact result is within the range of decimals. So
there are two ways to use an operation. `exists_add_eq` and its kin: the exact
result has few enough digits, and then it is the result. `exists_add_near` and its
kin: whatever the digits, the result is within `epsilon * (1 + |x|)` of the exact
one.
-/

namespace RegionPricing.Decimal

/-- Whether `m` is `x`, rounded as an operation rounds: to 28 places, or to places
that are enough for `x`. -/
def RoundsTo (m : Option Decimal) (x : ℚ) : Prop :=
  ∃ (n : ℤ) (d bound : ℕ), 0 < d ∧ bound ≤ 28 ∧ (n : ℚ) / d = x ∧ m = ofFraction? n d bound ∧
    (bound = 28 ∨ HasPlaces bound x)

/-- Room for `k` places below a bound. -/
theorem abs_mul_pow_lt_limit {x b : ℚ} {k : ℕ} (hx : |x| ≤ b) (hb : b * 10 ^ k ≤ 79 * 10 ^ 27) :
    |x| * 10 ^ k < limit := by
  have hpow : (0 : ℚ) ≤ 10 ^ k := by positivity
  have hlim : (79 * 10 ^ 27 : ℚ) < limit := by
    unfold limit
    norm_num
  exact lt_of_le_of_lt ((mul_le_mul_of_nonneg_right hx hpow).trans hb) hlim

/-- A number with few digits is within range. -/
theorem HasPlaces.fits {x : ℚ} {k : ℕ} (hk : HasPlaces k x) (hx : |x| * 10 ^ k < limit) :
    Fits x := by
  have hle := hk.abs_mul_pow_le hx
  have hpow : (1 : ℚ) ≤ 10 ^ k := one_le_pow₀ (by norm_num)
  have := mul_le_mul_of_nonneg_left hpow (abs_nonneg x)
  unfold Fits
  linarith

namespace RoundsTo

variable {m : Option Decimal} {x : ℚ} {k : ℕ} {r : Decimal}

theorem exists_some (h : RoundsTo m x) (hx : Fits x) : ∃ r, m = some r := by
  obtain ⟨n, d, bound, hd, _, rfl, rfl, _⟩ := h
  exact exists_ofFraction? hd hx bound

theorem rounds (h : RoundsTo m x) (hr : m = some r) :
    ∃ bound, Rounds x bound r ∧ (bound = 28 ∨ HasPlaces bound x) := by
  obtain ⟨n, d, bound, hd, hb, rfl, rfl, hplaces⟩ := h
  exact ⟨bound, rounds_of_ofFraction? hd hb hr, hplaces⟩

/-- Up to 28 places and 96 bits nothing is lost. -/
theorem exact (h : RoundsTo m x) (hk : HasPlaces k x) (hk28 : k ≤ 28)
    (hx : |x| * 10 ^ k < limit) : ∃ r, m = some r ∧ r.value = x := by
  obtain ⟨r, hr⟩ := h.exists_some (hk.fits hx)
  refine ⟨r, hr, ?_⟩
  obtain ⟨bound, hround, rfl | hbound⟩ := h.rounds hr
  · exact hround.value_eq hk hk28 hx
  · have hpow : (10 : ℚ) ^ min k bound ≤ 10 ^ k :=
      pow_le_pow_right₀ (by norm_num) (min_le_left k bound)
    have hlt := lt_of_le_of_lt (mul_le_mul_of_nonneg_left hpow (abs_nonneg x)) hx
    exact hround.value_eq (hk.inf hbound) (min_le_right k bound) hlt

theorem value_eq (h : RoundsTo m x) (hr : m = some r) (hk : HasPlaces k x) (hk28 : k ≤ 28)
    (hx : |x| * 10 ^ k < limit) : r.value = x := by
  obtain ⟨r', hr', hv⟩ := h.exact hk hk28 hx
  rw [hr, Option.some.injEq] at hr'
  rw [hr', hv]

/-- A decimal is not rounded. -/
theorem exists_eq {a : Decimal} (h : RoundsTo m a.value) : ∃ r, m = some r ∧ r.value = a.value :=
  h.exact (HasPlaces.value a) a.scale_le a.abs_value_mul_pow_lt

/-- Nor is a whole number, as soon as there is a result at all. -/
theorem value_eq_intCast {n : ℤ} (h : RoundsTo m n) (hr : m = some r) : r.value = n := by
  obtain ⟨bound, hround, _⟩ := h.rounds hr
  exact hround.value_eq_of_scale (HasPlaces.intCast n)

theorem near (h : RoundsTo m x) (hx : Fits x) :
    ∃ r, m = some r ∧ |r.value - x| ≤ epsilon * (1 + |x|) := by
  obtain ⟨r, hr⟩ := h.exists_some hx
  obtain ⟨bound, hround, hb⟩ := h.rounds hr
  exact ⟨r, hr, hround.error_le hb⟩

end RoundsTo

/-! ## Sums and differences -/

theorem add?_roundsTo (a b : Decimal) : RoundsTo (a.add? b) (a.value + b.value) := by
  refine ⟨a.coeff * powerOfTen b.scale + b.coeff * powerOfTen a.scale,
    powerOfTen (a.scale + b.scale), Nat.max a.scale b.scale, powerOfTen_pos _,
    Nat.max_le.mpr ⟨a.scale_le, b.scale_le⟩, ?_, rfl, Or.inr ?_⟩
  · push_cast
    rw [cast_powerOfTen, cast_powerOfTen, cast_powerOfTen, pow_add, value, value]
    field_simp
  · exact ((HasPlaces.value a).mono (Nat.le_max_left _ _)).add
      ((HasPlaces.value b).mono (Nat.le_max_right _ _))

theorem sub?_roundsTo (a b : Decimal) : RoundsTo (a.sub? b) (a.value - b.value) := by
  rw [sub_eq_add_neg, ← value_neg]
  exact add?_roundsTo a b.neg

theorem add_eq_ok {a b r : Decimal} (h : a.add? b = some r) : a.add b = .ok r := by
  rw [add, h]

theorem sub_eq_ok {a b r : Decimal} (h : a.sub? b = some r) : a.sub b = .ok r := by
  rw [sub, h]

theorem exists_add_eq {a b : Decimal} {k : ℕ} (hk : HasPlaces k (a.value + b.value))
    (hk28 : k ≤ 28) (hx : |a.value + b.value| * 10 ^ k < limit) :
    ∃ r, a.add b = .ok r ∧ r.value = a.value + b.value := by
  obtain ⟨r, hr, hv⟩ := (add?_roundsTo a b).exact hk hk28 hx
  exact ⟨r, add_eq_ok hr, hv⟩

theorem exists_sub_eq {a b : Decimal} {k : ℕ} (hk : HasPlaces k (a.value - b.value))
    (hk28 : k ≤ 28) (hx : |a.value - b.value| * 10 ^ k < limit) :
    ∃ r, a.sub b = .ok r ∧ r.value = a.value - b.value := by
  obtain ⟨r, hr, hv⟩ := (sub?_roundsTo a b).exact hk hk28 hx
  exact ⟨r, sub_eq_ok hr, hv⟩

theorem exists_sub_near {a b : Decimal} (h : Fits (a.value - b.value)) :
    ∃ r, a.sub b = .ok r ∧
      |r.value - (a.value - b.value)| ≤ epsilon * (1 + |a.value - b.value|) := by
  obtain ⟨r, hr, hv⟩ := (sub?_roundsTo a b).near h
  exact ⟨r, sub_eq_ok hr, hv⟩

/-- A difference that is negative, and not by less than a decimal shows, stays so. -/
theorem exists_sub_neg {a b : Decimal} {k : ℕ} (ha : 0 ≤ a.value) (hab : a.value < b.value)
    (hk : HasPlaces k (a.value - b.value)) (hk28 : k < 28) :
    ∃ r, a.sub b = .ok r ∧ r.value < 0 := by
  have habs : |a.value - b.value| = b.value - a.value := abs_sub_comm a.value b.value ▸
    abs_of_pos (sub_pos.mpr hab)
  have hb := (le_abs_self b.value).trans b.abs_value_le
  obtain ⟨r, hr, hv⟩ := exists_sub_near (a := a) (b := b) (by
    unfold Fits
    rw [habs]
    linarith)
  -- The difference is at least a unit of its last place, which is ten roundings.
  have hunit := hk.one_le_abs_mul_pow (sub_ne_zero.mpr hab.ne)
  have hpow : (10 : ℚ) ^ k ≤ 10 ^ 27 := pow_le_pow_right₀ (by norm_num) (by omega)
  rw [habs] at hunit hv
  have hsmall : 1 ≤ (b.value - a.value) * 10 ^ 27 :=
    hunit.trans (mul_le_mul_of_nonneg_left hpow (sub_nonneg.mpr hab.le))
  refine ⟨r, hr, ?_⟩
  have := (abs_le.mp hv).2
  unfold epsilon at this
  linarith

theorem exists_add_near {a b : Decimal} (h : Fits (a.value + b.value)) :
    ∃ r, a.add b = .ok r ∧
      |r.value - (a.value + b.value)| ≤ epsilon * (1 + |a.value + b.value|) := by
  obtain ⟨r, hr, hv⟩ := (add?_roundsTo a b).near h
  exact ⟨r, add_eq_ok hr, hv⟩

/-! ## Products -/

theorem mul?_roundsTo (a b : Decimal) : RoundsTo (a.mul? b) (a.value * b.value) := by
  refine ⟨a.coeff * b.coeff, powerOfTen (a.scale + b.scale), Nat.min (a.scale + b.scale) 28,
    powerOfTen_pos _, Nat.min_le_right _ _, ?_, rfl, ?_⟩
  · push_cast
    rw [cast_powerOfTen, pow_add, value, value]
    field_simp
  · rcases Nat.le_total (a.scale + b.scale) 28 with hle | hge
    · right
      rw [show Nat.min (a.scale + b.scale) 28 = a.scale + b.scale from Nat.min_eq_left hle]
      exact (HasPlaces.value a).mul (HasPlaces.value b)
    · exact Or.inl (Nat.min_eq_right hge)

theorem mul_eq_ok {a b r : Decimal} (h : a.mul? b = some r) : a.mul b = .ok r := by
  rw [mul, h]

theorem exists_mul_eq {a b : Decimal} {k : ℕ} (hk : HasPlaces k (a.value * b.value))
    (hk28 : k ≤ 28) (hx : |a.value * b.value| * 10 ^ k < limit) :
    ∃ r, a.mul b = .ok r ∧ r.value = a.value * b.value := by
  obtain ⟨r, hr, hv⟩ := (mul?_roundsTo a b).exact hk hk28 hx
  exact ⟨r, mul_eq_ok hr, hv⟩

theorem exists_mul_near {a b : Decimal} (h : Fits (a.value * b.value)) :
    ∃ r, a.mul b = .ok r ∧
      |r.value - a.value * b.value| ≤ epsilon * (1 + |a.value * b.value|) := by
  obtain ⟨r, hr, hv⟩ := (mul?_roundsTo a b).near h
  exact ⟨r, mul_eq_ok hr, hv⟩

/-! ## Quotients -/

theorem isZero_eq_false {a : Decimal} (h : a.value ≠ 0) : a.isZero = false := by
  rw [← Bool.not_eq_true, isZero_iff]
  exact h

/-- A quotient is rounded to 28 places. -/
theorem exists_div?_eq {a b : Decimal} (hb : b.value ≠ 0) : ∃ (n : ℤ) (d : ℕ), 0 < d ∧
    (n : ℚ) / d = a.value / b.value ∧ a.div? b = ofFraction? n d 28 := by
  have hm : 0 < b.mantissa := by
    have := isZero_eq_false hb
    rw [isZero, decide_eq_false_iff_not] at this
    omega
  -- The division moves the sign of the divisor into the numerator.
  have hsign : ((if b.negative then -1 else 1 : ℤ) : ℚ) * b.coeff = b.mantissa := by
    unfold coeff
    cases b.negative <;> simp
  have hc : (b.coeff : ℚ) ≠ 0 := by
    intro hc
    exact hb (by rw [value, hc, zero_div])
  refine ⟨(if b.negative then -1 else 1) * a.coeff * powerOfTen b.scale,
    b.mantissa * powerOfTen a.scale, Nat.mul_pos hm (powerOfTen_pos _), ?_, ?_⟩
  · have hs : ((if b.negative then -1 else 1 : ℤ) : ℚ) ≠ 0 := by
      cases b.negative <;> simp
    push_cast at hs ⊢
    rw [cast_powerOfTen, cast_powerOfTen, ← hsign, value, value]
    push_cast
    field_simp
  · rw [div?, isZero_eq_false hb]
    rfl

theorem div?_roundsTo {a b : Decimal} (hb : b.value ≠ 0) :
    RoundsTo (a.div? b) (a.value / b.value) := by
  obtain ⟨n, d, hd, hx, hq⟩ := exists_div?_eq (a := a) hb
  exact ⟨n, d, 28, hd, le_refl 28, hx, hq, Or.inl rfl⟩

theorem div_eq_ok {a b r : Decimal} (hb : b.value ≠ 0) (h : a.div? b = some r) :
    a.div b = .ok r := by
  rw [div, isZero_eq_false hb, h]
  rfl

theorem exists_div_near {a b : Decimal} (hb : b.value ≠ 0) (h : Fits (a.value / b.value)) :
    ∃ r, a.div b = .ok r ∧
      |r.value - a.value / b.value| ≤ epsilon * (1 + |a.value / b.value|) := by
  obtain ⟨r, hr, hv⟩ := (div?_roundsTo hb).near h
  exact ⟨r, div_eq_ok hb hr, hv⟩

theorem exists_div_eq {a b : Decimal} {k : ℕ} (hb : b.value ≠ 0)
    (hk : HasPlaces k (a.value / b.value)) (hk28 : k ≤ 28)
    (hx : |a.value / b.value| * 10 ^ k < limit) :
    ∃ r, a.div b = .ok r ∧ r.value = a.value / b.value := by
  obtain ⟨r, hr, hv⟩ := (div?_roundsTo hb).exact hk hk28 hx
  exact ⟨r, div_eq_ok hb hr, hv⟩

end RegionPricing.Decimal
