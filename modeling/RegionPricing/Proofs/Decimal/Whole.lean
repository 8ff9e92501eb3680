import RegionPricing.Proofs.Decimal.Order
import RegionPricing.Proofs.Decimal.Places

/-!
# Whole parts are kept

The whole part of a quotient of two whole numbers survives the rounding of the quotient
(`RoundsTo.floor_eq`): what is missing to the next whole number is more than a rounding can
add, unless both numbers are huge.
-/

namespace RegionPricing.Decimal

theorem value_pow10 {e : ℕ} (h : e ≤ 28) : (pow10 e).value = 10 ^ e := by
  have hmin : min e 28 = e := Nat.min_eq_left h
  simp [value, pow10, coeff, hmin, cast_powerOfTen]

theorem value_ceil (a : Decimal) : a.ceil.value = ⌈a.value⌉ := by
  rw [ceil, value_roundUp, roundedUp, pow_zero, mul_one, div_one]

namespace RoundsTo

variable {m : Option Decimal} {r : Decimal}

/-- A rounding adds less to a quotient than the least fraction with its divisor. -/
theorem sub_lt_of_quotient {n d : ℤ} (h : RoundsTo m (n / d : ℚ)) (hr : m = some r) (hn : 0 ≤ n)
    (hn' : n ≤ 10 ^ 28) (hd : 0 < d) (hd' : d ≤ 10 ^ 28) : r.value - n / d < 1 / d := by
  have hdq : (0 : ℚ) < d := by exact_mod_cast hd
  have hnq : (0 : ℚ) ≤ n := by exact_mod_cast hn
  have hnq' : (n : ℚ) ≤ 10 ^ 28 := by exact_mod_cast hn'
  have hdq' : (d : ℚ) ≤ 10 ^ 28 := by exact_mod_cast hd'
  obtain ⟨bound, hround, hbound⟩ := h.rounds hr
  refine lt_of_le_of_lt (le_abs_self _) ?_
  rcases hround.error_cases hbound with hsmall | hsmall
  · refine lt_of_le_of_lt hsmall ?_
    rw [epsilon, div_div, div_lt_div_iff₀ (by norm_num) hdq]
    linarith
  · refine lt_of_le_of_lt hsmall ?_
    rw [abs_of_nonneg (by positivity), div_div, div_lt_div_iff₀ (by positivity) hdq, one_mul,
      mul_comm]
    exact mul_lt_mul_of_pos_left (by linarith) hdq

theorem floor_eq {n d : ℤ} (h : RoundsTo m (n / d : ℚ)) (hr : m = some r) (hn : 0 ≤ n)
    (hn' : n ≤ 10 ^ 28) (hd : 0 < d) (hd' : d ≤ 10 ^ 28) : ⌊r.value⌋ = ⌊(n / d : ℚ)⌋ := by
  have hdq : (0 : ℚ) < d := by exact_mod_cast hd
  have hfloor : ⌊(n / d : ℚ)⌋ = n / d := by
    obtain ⟨c, rfl⟩ := Int.eq_ofNat_of_zero_le hd.le
    exact Rat.floor_intCast_div_natCast n c
  have hle := Int.floor_le (n / d : ℚ)
  rw [hfloor] at hle ⊢
  rw [Int.floor_eq_iff]
  constructor
  · -- the whole part is a decimal, below which nothing is rounded
    have hsize : (n / d).natAbs < 79228162514264337593543950336 := by
      have h1 := Int.ediv_le_self d hn
      have h2 := Int.ediv_nonneg hn hd.le
      omega
    have hvalue : (ofCoeff (n / d) 0 hsize (by omega)).value = (n / d : ℤ) := by
      rw [value_ofCoeff, pow_zero, div_one]
    exact hvalue ▸ h.value_le hr (hvalue ▸ hle)
  · -- from the quotient to the next whole number one unit of its fraction is missing at least
    have hgap : (n : ℚ) / d + 1 / d ≤ (n / d : ℤ) + 1 := by
      rw [← add_div, div_le_iff₀ hdq]
      have hlt := Int.lt_ediv_add_one_mul_self n hd
      exact_mod_cast hlt
    linarith [h.sub_lt_of_quotient hr hn hn' hd hd']

end RoundsTo

end RegionPricing.Decimal
