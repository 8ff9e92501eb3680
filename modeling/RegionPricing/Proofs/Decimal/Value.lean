import Mathlib.Data.Rat.Floor
import Mathlib.Tactic.FieldSimp
import Mathlib.Tactic.Linarith
import Mathlib.Tactic.NormNum
import Mathlib.Tactic.Positivity
import Mathlib.Tactic.Ring
import RegionPricing.Decimal.Arithmetic
import RegionPricing.Decimal.Rounding

/-!
# The numbers that decimals stand for

`Decimal.value` reads a decimal as the rational number `coeff / 10 ^ scale`, and
the tests and comparisons of decimals are tests and comparisons of values. From
here on a decimal is talked about through its value: two decimals of one value
differ only in how many zeros they end with.

`HasPlaces k x` says of a number that `k` decimal places are enough to write it
down. It is what decides whether an operation has to round: places add up under
products, and the larger number of places is enough for a sum.
-/

namespace RegionPricing.Decimal

theorem cast_powerOfTen (n : ℕ) : ((powerOfTen n : ℕ) : ℚ) = 10 ^ n := by
  unfold powerOfTen
  exact_mod_cast rfl

/-- The number that a decimal stands for. -/
def value (a : Decimal) : ℚ := a.coeff / 10 ^ a.scale

theorem value_mul_pow (a : Decimal) : a.value * 10 ^ a.scale = a.coeff := by
  unfold value
  exact div_mul_cancel₀ _ (by positivity)

@[simp] theorem value_zero : zero.value = 0 := by
  simp [value, zero, coeff]

@[simp] theorem value_one : one.value = 1 := by
  simp [value, one, coeff]

@[simp] theorem value_ofInt64 (n : Int64) : (ofInt64 n).value = n.toInt := by
  unfold value ofInt64
  rw [coeff_ofCoeff]
  simp [ofCoeff]

theorem value_ofCoeff (n : ℤ) (s : ℕ) (hn : n.natAbs < 79228162514264337593543950336)
    (hs : s ≤ 28) : (ofCoeff n s hn hs).value = n / 10 ^ s := by
  unfold value
  rw [coeff_ofCoeff]
  rfl

@[simp] theorem value_neg (a : Decimal) : a.neg.value = -a.value := by
  unfold value
  rw [coeff_neg, Int.cast_neg, neg_div]
  rfl

/-- A mantissa is a whole number below the limit. -/
theorem abs_coeff_le (a : Decimal) : |(a.coeff : ℚ)| ≤ limit - 1 := by
  have h := a.coeff_lt
  have hi : |a.coeff| ≤ (limit : ℤ) - 1 := by
    rw [Int.abs_eq_natAbs]
    unfold limit
    omega
  exact_mod_cast hi

theorem abs_value_le (a : Decimal) : |a.value| ≤ limit - 1 := by
  have hpow : (1 : ℚ) ≤ 10 ^ a.scale := one_le_pow₀ (by norm_num)
  unfold value
  rw [abs_div, abs_of_pos (by positivity : (0 : ℚ) < 10 ^ a.scale)]
  exact (div_le_self (abs_nonneg _) hpow).trans a.abs_coeff_le

theorem abs_value_mul_pow_lt (a : Decimal) : |a.value| * 10 ^ a.scale < limit := by
  rw [← abs_of_pos (by positivity : (0 : ℚ) < 10 ^ a.scale), ← abs_mul, value_mul_pow]
  linarith [a.abs_coeff_le]

/-! ## Tests and comparisons -/

theorem isZero_iff (a : Decimal) : a.isZero = true ↔ a.value = 0 := by
  have hm := a.natAbs_coeff
  have hv : a.value = 0 ↔ a.coeff = 0 := by
    rw [value, div_eq_zero_iff, Int.cast_eq_zero]
    exact or_iff_left (by positivity)
  rw [hv, isZero, decide_eq_true_eq]
  omega

theorem isPositive_iff (a : Decimal) : a.isPositive = true ↔ 0 < a.value := by
  rw [isPositive, decide_eq_true_eq, value, lt_div_iff₀ (by positivity), zero_mul, Int.cast_pos]

theorem isNegative_iff (a : Decimal) : a.isNegative = true ↔ a.value < 0 := by
  rw [isNegative, decide_eq_true_eq, value, div_lt_iff₀ (by positivity), zero_mul, Int.cast_lt_zero]

/-- Brought to one scale, coefficients compare like values. -/
theorem aligned_le_iff (a b : Decimal) :
    (aligned a b).1 ≤ (aligned a b).2 ↔ a.value ≤ b.value := by
  rw [value, value, div_le_div_iff₀ (by positivity) (by positivity), ← cast_powerOfTen,
    ← cast_powerOfTen]
  exact_mod_cast Iff.rfl

theorem le_iff (a b : Decimal) : a.le b = true ↔ a.value ≤ b.value := by
  rw [le, decide_eq_true_eq]
  exact aligned_le_iff a b

theorem lt_iff (a b : Decimal) : a.lt b = true ↔ a.value < b.value := by
  rw [lt, decide_eq_true_eq, ← not_le, ← not_le, not_iff_not]
  exact aligned_le_iff b a

theorem sameValue_iff (a b : Decimal) : a.sameValue b = true ↔ a.value = b.value := by
  rw [sameValue, decide_eq_true_eq, le_antisymm_iff, le_antisymm_iff, aligned_le_iff]
  exact and_congr_right fun _ => aligned_le_iff b a

theorem value_max (a b : Decimal) : (a.max b).value = Max.max a.value b.value := by
  unfold Decimal.max
  split
  next h => exact (max_eq_left ((lt_iff b a).mp h).le).symm
  next h =>
    rw [lt_iff, not_lt] at h
    exact (max_eq_right h).symm

/-! ## How many places a number needs -/

/-- Whether `x` can be written with `k` decimal places. -/
def HasPlaces (k : ℕ) (x : ℚ) : Prop := ∃ m : ℤ, x * 10 ^ k = m

namespace HasPlaces

variable {j k : ℕ} {x y : ℚ}

theorem value (a : Decimal) : HasPlaces a.scale a.value := ⟨a.coeff, a.value_mul_pow⟩

theorem intCast (n : ℤ) : HasPlaces k n := ⟨n * 10 ^ k, by push_cast; rfl⟩

theorem zero : HasPlaces k 0 := ⟨0, by simp⟩

theorem one : HasPlaces k 1 := ⟨10 ^ k, by push_cast; ring⟩

theorem div_pow (n : ℤ) (k : ℕ) : HasPlaces k (n / 10 ^ k) :=
  ⟨n, div_mul_cancel₀ _ (by positivity)⟩

theorem mono (h : HasPlaces j x) (hjk : j ≤ k) : HasPlaces k x := by
  obtain ⟨m, hm⟩ := h
  refine ⟨m * 10 ^ (k - j), ?_⟩
  rw [← Nat.add_sub_cancel' hjk, pow_add, ← mul_assoc, hm]
  push_cast
  rw [Nat.add_sub_cancel_left]

theorem inf (hj : HasPlaces j x) (hk : HasPlaces k x) : HasPlaces (min j k) x := by
  rcases le_total j k with h | h
  · rwa [min_eq_left h]
  · rwa [min_eq_right h]

theorem neg (h : HasPlaces k x) : HasPlaces k (-x) := by
  obtain ⟨m, hm⟩ := h
  exact ⟨-m, by rw [neg_mul, hm]; push_cast; rfl⟩

theorem add (hx : HasPlaces k x) (hy : HasPlaces k y) : HasPlaces k (x + y) := by
  obtain ⟨m, hm⟩ := hx
  obtain ⟨n, hn⟩ := hy
  exact ⟨m + n, by rw [add_mul, hm, hn]; push_cast; rfl⟩

theorem sub (hx : HasPlaces k x) (hy : HasPlaces k y) : HasPlaces k (x - y) := by
  rw [sub_eq_add_neg]
  exact hx.add hy.neg

theorem mul (hx : HasPlaces j x) (hy : HasPlaces k y) : HasPlaces (j + k) (x * y) := by
  obtain ⟨m, hm⟩ := hx
  obtain ⟨n, hn⟩ := hy
  refine ⟨m * n, ?_⟩
  push_cast
  rw [← hm, ← hn, pow_add]
  ring

/-- A number that is not zero is at least one unit of its last place. -/
theorem one_le_abs_mul_pow (h : HasPlaces k x) (hx : x ≠ 0) : 1 ≤ |x| * 10 ^ k := by
  obtain ⟨m, hm⟩ := h
  have hpow : (0 : ℚ) < 10 ^ k := by positivity
  have hm0 : m ≠ 0 := by
    rintro rfl
    exact hx ((mul_eq_zero_iff_right hpow.ne').mp (by rw [hm, Int.cast_zero]))
  rw [← abs_of_pos hpow, ← abs_mul, hm]
  exact_mod_cast Int.one_le_abs hm0

theorem one_le_mul_pow (h : HasPlaces k x) (hx : 0 < x) : 1 ≤ x * 10 ^ k := by
  have := h.one_le_abs_mul_pow hx.ne'
  rwa [abs_of_pos hx] at this

/-- Of the whole numbers below the limit the greatest is the limit minus one. -/
theorem abs_mul_pow_le (h : HasPlaces k x) (hx : |x| * 10 ^ k < limit) :
    |x| * 10 ^ k ≤ limit - 1 := by
  obtain ⟨m, hm⟩ := h
  have habs : |x| * 10 ^ k = (|m| : ℤ) := by
    rw [Int.cast_abs, ← hm, abs_mul, abs_of_pos (by positivity : (0 : ℚ) < 10 ^ k)]
  rw [habs] at hx ⊢
  have : |m| < (limit : ℤ) := by exact_mod_cast hx
  exact_mod_cast (by omega : |m| ≤ (limit : ℤ) - 1)

end HasPlaces

end RegionPricing.Decimal
