import RegionPricing.Decimal.Basic

/-!
# Rounding to a number of places

A decimal that already has at most the wanted number of places is left alone.
Otherwise the digits beyond are dropped and the kept number is moved by one
unit or not, as the rule says: away from zero from one half on, towards
positive infinity, or never.
-/

namespace RegionPricing.Decimal

/-- `n / d` rounded to a whole number, a half upwards. -/
def halfUp (n d : Nat) : Nat := (2 * n + d) / (2 * d)

/-- `n / d` rounded to the next whole number above. -/
def ceiling (n : Int) (d : Nat) : Int := -((-n).fdiv d)

theorem halfUp_le (n : Nat) {d : Nat} (hd : 2 ≤ d) : halfUp n d ≤ n := by
  unfold halfUp
  rcases Nat.eq_zero_or_pos n with rfl | h0
  · exact Nat.le_of_eq (Nat.div_eq_of_lt (by omega))
  · refine Nat.div_le_of_le_mul ?_
    have h1 : 2 * n ≤ d * n := Nat.mul_le_mul_right _ hd
    have h2 : d * 1 ≤ d * n := Nat.mul_le_mul_left _ h0
    rw [Nat.mul_assoc, Nat.two_mul]
    omega

theorem natAbs_ceiling_le (n : Int) {d : Nat} (hd : 2 ≤ d) :
    (ceiling n d).natAbs ≤ n.natAbs := by
  unfold ceiling
  rw [Int.natAbs_neg, Int.fdiv_eq_ediv_of_nonneg _ (by omega)]
  rcases Int.lt_or_le (-n) 0 with h | h
  · have h1 : (-n) ≤ -n / (d : Int) := by
      rw [Int.le_ediv_iff_mul_le (by omega)]
      have : n * 1 ≤ n * (d : Int) := Int.mul_le_mul_of_nonneg_left (by omega) (by omega)
      rw [Int.neg_mul]
      omega
    have h2 : -n / (d : Int) < 0 := Int.ediv_neg_of_neg_of_pos h (by omega)
    omega
  · have h1 : 0 ≤ -n / (d : Int) := Int.ediv_nonneg h (by omega)
    have h2 : -n / (d : Int) ≤ -n := Int.ediv_le_self _ h
    omega

/-- Rounds to at most `places` places, a half away from zero. The sign stays,
also where nothing else is left. -/
def roundHalfAway (a : Decimal) (places : Nat) : Decimal :=
  if h : a.scale ≤ places then a
  else
    ⟨a.negative, halfUp a.mantissa (powerOfTen (a.scale - places)), places,
      Nat.lt_of_le_of_lt (halfUp_le _ (two_le_powerOfTen (by omega))) a.mantissa_lt,
      by have := a.scale_le; omega⟩

/-- Rounds to at most `places` places, towards positive infinity. -/
def roundUp (a : Decimal) (places : Nat) : Decimal :=
  if h : a.scale ≤ places then a
  else
    ofCoeff (ceiling a.coeff (powerOfTen (a.scale - places))) places
      (Nat.lt_of_le_of_lt (natAbs_ceiling_le _ (two_le_powerOfTen (by omega))) a.coeff_lt)
      (by have := a.scale_le; omega)

/-- The least whole number that is not below the value. -/
def ceil (a : Decimal) : Decimal := a.roundUp 0

/-- The value without its fraction. -/
def truncInt (a : Decimal) : Int := a.coeff.tdiv (powerOfTen a.scale)

theorem natAbs_truncInt_le (a : Decimal) : a.truncInt.natAbs ≤ a.coeff.natAbs :=
  Int.natAbs_tdiv a.coeff (powerOfTen a.scale) ▸ Nat.div_le_self _ _

/-- The value without its fraction. -/
def trunc (a : Decimal) : Decimal :=
  ofCoeff a.truncInt 0 (Nat.lt_of_le_of_lt a.natAbs_truncInt_le a.coeff_lt) zero.scale_le

/-- The value without its fraction as a number of 64 bits, if it fits. -/
def toInt64? (a : Decimal) : Option Int64 :=
  if -9223372036854775808 ≤ a.truncInt ∧ a.truncInt ≤ 9223372036854775807 then
    some (Int64.ofInt a.truncInt)
  else none

end RegionPricing.Decimal
