import RegionPricing.Proofs.FixedPoint

/-!
# Stored numbers are the nearest ones

A decimal is stored as the whole number nearest to its value in units of the precision, ties
away from zero, or as the nearest end of the range of stored numbers (`inflate_nearest`). On the
way the product by the precision is rounded to the digits of a decimal, or is none at all, and
the result may not fit 64 bits. None of that shows: `inflate_eq` has the value rounded once, so
that what is left here is what `halfAway` rounds to (`halfAway_nearest`), and that rounding and
clamping keep the order.

A decimal of -1 is "no value" and keeps its number, which breaks the order around it.
-/

namespace RegionPricing.Decimal

/-- `n` is the whole number nearest to `x`, and of two the one farther from zero. -/
structure NearestAway (x : ℚ) (n : ℤ) : Prop where
  nearest : ∀ m : ℤ, |(n : ℚ) - x| ≤ |(m : ℚ) - x|
  away : ∀ m : ℤ, |(m : ℚ) - x| = |(n : ℚ) - x| → |m| ≤ |n|

namespace NearestAway

variable {x : ℚ} {m n : ℤ}

theorem neg (h : NearestAway x n) : NearestAway (-x) (-n) := by
  have hdist : ∀ m : ℤ, |(m : ℚ) - -x| = |((-m : ℤ) : ℚ) - x| := by
    intro m
    rw [Int.cast_neg, ← abs_neg]
    congr 1
    ring
  refine ⟨fun m => ?_, fun m hm => ?_⟩
  · rw [hdist, hdist m, neg_neg]
    exact h.nearest (-m)
  · rw [hdist, hdist (-n), neg_neg] at hm
    rw [abs_neg, ← abs_neg m]
    exact h.away (-m) hm

theorem unique (h : NearestAway x n) (h' : NearestAway x m) : n = m := by
  have hdist : |(n : ℚ) - x| = |(m : ℚ) - x| := le_antisymm (h.nearest m) (h'.nearest n)
  have hsize : |n| = |m| := le_antisymm (h'.away n hdist) (h.away m hdist.symm)
  rcases abs_eq_abs.mp hsize with heq | rfl
  · exact heq
  · -- opposite numbers are equally far only from zero, and there zero is nearer
    push_cast at hdist
    rcases abs_eq_abs.mp hdist with heq | heq
    · have hzero : (m : ℚ) = 0 := by linarith
      have : m = 0 := by exact_mod_cast hzero
      omega
    · have hx : x = 0 := by linarith
      have hm := h'.nearest 0
      rw [hx, Int.cast_zero, sub_zero, sub_zero, abs_zero, abs_nonpos_iff] at hm
      have : m = 0 := by exact_mod_cast hm
      omega

/-- Of a number that is not negative, halves are rounded up. -/
theorem of_nonneg (hx : 0 ≤ x) : NearestAway x ⌊x + 1 / 2⌋ := by
  obtain ⟨hle, hlt⟩ := Int.floor_eq_iff.mp (rfl : ⌊x + 1 / 2⌋ = ⌊x + 1 / 2⌋)
  generalize ⌊x + 1 / 2⌋ = n at hle hlt
  have hnonneg : 0 ≤ n := by
    have : (-1 : ℚ) < n := by linarith
    have : -1 < n := by exact_mod_cast this
    omega
  have hnear : |(n : ℚ) - x| ≤ 1 / 2 := abs_le.mpr ⟨by linarith, by linarith⟩
  refine ⟨fun m => ?_, fun m hm => ?_⟩
  · rcases lt_trichotomy m n with hlt' | rfl | hgt
    · have : (m : ℚ) + 1 ≤ n := by exact_mod_cast hlt'
      exact hnear.trans (le_abs.mpr (Or.inr (by linarith)))
    · exact le_rfl
    · have : (n : ℚ) + 1 ≤ m := by exact_mod_cast hgt
      exact hnear.trans (le_abs.mpr (Or.inl (by linarith)))
  · rw [abs_of_nonneg hnonneg, abs_le]
    have hbound := abs_le.mp (hm.le.trans hnear)
    constructor
    · have : (-n : ℚ) - 1 < m := by linarith [hbound.1]
      have : -n - 1 < m := by exact_mod_cast this
      omega
    · -- the number above `n` is more than a half away
      have : (m : ℚ) < n + 1 := by linarith [hbound.2]
      have : m < n + 1 := by exact_mod_cast this
      omega

end NearestAway

theorem halfAway_nearest (x : ℚ) : NearestAway x (halfAway x) := by
  unfold halfAway
  split
  next hneg =>
    have h := (NearestAway.of_nonneg (neg_nonneg.mpr hneg.le)).neg
    rwa [neg_neg] at h
  next hnonneg => exact .of_nonneg (not_lt.mp hnonneg)

end RegionPricing.Decimal

namespace RegionPricing.FixedPoint

open Decimal

variable {v v' : Decimal} {precision : Int64} {k : ℕ}

theorem toInt_inflate (hp : precision.toInt = 10 ^ k) (hv : v.value ≠ -1) {n : ℤ}
    (hn : NearestAway (v.value * 10 ^ k) n) : (inflate v precision).toInt = clamp n := by
  rw [inflate_eq hp, toInt_rawOf_of_ne hv, (halfAway_nearest _).unique hn]

theorem inflate_mono (hp : precision.toInt = 10 ^ k) (hv : v.value ≠ -1) (hv' : v'.value ≠ -1)
    (hle : v.value ≤ v'.value) : inflate v precision ≤ inflate v' precision := by
  rw [inflate_eq hp, inflate_eq hp]
  exact rawOf_mono hv hv' hle

/-- A decimal other than -1 is stored as the whole number nearest to its value times the
precision, ties away from zero, or as the end of the range that this number lies beyond. So a
smaller decimal is never stored as a greater number, at any precision. -/
theorem inflate_nearest (hv : v.value ≠ -1) :
    (∀ (k : ℕ) (precision : Int64), precision.toInt = 10 ^ k →
      (∃ n, NearestAway (v.value * 10 ^ k) n) ∧
      (∀ n, NearestAway (v.value * 10 ^ k) n → (inflate v precision).toInt = clamp n) ∧
      ∀ v', v'.value ≠ -1 → v.value ≤ v'.value → inflate v precision ≤ inflate v' precision) ∧
    ∀ v', v'.value ≠ -1 → v.value ≤ v'.value →
      rawOfPrice v ≤ rawOfPrice v' ∧ rawOfGrams v ≤ rawOfGrams v' ∧ rawOfRate v ≤ rawOfRate v' := by
  refine ⟨fun k precision hp => ⟨⟨_, halfAway_nearest _⟩, fun n hn => toInt_inflate hp hv hn,
    fun v' hv' hle => inflate_mono hp hv hv' hle⟩, fun v' hv' hle => ⟨?_, ?_, ?_⟩⟩
  · exact inflate_mono (k := 5) (by decide) hv hv' hle
  · exact inflate_mono (k := 5) (by decide) hv hv' hle
  · exact inflate_mono (k := 5) (by decide) hv hv' hle

/-! Halves next to both ends of the range. -/

/-- Half a unit of price below the greatest stored price. -/
def nearGreatest : Decimal := .ofCoeff 922337203685477580650 7 (by decide) (by decide)

/-- Half a unit of price beyond the least stored price. -/
def beyondLeast : Decimal := .ofCoeff (-922337203685477580850) 7 (by decide) (by decide)

theorem value_nearGreatest : nearGreatest.value = 922337203685477580650 / 10 ^ 7 := by
  rw [nearGreatest, value_ofCoeff]
  norm_num

theorem value_beyondLeast : beyondLeast.value = -922337203685477580850 / 10 ^ 7 := by
  rw [beyondLeast, value_ofCoeff]
  norm_num

theorem nearGreatest_nearest :
    NearestAway (nearGreatest.value * 10 ^ 5) 9223372036854775807 := by
  have h := NearestAway.of_nonneg (x := nearGreatest.value * 10 ^ 5)
    (by rw [value_nearGreatest]; norm_num)
  have hfloor : ⌊nearGreatest.value * 10 ^ 5 + 1 / 2⌋ = 9223372036854775807 := by
    rw [Int.floor_eq_iff, value_nearGreatest]
    norm_num
  rwa [hfloor] at h

theorem beyondLeast_nearest :
    NearestAway (beyondLeast.value * 10 ^ 5) (-9223372036854775809) := by
  have h := (NearestAway.of_nonneg (x := -(beyondLeast.value * 10 ^ 5))
    (by rw [value_beyondLeast]; norm_num)).neg
  have hfloor : ⌊-(beyondLeast.value * 10 ^ 5) + 1 / 2⌋ = 9223372036854775809 := by
    rw [Int.floor_eq_iff, value_beyondLeast]
    norm_num
  rwa [hfloor, neg_neg] at h

/-- One is rounded to the greatest number that can be stored, the other would be rounded to the
first that can not. -/
theorem inflate_nearest_ends :
    (rawOfPrice nearGreatest).toInt = 9223372036854775807 ∧
      (rawOfPrice beyondLeast).toInt = -9223372036854775808 ∧
      rawOfRate beyondLeast ≤ rawOfRate nearGreatest := by
  have hne : nearGreatest.value ≠ -1 := by
    rw [value_nearGreatest]
    norm_num
  have hne' : beyondLeast.value ≠ -1 := by
    rw [value_beyondLeast]
    norm_num
  obtain ⟨hgreatest, _⟩ := inflate_nearest hne
  obtain ⟨hleast, hmono⟩ := inflate_nearest hne'
  have hle : beyondLeast.value ≤ nearGreatest.value := by
    rw [value_beyondLeast, value_nearGreatest]
    norm_num
  exact ⟨(hgreatest 5 pricePrecision (by decide)).2.1 _ nearGreatest_nearest,
    (hleast 5 pricePrecision (by decide)).2.1 _ beyondLeast_nearest, (hmono _ hne hle).2.2⟩

end RegionPricing.FixedPoint
