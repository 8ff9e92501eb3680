import RegionPricing.Proofs.Decimal.Operations

/-!
# How errors add up

`Near a x size c` says that the decimal `a` was meant to be `x` and is wrong by at
most `c` roundings of a number of the given size. A sum or a product adds a little
more than one rounding, and the size grows as the operands do, so a chain of
operations is judged by walking along it. `Exact a x size k` is the invariant of a
chain in which nothing is rounded: what grows there is the number of places.
-/

namespace RegionPricing.Decimal

/-- `a` is `x`, up to `c` roundings of numbers of this size. -/
structure Near (a : Decimal) (x size c : ℚ) : Prop where
  size_ge : 1 + |x| ≤ size
  error_le : |a.value - x| ≤ c * (epsilon * size)

/-- The largest size at which no operation fails. -/
def room : ℚ := 7 * 10 ^ 28

namespace Near

variable {a b : Decimal} {x size c : ℚ}

theorem one_le_size (h : Near a x size c) : 1 ≤ size := by
  have := h.size_ge
  have := abs_nonneg x
  linarith

theorem mono {d : ℚ} (h : Near a x size c) (hcd : c ≤ d) : Near a x size d := by
  have hpos : 0 ≤ epsilon * size := mul_nonneg epsilon_nonneg (by linarith [h.one_le_size])
  exact ⟨h.size_ge, h.error_le.trans (mul_le_mul_of_nonneg_right hcd hpos)⟩

/-- A few roundings hardly change the size. -/
theorem abs_value_le (h : Near a x size c) (hc : c ≤ 10) : 1 + |a.value| ≤ 101 / 100 * size := by
  have h1 := (h.mono hc).error_le
  have h2 := abs_sub_abs_le_abs_sub a.value x
  have h3 := h.size_ge
  have h4 := h.one_le_size
  unfold epsilon at h1
  linarith

theorem fits_of_abs_le {y : ℚ} (hy : |y| ≤ 101 / 100 * room) : Fits y := by
  unfold Fits limit
  unfold room at hy
  norm_num at hy ⊢
  linarith

/-- A quotient is the first to be rounded. -/
theorem div (hb : b.value ≠ 0) (hsize : 1 + |a.value / b.value| ≤ room) :
    ∃ r, a.div b = .ok r ∧ Near r (a.value / b.value) (1 + |a.value / b.value|) 1 := by
  have hfits : Fits (a.value / b.value) := fits_of_abs_le (by
    have := abs_nonneg (a.value / b.value)
    linarith)
  obtain ⟨r, hr, he⟩ := exists_div_near hb hfits
  exact ⟨r, hr, le_refl _, by rw [one_mul]; exact he⟩

theorem add (h : Near a x size c) (hc0 : 0 ≤ c) (hc : c ≤ 10) (hsize : size + |b.value| ≤ room) :
    ∃ r, a.add b = .ok r ∧ Near r (x + b.value) (size + |b.value|) (c + 11 / 10) := by
  have ha := h.abs_value_le hc
  have h1 := h.one_le_size
  have hb := abs_nonneg b.value
  have hsum := abs_add_le a.value b.value
  have hx := abs_add_le x b.value
  obtain ⟨r, hr, he⟩ := exists_add_near (a := a) (b := b) (fits_of_abs_le (by linarith))
  refine ⟨r, hr, ⟨by linarith [h.size_ge], ?_⟩⟩
  have heps := epsilon_nonneg
  have hround : epsilon * (1 + |a.value + b.value|)
      ≤ 11 / 10 * (epsilon * (size + |b.value|)) := by
    have := mul_le_mul_of_nonneg_left
      (by linarith : 1 + |a.value + b.value| ≤ 11 / 10 * (size + |b.value|)) heps
    linarith
  have hold : c * (epsilon * size) ≤ c * (epsilon * (size + |b.value|)) :=
    mul_le_mul_of_nonneg_left (mul_le_mul_of_nonneg_left (by linarith) heps) hc0
  calc |r.value - (x + b.value)|
      = |(r.value - (a.value + b.value)) + (a.value - x)| := by
        congr 1
        ring
    _ ≤ |r.value - (a.value + b.value)| + |a.value - x| := abs_add_le _ _
    _ ≤ 11 / 10 * (epsilon * (size + |b.value|)) + c * (epsilon * (size + |b.value|)) :=
        add_le_add (he.trans hround) (h.error_le.trans hold)
    _ = (c + 11 / 10) * (epsilon * (size + |b.value|)) := by ring

theorem mul (h : Near a x size c) (hc0 : 0 ≤ c) (hc : c ≤ 10) (hb : 0 ≤ b.value)
    (hsize : size * (1 + b.value) ≤ room) :
    ∃ r, a.mul b = .ok r ∧ Near r (x * b.value) (size * (1 + b.value)) (c + 11 / 10) := by
  have ha := h.abs_value_le hc
  have h1 := h.one_le_size
  have hprod : |a.value * b.value| = |a.value| * b.value := by rw [abs_mul, abs_of_nonneg hb]
  have hgrow : |a.value| * b.value ≤ (101 / 100 * size - 1) * b.value :=
    mul_le_mul_of_nonneg_right (by linarith) hb
  have hbound : 1 + |a.value| * b.value ≤ 101 / 100 * (size * (1 + b.value)) := by
    linarith [hgrow]
  obtain ⟨r, hr, he⟩ := exists_mul_near (a := a) (b := b) (fits_of_abs_le (by
    rw [hprod]
    linarith))
  refine ⟨r, hr, ⟨?_, ?_⟩⟩
  · rw [abs_mul, abs_of_nonneg hb]
    have := mul_le_mul_of_nonneg_right h.size_ge hb
    linarith
  have heps := epsilon_nonneg
  -- What this product loses, and what the error of the first factor becomes by it.
  have hround : epsilon * (1 + |a.value * b.value|)
      ≤ 11 / 10 * (epsilon * (size * (1 + b.value))) := by
    rw [hprod]
    have hpos : 0 ≤ size * (1 + b.value) := by positivity
    have := mul_le_mul_of_nonneg_left
      (by linarith : 1 + |a.value| * b.value ≤ 11 / 10 * (size * (1 + b.value))) heps
    linarith
  have hold : |a.value - x| * b.value ≤ c * (epsilon * (size * (1 + b.value))) := by
    refine (mul_le_mul_of_nonneg_right h.error_le hb).trans ?_
    have := mul_nonneg hc0 (mul_nonneg heps (by linarith : (0 : ℚ) ≤ size))
    linarith
  calc |r.value - x * b.value|
      = |(r.value - a.value * b.value) + (a.value - x) * b.value| := by
        congr 1
        ring
    _ ≤ |r.value - a.value * b.value| + |(a.value - x) * b.value| := abs_add_le _ _
    _ = |r.value - a.value * b.value| + |a.value - x| * b.value := by
        rw [abs_mul (a.value - x), abs_of_nonneg hb]
    _ ≤ 11 / 10 * (epsilon * (size * (1 + b.value))) + c * (epsilon * (size * (1 + b.value))) :=
        add_le_add (he.trans hround) hold
    _ = (c + 11 / 10) * (epsilon * (size * (1 + b.value))) := by ring

end Near

/-! ## Chains without errors -/

/-- `a` is `x`, a number of this size that has `k` places. -/
structure Exact (a : Decimal) (x size : ℚ) (k : ℕ) : Prop where
  value_eq : a.value = x
  places : HasPlaces k x
  size_ge : |x| ≤ size

namespace Exact

variable {a b : Decimal} {x size : ℚ} {k j : ℕ}

theorem add (h : Exact a x size k) (hb : HasPlaces k b.value) (hk : k ≤ 28)
    (hroom : (size + |b.value|) * 10 ^ k ≤ 79 * 10 ^ 27) :
    ∃ r, a.add b = .ok r ∧ Exact r (x + b.value) (size + |b.value|) k := by
  have hsize : |x + b.value| ≤ size + |b.value| :=
    (abs_add_le _ _).trans (add_le_add_left h.size_ge _)
  obtain ⟨r, hr, hv⟩ := exists_add_eq (h.value_eq ▸ h.places.add hb) hk
    (h.value_eq ▸ abs_mul_pow_lt_limit hsize hroom)
  exact ⟨r, hr, ⟨by rw [hv, h.value_eq], h.places.add hb, hsize⟩⟩

theorem mul (h : Exact a x size k) (hb : HasPlaces j b.value) (hb0 : 0 ≤ b.value)
    (hk : k + j ≤ 28) (hroom : size * (1 + b.value) * 10 ^ (k + j) ≤ 79 * 10 ^ 27) :
    ∃ r, a.mul b = .ok r ∧ Exact r (x * b.value) (size * (1 + b.value)) (k + j) := by
  have hsize : |x * b.value| ≤ size * (1 + b.value) := by
    have := mul_le_mul_of_nonneg_right h.size_ge hb0
    have := abs_nonneg x
    rw [abs_mul, abs_of_nonneg hb0]
    linarith [h.size_ge]
  obtain ⟨r, hr, hv⟩ := exists_mul_eq (h.value_eq ▸ h.places.mul hb) hk
    (h.value_eq ▸ abs_mul_pow_lt_limit hsize hroom)
  exact ⟨r, hr, ⟨by rw [hv, h.value_eq], h.places.mul hb, hsize⟩⟩

end Exact

end RegionPricing.Decimal
