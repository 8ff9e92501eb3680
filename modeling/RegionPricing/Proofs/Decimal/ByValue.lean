import RegionPricing.Proofs.Decimal.Order
import RegionPricing.Proofs.Decimal.Places

/-!
# Operations go by value

A value has many decimals, which differ in the zeros that they end with. An operation chooses
the scale of its result by the scales of its operands, so decimals of one value may lead to
different decimals; but they lead to one value, and where one of them has no result, neither
has the other.

`RoundsTo.alike` says so of any two roundings of one exact result: their values are in order
both ways, and a result is missing only when the exact one does not fit without any places.
-/

namespace RegionPricing.Decimal

/-- Decimals of one value. -/
def Same (a b : Decimal) : Prop := a.value = b.value

/-- Results that are both missing, or of one value. -/
abbrev Alike : Option Decimal → Option Decimal → Prop := Option.Rel Same

namespace Same

theorem refl (a : Decimal) : Same a a := rfl

variable {a a' b b' : Decimal}

theorem isPositive_eq (h : Same a a') : a.isPositive = a'.isPositive := by
  rw [Bool.eq_iff_iff, isPositive_iff, isPositive_iff, h]

theorem isZero_eq (h : Same a a') : a.isZero = a'.isZero := by
  rw [Bool.eq_iff_iff, isZero_iff, isZero_iff, h]

theorem le_eq (ha : Same a a') (hb : Same b b') : a.le b = a'.le b' := by
  rw [Bool.eq_iff_iff, le_iff, le_iff, ha, hb]

theorem max (ha : Same a a') (hb : Same b b') : Same (a.max b) (a'.max b') := by
  unfold Same
  rw [value_max, value_max, ha, hb]

theorem ceil (h : Same a a') : Same a.ceil a'.ceil := by
  unfold Same Decimal.ceil
  rw [value_roundUp, value_roundUp, h]

/-- Brought to one scale, the coefficients are equal, and so are the quotients. -/
theorem truncInt_eq (h : Same a a') : a.truncInt = a'.truncInt := by
  have hcoeff : a.coeff * powerOfTen a'.scale = a'.coeff * powerOfTen a.scale := by
    have hsame := (sameValue_iff a a').mpr h
    rw [sameValue, decide_eq_true_eq] at hsame
    exact hsame
  have hpos : (0 : ℤ) < powerOfTen a.scale := by exact_mod_cast powerOfTen_pos a.scale
  have hpos' : (0 : ℤ) < powerOfTen a'.scale := by exact_mod_cast powerOfTen_pos a'.scale
  calc a.coeff.tdiv (powerOfTen a.scale)
      = (powerOfTen a'.scale * a.coeff).tdiv (powerOfTen a'.scale * powerOfTen a.scale) :=
        (Int.mul_tdiv_mul_of_pos _ _ hpos').symm
    _ = (powerOfTen a.scale * a'.coeff).tdiv (powerOfTen a.scale * powerOfTen a'.scale) := by
        rw [mul_comm _ a.coeff, hcoeff, mul_comm a'.coeff, mul_comm (powerOfTen a'.scale : ℤ)]
    _ = a'.coeff.tdiv (powerOfTen a'.scale) := Int.mul_tdiv_mul_of_pos _ _ hpos

theorem trunc (h : Same a a') : Same a.trunc a'.trunc := by
  have hwhole : ∀ d : Decimal, d.trunc.value = d.truncInt / 10 ^ 0 :=
    fun d => value_ofCoeff d.truncInt 0 _ _
  show a.trunc.value = a'.trunc.value
  rw [hwhole, hwhole, h.truncInt_eq]

end Same

/-! ## Roundings of one exact result -/

/-- No scale is left when not even the whole number fits. -/
theorem large_of_ofFraction?_eq_none {n : ℤ} {d : ℕ} :
    ∀ {bound : ℕ}, ofFraction? n d bound = none → (limit : ℤ) ≤ |halfEvenInt n d| := by
  intro bound
  induction bound with
  | zero =>
    intro h
    rw [Int.abs_eq_natAbs]
    exact_mod_cast limit_le_of_ofParts?_eq_none (Nat.zero_le _) h
  | succ s ih =>
    intro h
    rw [ofFraction?] at h
    split at h
    · cases h
    · exact ih h

namespace RoundsTo

variable {m m' : Option Decimal} {x : ℚ} {r : Decimal}

theorem large_of_none (h : RoundsTo m x) (hm : m = none) :
    ∃ c, HalfEven x c ∧ (limit : ℤ) ≤ |c| := by
  obtain ⟨n, d, bound, hd, _, rfl, rfl, _⟩ := h
  exact ⟨halfEvenInt n d, halfEvenInt_spec n hd, large_of_ofFraction?_eq_none hm⟩

/-- What is too large when it is rounded to a whole number is too large with any places. -/
theorem ne_some_of_large (h : RoundsTo m x) {c : ℤ} (hc : HalfEven x c)
    (hlarge : (limit : ℤ) ≤ |c|) : m ≠ some r := by
  intro hr
  obtain ⟨bound, hs⟩ := h.settles hr
  have hfits := hs.fits
  by_cases hscale : r.scale = 0
  · -- both are the whole number nearest to the exact result
    have heven := hs.even
    rw [hscale, pow_zero, mul_one] at heven
    have hle := hc.le heven le_rfl
    have hge := heven.le hc le_rfl
    rw [le_antisymm hle hge] at hlarge
    omega
  · -- a result with places is at most a tenth of the limit
    have hten : (10 : ℚ) ≤ 10 ^ r.scale := by
      have hpow :=
        pow_le_pow_right₀ (by norm_num : (1 : ℚ) ≤ 10) (Nat.one_le_iff_ne_zero.mpr hscale)
      rwa [pow_one] at hpow
    have hx : |x| * 10 ≤ |x| * 10 ^ r.scale := mul_le_mul_of_nonneg_left hten (abs_nonneg x)
    have hnear := abs_sub_abs_le_abs_sub (x * 10 ^ r.scale) r.coeff
    have hnear' := abs_sub_abs_le_abs_sub (c : ℚ) x
    rw [abs_mul, abs_of_pos (by positivity : (0 : ℚ) < 10 ^ r.scale), abs_sub_comm] at hnear
    have heven := hs.even.near
    have hwhole := hc.near
    have hlarge' : (limit : ℚ) ≤ |(c : ℚ)| := by exact_mod_cast hlarge
    have hfits' : |(r.coeff : ℚ)| ≤ limit - 1 := r.abs_coeff_le
    unfold limit at hlarge' hfits'
    norm_num at hlarge' hfits'
    linarith

theorem alike (h : RoundsTo m x) (h' : RoundsTo m' x) : Alike m m' := by
  cases hm : m with
  | none =>
    cases hm' : m' with
    | none => exact .none
    | some r =>
      obtain ⟨c, hc, hlarge⟩ := h.large_of_none hm
      exact absurd hm' (h'.ne_some_of_large hc hlarge)
  | some r =>
    cases hm' : m' with
    | none =>
      obtain ⟨c, hc, hlarge⟩ := h'.large_of_none hm'
      exact absurd hm (h.ne_some_of_large hc hlarge)
    | some r' => exact .some (le_antisymm (h.le h' hm hm' le_rfl) (h'.le h hm' hm le_rfl))

end RoundsTo

/-! ## Operations -/

section

variable {a a' b b' : Decimal} (ha : Same a a') (hb : Same b b')

include ha hb

theorem add?_alike : Alike (a.add? b) (a'.add? b') := by
  have h := add?_roundsTo a b
  rw [ha, hb] at h
  exact h.alike (add?_roundsTo a' b')

theorem sub?_alike : Alike (a.sub? b) (a'.sub? b') := by
  have h := sub?_roundsTo a b
  rw [ha, hb] at h
  exact h.alike (sub?_roundsTo a' b')

theorem mul?_alike : Alike (a.mul? b) (a'.mul? b') := by
  have h := mul?_roundsTo a b
  rw [ha, hb] at h
  exact h.alike (mul?_roundsTo a' b')

theorem div?_alike : Alike (a.div? b) (a'.div? b') := by
  by_cases hzero : b.value = 0
  · rw [div?, div?, ← hb.isZero_eq, (isZero_iff b).mpr hzero]
    exact .none
  · have h := div?_roundsTo (a := a) hzero
    rw [ha, hb] at h
    exact h.alike (div?_roundsTo (hb ▸ hzero))

end

/-! ## Quotients -/

/-- How an exact result is rounded depends on its value alone. -/
theorem ofFraction?_congr {n n' : ℤ} {d d' : ℕ} (hd : 0 < d) (hd' : 0 < d')
    (h : (n : ℚ) / d = n' / d') (bound : ℕ) : ofFraction? n d bound = ofFraction? n' d' bound := by
  have htried : ∀ s, halfEvenInt (n * powerOfTen s) d = halfEvenInt (n' * powerOfTen s) d' := by
    intro s
    have hx := halfEvenInt_spec (n * powerOfTen s) hd
    have hx' := halfEvenInt_spec (n' * powerOfTen s) hd'
    rw [Int.cast_mul, mul_div_right_comm] at hx hx'
    rw [← h] at hx'
    exact le_antisymm (hx.le hx' le_rfl) (hx'.le hx le_rfl)
  induction bound with
  | zero =>
    have hwhole := htried 0
    rw [show powerOfTen 0 = 1 from rfl, Nat.cast_one, mul_one, mul_one] at hwhole
    rw [ofFraction?, ofFraction?, hwhole]
  | succ s ih => rw [ofFraction?, ofFraction?, htried, ih]

/-- Operands of equal values have one quotient, the places that it is written with included. -/
theorem div_congr {a a' b b' : Decimal} (ha : Same a a') (hb : Same b b') (h0 : b.value ≠ 0) :
    a.div b = a'.div b' := by
  have h0' : b'.value ≠ 0 := hb ▸ h0
  obtain ⟨n, d, hd, hx, hq⟩ := exists_div?_eq (a := a) h0
  obtain ⟨n', d', hd', hx', hq'⟩ := exists_div?_eq (a := a') h0'
  have hvalue : a.value / b.value = a'.value / b'.value := by rw [ha, hb]
  rw [div, div, isZero_eq_false h0, isZero_eq_false h0', hq, hq',
    ofFraction?_congr hd hd' (hx.trans (hvalue.trans hx'.symm))]

/-! ## Steps -/

/-- Steps that are related lead from related results to related results. -/
theorem rel_bind {α β γ δ : Type} {R : α → β → Prop} {S : γ → δ → Prop} {x : Option α}
    {y : Option β} {f : α → Option γ} {g : β → Option δ} (h : Option.Rel R x y)
    (hfg : ∀ a b, R a b → Option.Rel S (f a) (g b)) : Option.Rel S (x >>= f) (y >>= g) := by
  cases h with
  | none => exact .none
  | some hab => exact hfg _ _ hab

end RegionPricing.Decimal
