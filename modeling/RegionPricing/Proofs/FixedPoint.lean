import RegionPricing.Proofs.Decimal.Operations
import RegionPricing.Proofs.Decimal.Places
import RegionPricing.FixedPoint

/-!
# Stored numbers, on values

A stored number stands for a multiple of `10 ^ -k`, where `10 ^ k` is the precision,
except that -1 stands for itself. Both directions are exact: `deflate` gives the
very number (`value_deflate`), and `inflate` rounds once, from the value to the
stored number (`inflate_eq`). The product by the precision in between either keeps
all digits or is out of the range of stored numbers anyway.

So a stored number comes back from what it stands for (`raw_from_real`), with one
exception at each precision: an amount of -1 cannot be told from "no value" (`raw_lost`).
-/

namespace RegionPricing.FixedPoint

open Decimal

/-- The nearest number that can be stored. -/
def clamp (n : ℤ) : ℤ := max (-9223372036854775808) (min n 9223372036854775807)

/-- The stored number of an amount at the precision `10 ^ k`. -/
def rawOf (k : ℕ) (x : ℚ) : Int64 :=
  Int64.ofInt (if x = -1 then -1 else clamp (halfAway (x * 10 ^ k)))

/-! ## From an amount to its stored number -/

theorem value_unset : (ofInt64 unset).value = -1 := by
  have hu : unset.toInt = -1 := by decide
  rw [value_ofInt64, hu]
  norm_num

theorem isSentinel_iff (v : Decimal) : isSentinel v = true ↔ v.value = 0 ∨ v.value = -1 := by
  rw [isSentinel, Bool.or_eq_true, isZero_iff, sameValue_iff, value_unset]

theorem atLeastOne_eq {precision : Int64} {k : ℕ} (hp : precision.toInt = 10 ^ k) :
    atLeastOne precision = precision := by
  have h1 : (1 : ℤ) ≤ 10 ^ k := one_le_pow₀ (by norm_num)
  unfold atLeastOne
  rw [if_neg]
  rw [Int64.lt_iff_toInt_lt, hp]
  exact not_lt.mpr h1

/-- A product by a power of ten keeps all digits of the decimal. -/
theorem value_of_mul?_pow {v p r : Decimal} {k : ℕ} (hp : p.value = 10 ^ k)
    (h : v.mul? p = some r) : r.value = v.value * 10 ^ k := by
  have hround := mul?_roundsTo v p
  rw [hp] at hround
  rcases Nat.le_total k v.scale with hle | hge
  · have hpow : (10 : ℚ) ^ k * 10 ^ (v.scale - k) = 10 ^ v.scale := by
      rw [← pow_add, Nat.add_sub_cancel' hle]
    have hplaces : HasPlaces (v.scale - k) (v.value * 10 ^ k) :=
      ⟨v.coeff, by rw [mul_assoc, hpow, value_mul_pow]⟩
    have hsize : |v.value * 10 ^ k| * 10 ^ (v.scale - k) < limit := by
      rw [← abs_of_pos (by positivity : (0 : ℚ) < 10 ^ (v.scale - k)), ← abs_mul, mul_assoc, hpow,
        value_mul_pow]
      linarith [v.abs_coeff_le]
    have hs := v.scale_le
    obtain ⟨r', hr', hv⟩ := hround.exact hplaces (by omega) hsize
    rw [h, Option.some.injEq] at hr'
    rw [hr', hv]
  · -- no fraction is left, and a whole number is never rounded
    have hpow : (10 : ℚ) ^ k = 10 ^ v.scale * 10 ^ (k - v.scale) := by
      rw [← pow_add, Nat.add_sub_cancel' hge]
    have hwhole : v.value * 10 ^ k = (v.coeff * 10 ^ (k - v.scale) : ℤ) := by
      rw [hpow, ← mul_assoc, value_mul_pow]
      push_cast
      rfl
    rw [hwhole] at hround ⊢
    exact hround.value_eq_intCast h

theorem halfAway_neg_of_neg {x : ℚ} (h : x < 0) : halfAway x ≤ 0 := by
  rw [halfAway, if_pos h, neg_nonpos, Int.floor_nonneg]
  linarith

theorem halfAway_nonneg {x : ℚ} (h : 0 ≤ x) : 0 ≤ halfAway x := by
  rw [halfAway, if_neg (not_lt.mpr h), Int.floor_nonneg]
  linarith

/-- What is too large to be stored becomes the largest or the least stored number. -/
theorem saturate_eq {v : Decimal} {k : ℕ}
    (h : ¬(-9223372036854775808 ≤ halfAway (v.value * 10 ^ k) ∧
      halfAway (v.value * 10 ^ k) ≤ 9223372036854775807)) :
    saturate v = Int64.ofInt (clamp (halfAway (v.value * 10 ^ k))) := by
  have hpow : (0 : ℚ) < 10 ^ k := by positivity
  unfold saturate clamp
  split
  next hneg =>
    rw [isNegative_iff] at hneg
    have := halfAway_neg_of_neg (mul_neg_of_neg_of_pos hneg hpow)
    rw [max_eq_left (by omega)]
    rfl
  next hpos =>
    rw [isNegative_iff, not_lt] at hpos
    have := halfAway_nonneg (mul_nonneg hpos hpow.le)
    rw [min_eq_right (by omega)]
    rfl

/-- What can be stored is far within the range of decimals. -/
theorem not_fits_of_mul?_eq_none {v p : Decimal} {k : ℕ} (hp : p.value = 10 ^ k)
    (hm : v.mul? p = none) :
    ¬(-9223372036854775808 ≤ halfAway (v.value * 10 ^ k) ∧
      halfAway (v.value * 10 ^ k) ≤ 9223372036854775807) := by
  intro hfit
  have hround := mul?_roundsTo v p
  rw [hp] at hround
  have hnear := abs_le.mp (halfAway_near (v.value * 10 ^ k))
  have h1 : (-9223372036854775808 : ℚ) ≤ halfAway (v.value * 10 ^ k) := by exact_mod_cast hfit.1
  have h2 : (halfAway (v.value * 10 ^ k) : ℚ) ≤ 9223372036854775807 := by exact_mod_cast hfit.2
  have hfits : Fits (v.value * 10 ^ k) := by
    unfold Fits limit
    rw [abs_lt]
    constructor <;> norm_num <;> linarith
  obtain ⟨r, hr⟩ := hround.exists_some hfits
  rw [hr] at hm
  exact absurd hm (by simp)

theorem inflate_eq {v : Decimal} {precision : Int64} {k : ℕ} (hp : precision.toInt = 10 ^ k) :
    inflate v precision = rawOf k v.value := by
  have hvalue : (ofInt64 precision).value = 10 ^ k := by
    rw [value_ofInt64, hp]
    push_cast
    rfl
  unfold inflate rawOf
  rw [atLeastOne_eq hp]
  split
  next hs =>
    rw [isSentinel_iff] at hs
    rcases hs with h0 | h1
    · have hi : v.truncInt = 0 := truncInt_eq (by rw [h0]; rfl)
      rw [toInt64?, hi, h0, zero_mul]
      have : halfAway 0 = 0 := by exact_mod_cast halfAway_intCast 0
      rw [this]
      norm_num [clamp]
    · have hi : v.truncInt = -1 := truncInt_eq (by rw [h1]; norm_num)
      rw [toInt64?, hi, h1, if_pos rfl]
      norm_num
  next hs =>
    rw [isSentinel_iff, not_or] at hs
    rw [if_neg hs.2]
    split
    next scaled hm =>
      have hscaled := value_of_mul?_pow hvalue hm
      have htrunc : (scaled.roundHalfAway 0).truncInt = halfAway (v.value * 10 ^ k) := by
        apply truncInt_eq
        rw [value_roundHalfAway, hscaled, pow_zero, mul_one, div_one]
      rw [toInt64?, htrunc]
      split
      next hfit =>
        rw [Option.getD_some, clamp, min_eq_left hfit.2, max_eq_right hfit.1]
      next hlarge => exact saturate_eq hlarge
    next hm => exact saturate_eq (not_fits_of_mul?_eq_none hvalue hm)

/-! ## From a stored number to its amount -/

/-- The amount that a stored number stands for at the precision `10 ^ k`. -/
def amountOf (k : ℕ) (raw : Int64) : ℚ := if raw = unset then -1 else raw.toInt / 10 ^ k

theorem amountOf_hasPlaces (k : ℕ) (raw : Int64) : HasPlaces k (amountOf k raw) := by
  unfold amountOf
  split
  next => exact HasPlaces.one.neg
  next => exact HasPlaces.div_pow _ k

theorem amountOf_eq {k : ℕ} {raw : Int64} {n : ℤ} (hn : raw.toInt = n) (hu : n ≠ -1) :
    amountOf k raw = n / 10 ^ k := by
  unfold amountOf
  split
  next h =>
    rw [h] at hn
    exact absurd hn.symm hu
  next => rw [hn]

theorem amountOf_pos {k : ℕ} {raw : Int64} (h : 0 < raw) : 0 < amountOf k raw := by
  have hpos : 0 < raw.toInt := Int64.lt_iff_toInt_lt.mp h
  unfold amountOf
  split
  next hu =>
    rw [hu] at h
    exact absurd h (by decide)
  next =>
    have : (0 : ℚ) < raw.toInt := by exact_mod_cast hpos
    positivity

theorem abs_toInt_le (n : Int64) : |(n.toInt : ℚ)| ≤ 9223372036854775808 := by
  have h1 := n.le_toInt
  have h2 := n.toInt_lt
  rw [abs_le]
  constructor <;> norm_num at h1 h2 ⊢ <;> exact_mod_cast (by omega)

theorem value_deflate {raw precision : Int64} {k : ℕ} (hp : precision.toInt = 10 ^ k)
    (hk : k ≤ 18) : (deflate raw precision).value = amountOf k raw := by
  have hpow : (0 : ℚ) < 10 ^ k := by positivity
  have hpos : ¬precision ≤ 0 := by
    rw [Int64.le_iff_toInt_le, hp]
    exact not_le.mpr (by positivity)
  unfold deflate amountOf
  by_cases hu : raw = unset
  · rw [if_pos (Or.inr (Or.inl hu)), if_pos hu, hu, value_unset]
  rw [if_neg hu]
  by_cases h0 : raw = 0
  · rw [if_pos (Or.inl h0), value_ofInt64, h0, Int64.toInt_zero, Int.cast_zero, zero_div]
  rw [if_neg (by tauto)]
  have hvalue : (ofInt64 precision).value = 10 ^ k := by
    rw [value_ofInt64, hp]
    push_cast
    rfl
  have hne : (ofInt64 precision).value ≠ 0 := by
    rw [hvalue]
    exact hpow.ne'
  have hround := div?_roundsTo hne (a := ofInt64 raw)
  rw [hvalue, value_ofInt64] at hround
  have hsize : |(raw.toInt : ℚ) / 10 ^ k| * 10 ^ k < limit := by
    rw [abs_div, abs_of_pos hpow, div_mul_cancel₀ _ hpow.ne']
    have := abs_toInt_le raw
    unfold limit
    norm_num
    linarith
  obtain ⟨r, hr, hv⟩ := hround.exact (HasPlaces.div_pow _ k) (by omega) hsize
  rw [quotient, hr, Option.getD_some, hv]

/-! ## The precisions in use -/

theorem value_priceOfRaw (raw : Int64) : (priceOfRaw raw).value = amountOf 5 raw :=
  value_deflate (by decide) (by omega)

theorem value_gramsOfRaw (raw : Int64) : (gramsOfRaw raw).value = amountOf 5 raw :=
  value_deflate (by decide) (by omega)

theorem rawOfPrice_eq (v : Decimal) : rawOfPrice v = rawOf 5 v.value :=
  inflate_eq (by decide)

theorem clamp_toInt (raw : Int64) : clamp raw.toInt = raw.toInt := by
  have h1 := raw.le_toInt
  have h2 := raw.toInt_lt
  rw [clamp, min_eq_left (by omega), max_eq_right (by omega)]

/-- A stored number comes back from its amount, unless the amount is -1. -/
theorem rawOf_amountOf (k : ℕ) (raw : Int64) :
    rawOf k (amountOf k raw) = if raw.toInt = -10 ^ k then unset else raw := by
  have hpow : (0 : ℚ) < 10 ^ k := by positivity
  by_cases hu : raw = unset
  · rw [amountOf, if_pos hu, rawOf, if_pos rfl, hu, ite_self]
    rfl
  · have hone : (raw.toInt : ℚ) / 10 ^ k = -1 ↔ raw.toInt = -10 ^ k := by
      rw [div_eq_iff hpow.ne', neg_one_mul]
      exact_mod_cast Iff.rfl
    rw [amountOf, if_neg hu, rawOf]
    by_cases hraw : raw.toInt = -10 ^ k
    · rw [if_pos (hone.mpr hraw), if_pos hraw]
      rfl
    · rw [if_neg (mt hone.mp hraw), if_neg hraw, div_mul_cancel₀ _ hpow.ne', halfAway_intCast,
        clamp_toInt, Int64.ofInt_toInt]

theorem inflate_deflate {precision : Int64} {k : ℕ} (hp : precision.toInt = 10 ^ k) (hk : k ≤ 18)
    (raw : Int64) :
    inflate (deflate raw precision) precision = if raw.toInt = -10 ^ k then unset else raw := by
  rw [inflate_eq hp, value_deflate hp hk, rawOf_amountOf]

/-- The greatest amount that can be stored. -/
def greatestAmount (k : ℕ) : ℚ := 9223372036854775807 / 10 ^ k

theorem amountOf_le {k : ℕ} (raw : Int64) : amountOf k raw ≤ greatestAmount k := by
  have hpow : (0 : ℚ) < 10 ^ k := by positivity
  unfold amountOf greatestAmount
  split
  next => exact (by norm_num : (-1 : ℚ) ≤ 0).trans (by positivity)
  next =>
    rw [div_le_div_iff_of_pos_right hpow]
    exact_mod_cast raw.toInt_le

theorem toInt_rawOf_of_ne {k : ℕ} {x : ℚ} (hx : x ≠ -1) :
    (rawOf k x).toInt = clamp (halfAway (x * 10 ^ k)) := by
  rw [rawOf, if_neg hx]
  unfold clamp
  exact Int64.toInt_ofInt_of_le (by omega) (by omega)

theorem toInt_rawOf {k : ℕ} {x : ℚ} (hx : 0 ≤ x) :
    (rawOf k x).toInt = min (halfAway (x * 10 ^ k)) 9223372036854775807 := by
  have hpow : (0 : ℚ) < 10 ^ k := by positivity
  have h0 := halfAway_nonneg (mul_nonneg hx hpow.le)
  rw [toInt_rawOf_of_ne (by linarith), clamp, max_eq_right (by omega)]

/-- An amount with few enough places is stored as it is, or as the greatest one. -/
theorem amountOf_rawOf {k : ℕ} {x : ℚ} (hx : 0 ≤ x) (hk : HasPlaces k x) :
    amountOf k (rawOf k x) = min x (greatestAmount k) := by
  have hpow : (0 : ℚ) < 10 ^ k := by positivity
  obtain ⟨m, hm⟩ := hk
  have hraw := toInt_rawOf (k := k) hx
  rw [hm, halfAway_intCast] at hraw
  have hm0 : 0 ≤ m := by
    have : (0 : ℚ) ≤ m := hm ▸ mul_nonneg hx hpow.le
    exact_mod_cast this
  rw [amountOf_eq hraw (by omega), Int.cast_min, Int.cast_ofNat, ← min_div_div_right hpow.le, ← hm,
    mul_div_cancel_right₀ _ hpow.ne', greatestAmount]

/-- Of two amounts the smaller one is not stored as the greater number. -/
theorem rawOf_mono {k : ℕ} {x y : ℚ} (hx : x ≠ -1) (hy : y ≠ -1) (hxy : x ≤ y) :
    rawOf k x ≤ rawOf k y := by
  have hpow : (0 : ℚ) < 10 ^ k := by positivity
  rw [Int64.le_iff_toInt_le, toInt_rawOf_of_ne hx, toInt_rawOf_of_ne hy]
  exact max_le_max_left _ (min_le_min_right _
    (halfAway_mono (mul_le_mul_of_nonneg_right hxy hpow.le)))

/-- What is too large to be stored becomes the greatest number. -/
theorem rawOf_eq_maxValue {k : ℕ} {x : ℚ} (hx : greatestAmount k ≤ x) :
    rawOf k x = Int64.maxValue := by
  have hpow : (0 : ℚ) < 10 ^ k := by positivity
  have hx0 : 0 ≤ x := le_trans (div_nonneg (by norm_num) hpow.le) hx
  rw [greatestAmount, div_le_iff₀ hpow] at hx
  have hlarge : (9223372036854775807 : ℤ) ≤ halfAway (x * 10 ^ k) := by
    rw [← halfAway_intCast 9223372036854775807]
    exact halfAway_mono (by exact_mod_cast hx)
  rw [← Int64.toInt_inj, toInt_rawOf hx0, min_eq_right hlarge]
  rfl

theorem amountOf_mono {k : ℕ} {raw raw' : Int64} (h : 0 < raw) (hraw : raw ≤ raw') :
    amountOf k raw ≤ amountOf k raw' := by
  have h0 : 0 < raw.toInt := Int64.lt_iff_toInt_lt.mp h
  have hle : raw.toInt ≤ raw'.toInt := Int64.le_iff_toInt_le.mp hraw
  rw [amountOf_eq rfl (by omega), amountOf_eq rfl (by omega)]
  exact (div_le_div_iff_of_pos_right (by positivity)).mpr (by exact_mod_cast hle)

/-! ## There and back -/

/-- The stored number that is lost: it stands for an amount of -1, which means "no value". -/
theorem toInt_eq_neg_pow_five {raw : Int64} : raw.toInt = -10 ^ 5 ↔ raw = -100000 := by
  have hlost : (-100000 : Int64).toInt = -10 ^ 5 := by decide
  rw [← hlost, Int64.toInt_inj]

/-- Every stored number comes back from the decimal that it stands for, at every precision, but
for the one whose decimal is -1: that one comes back as "no value". -/
theorem raw_from_real (raw : Int64) :
    (∀ (k : ℕ) (precision : Int64), k ≤ 18 → precision.toInt = 10 ^ k →
      inflate (deflate raw precision) precision = if raw.toInt = -10 ^ k then unset else raw) ∧
    (rawOfPrice (priceOfRaw raw) = if raw = -100000 then unset else raw) ∧
    (rawOfGrams (gramsOfRaw raw) = if raw = -100000 then unset else raw) ∧
    (rawOfRate (rateOfRaw raw) = if raw = -100000 then unset else raw) := by
  have hfive : ∀ precision : Int64, precision.toInt = 10 ^ 5 →
      inflate (deflate raw precision) precision = if raw = -100000 then unset else raw := by
    intro precision hp
    rw [inflate_deflate hp (by omega)]
    simp only [toInt_eq_neg_pow_five]
  refine ⟨fun k precision hk hp => inflate_deflate hp hk raw, ?_, ?_, ?_⟩
  · exact hfive pricePrecision (by decide)
  · exact hfive weightPrecision (by decide)
  · exact hfive ratePrecision (by decide)

/-- The least and the greatest stored number keep all their digits, with eighteen places too. -/
theorem raw_from_real_extremes :
    inflate (deflate Int64.minValue 1000000000000000000) 1000000000000000000 = Int64.minValue ∧
      rawOfPrice (priceOfRaw Int64.maxValue) = Int64.maxValue :=
  ⟨(raw_from_real Int64.minValue).1 18 1000000000000000000 (by decide) (by decide),
    (raw_from_real Int64.maxValue).2.1⟩

/-- A stored price of -1.00 is read as the decimal -1, and stored again as "no value". -/
theorem raw_lost :
    (priceOfRaw (-100000)).value = -1 ∧ rawOfPrice (priceOfRaw (-100000)) = unset ∧
      rawOfPrice (priceOfRaw (-100000)) ≠ -100000 := by
  refine ⟨?_, by decide +kernel, by decide +kernel⟩
  rw [value_priceOfRaw, amountOf_eq (n := -100000) (by decide) (by decide)]
  norm_num

end RegionPricing.FixedPoint
