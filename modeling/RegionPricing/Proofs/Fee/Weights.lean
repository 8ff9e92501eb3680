import RegionPricing.Proofs.Decimal.Whole
import RegionPricing.Proofs.Store.Precision

/-!
# The weight that a fee is charged for

A parcel above the start weight of a bracket is charged for its weight rounded up to the unit
of the bracket, any other for the start weight (`Bracket.chargedWeight`). Where the unit is a
fraction of a gram, the computation counts in that unit, otherwise in grams. Both come to the
same: a weight of the grid loses no digit on the way, and the weights that are computed are
the exact ones, multiplied by one power of ten (`scaled_of_weights?`).
-/

namespace RegionPricing.Store

open Decimal

theorem OnGrid.abs_value_le {d : Decimal} (h : OnGrid d) : |d.value| ≤ 10 ^ 14 := by
  obtain ⟨n, hn⟩ := h
  have hraw := FixedPoint.abs_toInt_le n
  rw [hn, abs_div, abs_of_pos (by positivity : (0 : ℚ) < 10 ^ 5), div_le_iff₀ (by positivity)]
  linarith

/-- What a stored number stands for is on the grid, also where it means "no value". -/
theorem onGrid_of_amountOf {d : Decimal} {raw : Int64} (h : d.value = FixedPoint.amountOf 5 raw) :
    OnGrid d := by
  unfold FixedPoint.amountOf at h
  split at h
  next =>
    have hraw : (-100000 : Int64).toInt = -100000 := by decide
    exact ⟨-100000, by rw [h, hraw]; norm_num⟩
  next => exact ⟨raw, h⟩

theorem onGrid_gramsOfRaw (raw : Int64) : OnGrid (FixedPoint.gramsOfRaw raw) :=
  onGrid_of_amountOf (FixedPoint.value_gramsOfRaw raw)

theorem onGrid_priceOfRaw (raw : Int64) : OnGrid (FixedPoint.priceOfRaw raw) :=
  onGrid_of_amountOf (FixedPoint.value_priceOfRaw raw)

end RegionPricing.Store

namespace RegionPricing.Fee

open Decimal Store

/-! ## Multiples of a unit -/

/-- The least multiple of a unit that is not below a number. -/
def leastMultiple (unit x : ℚ) : ℚ := ⌈x / unit⌉ * unit

section

variable {unit x y : ℚ}

theorem leastMultiple_isLeast (h : 0 < unit) (x : ℚ) :
    IsLeast {y | (∃ n : ℤ, y = n * unit) ∧ x ≤ y} (leastMultiple unit x) := by
  refine ⟨⟨⟨_, rfl⟩, ?_⟩, ?_⟩
  · rw [leastMultiple, ← div_le_iff₀ h]
    exact Int.le_ceil _
  · rintro y ⟨⟨n, rfl⟩, hxy⟩
    refine mul_le_mul_of_nonneg_right ?_ h.le
    exact_mod_cast Int.ceil_le.mpr ((div_le_iff₀ h).mpr hxy)

theorem le_leastMultiple (h : 0 < unit) (x : ℚ) : x ≤ leastMultiple unit x :=
  (leastMultiple_isLeast h x).1.2

theorem leastMultiple_mono (h : 0 < unit) (hxy : x ≤ y) :
    leastMultiple unit x ≤ leastMultiple unit y :=
  (leastMultiple_isLeast h x).2 ⟨⟨_, rfl⟩, hxy.trans (le_leastMultiple h y)⟩

theorem leastMultiple_lt (h : 0 < unit) (x : ℚ) : leastMultiple unit x < x + unit := by
  have hceil := mul_lt_mul_of_pos_right (Int.ceil_lt_add_one (x / unit)) h
  rwa [add_mul, one_mul, div_mul_cancel₀ _ h.ne'] at hceil

end

/-- Above the least weight, what is rounded up is a multiple of the unit, if the quotient by the
unit needs no rounding. -/
theorem roundUpTo_roundsTo {least unit v : Decimal} (hleast : least.value < v.value)
    (hunit : 0 < unit.value) (hquot : ∃ q, v.div? unit = some q ∧ q.value = v.value / unit.value) :
    RoundsTo (roundUpTo least unit v) (leastMultiple unit.value v.value) := by
  have hnot : v.le least = false := by
    rw [← Bool.not_eq_true, le_iff]
    exact not_le.mpr hleast
  obtain ⟨q, hq, hv⟩ := hquot
  have hround := mul?_roundsTo q.ceil unit
  rw [value_ceil, hv] at hround
  unfold roundUpTo
  rw [hnot, (isPositive_iff unit).mpr hunit, hq]
  exact hround

theorem roundUpTo_of_le {least unit v : Decimal} (h : v.value ≤ least.value) :
    roundUpTo least unit v = some least := by
  rw [roundUpTo, (le_iff v least).mpr h, if_pos rfl]

namespace Bracket

variable {b : Bracket}

theorem fee_eq_ok_iff {grams f : Decimal} : b.fee grams = .ok f ↔ b.fee? grams = some f := by
  unfold fee
  split
  next h => rw [h, Except.ok.injEq, Option.some.injEq]
  next h => simp [h]

/-! ## The weights of a bracket -/

/-- The unit that weights are rounded up to, in grams. -/
def unit (b : Bracket) : ℚ := 10 ^ (-b.exponent)

/-- What a parcel of `w` grams is charged for, in grams. -/
def chargedWeight (b : Bracket) (w : ℚ) : ℚ :=
  if w ≤ b.startWeight.value then b.startWeight.value else leastMultiple b.unit w

/-- How many units of its computation a bracket counts in a gram. -/
def scale (b : Bracket) : ℚ := 10 ^ b.exponent.toNat

theorem unit_pos (b : Bracket) : 0 < b.unit := zpow_pos (by norm_num) _

theorem scale_pos (b : Bracket) : 0 < b.scale := pow_pos (by norm_num) _

theorem exponent_bounds (b : Bracket) : -18 ≤ b.exponent ∧ b.exponent ≤ 18 := by
  unfold exponent maxExponent
  omega

theorem unit_le (b : Bracket) : b.unit ≤ 10 ^ 18 := by
  have hbounds := b.exponent_bounds
  have hle : (10 : ℚ) ^ (-b.exponent) ≤ 10 ^ (18 : ℤ) :=
    zpow_le_zpow_right₀ (by norm_num) (by omega)
  exact_mod_cast hle

theorem startWeight_le_chargedWeight (b : Bracket) (w : ℚ) :
    b.startWeight.value ≤ b.chargedWeight w := by
  unfold chargedWeight
  split
  next => exact le_rfl
  next h => exact (not_le.mp h).le.trans (le_leastMultiple b.unit_pos w)

theorem chargedWeight_mono (b : Bracket) {w w' : ℚ} (h : w ≤ w') :
    b.chargedWeight w ≤ b.chargedWeight w' := by
  by_cases hw : w ≤ b.startWeight.value
  · rw [chargedWeight, if_pos hw]
    exact b.startWeight_le_chargedWeight w'
  · have hw' : ¬w' ≤ b.startWeight.value := fun hle => hw (h.trans hle)
    rw [chargedWeight, chargedWeight, if_neg hw, if_neg hw']
    exact leastMultiple_mono b.unit_pos h

/-- Weights that are the exact ones, counted in the unit of the computation. -/
structure Scaled (b : Bracket) (w : ℚ) (u : Weights) : Prop where
  rounded : u.rounded.value = b.chargedWeight w * b.scale
  start : u.start.value = b.startWeight.value * b.scale
  step : u.step.value = b.weightStep.value * b.scale

/-! ### Fractions of a gram -/

theorem unit_of_pos (h : 0 < b.exponent) : b.unit = 1 / b.scale := by
  obtain ⟨k, hk⟩ := Int.eq_ofNat_of_zero_le h.le
  rw [unit, scale, hk, Int.toNat_natCast, zpow_neg, zpow_natCast, one_div]

theorem scale_of_nonpos (h : b.exponent ≤ 0) : b.scale = 1 := by
  rw [scale, Int.toNat_of_nonpos h, pow_zero]

theorem unit_of_nonpos (h : b.exponent ≤ 0) : b.unit = 10 ^ b.exponent.natAbs := by
  have hneg : -b.exponent = (b.exponent.natAbs : ℤ) := by omega
  rw [unit, hneg, zpow_natCast]

theorem exists_div?_one (v : Decimal) :
    ∃ q, v.div? one = some q ∧ q.value = v.value / one.value := by
  have hround := div?_roundsTo (a := v) (b := one) (by simp)
  rw [value_one, div_one] at hround ⊢
  exact hround.exists_eq

theorem exists_roundUpTo_one (start weight : Decimal) :
    ∃ r, roundUpTo start one weight = some r := by
  by_cases hle : weight.value ≤ start.value
  · exact ⟨start, roundUpTo_of_le hle⟩
  · have hround := roundUpTo_roundsTo (not_le.mp hle) (by simp) (exists_div?_one weight)
    rw [value_one, leastMultiple, div_one, mul_one, ← value_ceil] at hround
    obtain ⟨r, hr, _⟩ := hround.exists_eq
    exact ⟨r, hr⟩

/-- Rounded up to a whole number of units. -/
theorem value_roundUpTo_one {start weight r : Decimal} {w : ℚ} (h : 0 < b.exponent)
    (hstart : start.value = b.startWeight.value * b.scale) (hweight : weight.value = w * b.scale)
    (hr : roundUpTo start one weight = some r) : r.value = b.chargedWeight w * b.scale := by
  have hle : weight.value ≤ start.value ↔ w ≤ b.startWeight.value := by
    rw [hstart, hweight, mul_le_mul_iff_left₀ b.scale_pos]
  unfold chargedWeight
  split
  next hw =>
    rw [roundUpTo_of_le (hle.mpr hw), Option.some.injEq] at hr
    rw [← hr, hstart]
  next hw =>
    have hone : 0 < one.value := by simp
    have hround := roundUpTo_roundsTo (not_le.mp (mt hle.mp hw)) hone (exists_div?_one weight)
    rw [value_one, leastMultiple, div_one, mul_one] at hround
    rw [hround.value_eq_intCast hr, leastMultiple, unit_of_pos h, hweight, div_div_eq_mul_div,
      div_one, mul_assoc, one_div_mul_cancel b.scale_pos.ne', mul_one]

/-! ### Whole grams -/

theorem exists_div?_pow10 {v : Decimal} {j : ℕ} (hv : OnGrid v) (hj : j ≤ 18) :
    ∃ q, v.div? (pow10 j) = some q ∧ q.value = v.value / (pow10 j).value := by
  have hpow : (pow10 j).value = 10 ^ j := value_pow10 (by omega)
  obtain ⟨n, hn⟩ := hv
  have hdiv : v.value / (pow10 j).value = n.toInt / 10 ^ (5 + j) := by
    rw [hn, hpow, div_div, ← pow_add]
  have hround := div?_roundsTo (a := v) (b := pow10 j) (by rw [hpow]; positivity)
  rw [hdiv] at hround ⊢
  refine hround.exact (HasPlaces.div_pow _ _) (by omega) ?_
  have hpos : (0 : ℚ) < 10 ^ (5 + j) := by positivity
  rw [abs_div, abs_of_pos hpos, div_mul_cancel₀ _ hpos.ne']
  have := FixedPoint.abs_toInt_le n
  unfold limit
  norm_num
  linarith

/-- Above the start weight, a weight of the grid is rounded up to a multiple of whole grams. -/
theorem roundUpTo_pow10_roundsTo {grams : Decimal} (h : b.exponent ≤ 0) (hg : OnGrid grams)
    (hw : b.startWeight.value < grams.value) :
    RoundsTo (roundUpTo b.startWeight (pow10 b.exponent.natAbs) grams)
      (leastMultiple b.unit grams.value) := by
  have hbounds := b.exponent_bounds
  have hpow : (pow10 b.exponent.natAbs).value = 10 ^ b.exponent.natAbs := value_pow10 (by omega)
  have hround := roundUpTo_roundsTo hw (by rw [hpow]; positivity)
    (exists_div?_pow10 hg (by omega : b.exponent.natAbs ≤ 18))
  rwa [hpow, ← unit_of_nonpos h] at hround

theorem exists_roundUpTo_pow10 {grams : Decimal} (h : b.exponent ≤ 0) (hg : OnGrid grams) :
    ∃ r, roundUpTo b.startWeight (pow10 b.exponent.natAbs) grams = some r := by
  by_cases hle : grams.value ≤ b.startWeight.value
  · exact ⟨_, roundUpTo_of_le hle⟩
  · refine (roundUpTo_pow10_roundsTo h hg (not_le.mp hle)).exists_some ?_
    have hle := le_leastMultiple b.unit_pos grams.value
    have hlt := leastMultiple_lt b.unit_pos grams.value
    have hgrams := abs_le.mp hg.abs_value_le
    have hunit := b.unit_le
    rw [Fits, limit, abs_lt]
    constructor <;> norm_num <;> linarith [hgrams.1, hgrams.2]

/-- Rounded up to a multiple of some whole grams. -/
theorem value_roundUpTo_pow10 {grams r : Decimal} (h : b.exponent ≤ 0) (hg : OnGrid grams)
    (hr : roundUpTo b.startWeight (pow10 b.exponent.natAbs) grams = some r) :
    r.value = b.chargedWeight grams.value := by
  unfold chargedWeight
  split
  next hw =>
    rw [roundUpTo_of_le hw, Option.some.injEq] at hr
    rw [hr]
  next hw =>
    have hround := roundUpTo_pow10_roundsTo h hg (not_le.mp hw)
    -- a multiple of whole grams is a whole number
    have hwhole : leastMultiple b.unit grams.value
        = ((⌈grams.value / b.unit⌉ * 10 ^ b.exponent.natAbs : ℤ) : ℚ) := by
      rw [leastMultiple, unit_of_nonpos h]
      push_cast
      rfl
    rw [hwhole] at hround ⊢
    exact hround.value_eq_intCast hr

/-! ### Together -/

/-- The weights that a fee is computed from are the exact ones. -/
theorem scaled_of_weights? {grams : Decimal} {u : Weights} (hg : OnGrid grams)
    (h : b.weights? grams = some u) : b.Scaled grams.value u := by
  have hbounds := b.exponent_bounds
  unfold weights? at h
  split at h
  next hpos =>
    simp only [Option.bind_eq_bind, Option.bind_eq_some_iff, Option.pure_def,
      Option.some.injEq] at h
    obtain ⟨start, hstart, weight, hweight, step, hstep, rounded, hrounded, rfl⟩ := h
    have hpow : (pow10 b.exponent.toNat).value = 10 ^ b.exponent.toNat := value_pow10 (by omega)
    have hstart' := FixedPoint.value_of_mul?_pow hpow hstart
    have hweight' := FixedPoint.value_of_mul?_pow hpow hweight
    exact ⟨value_roundUpTo_one hpos hstart' hweight' hrounded, hstart',
      FixedPoint.value_of_mul?_pow hpow hstep⟩
  next hnonpos =>
    simp only [Option.bind_eq_bind, Option.bind_eq_some_iff, Option.pure_def,
      Option.some.injEq] at h
    obtain ⟨rounded, hrounded, rfl⟩ := h
    have hscale := scale_of_nonpos (not_lt.mp hnonpos)
    refine ⟨?_, by rw [hscale, mul_one], by rw [hscale, mul_one]⟩
    rw [hscale, mul_one]
    exact value_roundUpTo_pow10 (not_lt.mp hnonpos) hg hrounded

/-- The weights can be computed where they can be counted in the unit of the computation. -/
theorem exists_weights?_iff {grams : Decimal} (hg : OnGrid grams) :
    (∃ u, b.weights? grams = some u) ↔ (0 < b.exponent → ∀ d ∈ [b.startWeight, grams, b.weightStep],
      ∃ r, d.mul? (pow10 b.exponent.toNat) = some r) := by
  unfold weights?
  split
  next hpos =>
    simp only [Option.bind_eq_bind, Option.bind_eq_some_iff, Option.pure_def, Option.some.injEq,
      hpos, List.forall_mem_cons, true_implies]
    constructor
    · rintro ⟨u, start, hstart, weight, hweight, step, hstep, _⟩
      exact ⟨⟨start, hstart⟩, ⟨weight, hweight⟩, ⟨step, hstep⟩, by simp⟩
    · rintro ⟨⟨start, hstart⟩, ⟨weight, hweight⟩, ⟨step, hstep⟩, _⟩
      obtain ⟨rounded, hrounded⟩ := exists_roundUpTo_one start weight
      exact ⟨_, start, hstart, weight, hweight, step, hstep, rounded, hrounded, rfl⟩
  next hnonpos =>
    obtain ⟨rounded, hrounded⟩ := exists_roundUpTo_pow10 (not_lt.mp hnonpos) hg
    simp only [Option.bind_eq_bind, Option.pure_def, hrounded, Option.bind_some, hnonpos,
      false_implies, iff_true]
    exact ⟨_, rfl⟩

end Bracket

end RegionPricing.Fee
