import RegionPricing.Proofs.Fee.Weights

/-!
# The fee of a bracket is exact

`Bracket.exactFee` is the fee by the terms of a bracket, over the rational numbers: the start
price, an increment for each full step by which the charged weight is above the start weight,
and the adjustment. Where the terms and the weight are on the grid of stored numbers, the
computed fee is that number (`fee_exact`).

The only operation that has to round is the division by the step, and the fraction of its
result is dropped. In units of the grid both the weight above the start weight and the step
are whole numbers of moderate size, so that no step is won or lost (`value_of_steps?`). After
that, amounts have five places, and those that can be stored are far from the limit of decimals.
-/

namespace RegionPricing.Fee

open Decimal FixedPoint Store

theorem hasPlaces_of_onGrid {d : Decimal} (h : OnGrid d) : HasPlaces 5 d.value := by
  obtain ⟨n, hn⟩ := h
  rw [hn]
  exact HasPlaces.div_pow _ 5

namespace Bracket

/-- By how many grams the weight that a parcel is charged for is above the start weight. -/
def above (b : Bracket) (w : ℚ) : ℚ := b.chargedWeight w - b.startWeight.value

/-- The number of full steps above the start weight. -/
def fullSteps (b : Bracket) (w : ℚ) : ℤ :=
  if 0 < b.weightStep.value then ⌊b.above w / b.weightStep.value⌋ else 0

/-- The increment for all steps. -/
def increment (b : Bracket) (w : ℚ) : ℚ := b.fullSteps w * b.stepPrice.value

/-- What a parcel of `w` grams comes to by the terms of a bracket. -/
def total (b : Bracket) (w : ℚ) : ℚ :=
  b.startPrice.value + b.increment w + b.adjustment.value

/-- The fee for a parcel of `w` grams by the terms of a bracket. -/
def exactFee (b : Bracket) (w : ℚ) : ℚ := max 0 (b.total w)

/-- A bracket whose terms are on the grid. -/
structure Stored (b : Bracket) : Prop where
  startPrice : OnGrid b.startPrice
  startWeight : OnGrid b.startWeight
  stepPrice : OnGrid b.stepPrice
  weightStep : OnGrid b.weightStep
  adjustment : OnGrid b.adjustment

theorem stored_of_decimals {b : Bracket} (h : ∀ d ∈ b.decimals, OnGrid d) : b.Stored := by
  simp only [decimals, List.forall_mem_cons] at h
  obtain ⟨hprice, hweight, hstep, hweightStep, hadjustment, _⟩ := h
  exact ⟨hprice, hweight, hstep, hweightStep, hadjustment⟩

variable {b : Bracket} {grams : Decimal}

/-! ## The weight above the start weight -/

theorem leastMultiple_hasPlaces {w : ℚ} (hw : HasPlaces 5 w) :
    HasPlaces 5 (leastMultiple b.unit w) := by
  rcases le_total b.exponent 5 with hle | hge
  · refine ⟨⌈w / b.unit⌉ * 10 ^ (5 - b.exponent).toNat, ?_⟩
    have hpow : b.unit * 10 ^ 5 = 10 ^ (5 - b.exponent).toNat := by
      have hexp : -b.exponent + (5 : ℕ) = ((5 - b.exponent).toNat : ℤ) := by omega
      rw [unit, ← zpow_natCast, ← zpow_add₀ (by norm_num), hexp, zpow_natCast]
    rw [leastMultiple, mul_assoc, hpow]
    push_cast
    rfl
  · -- a weight of the grid is a multiple of so fine a unit
    obtain ⟨n, hn⟩ := hw
    have hpow : 1 / b.unit = 10 ^ 5 * 10 ^ (b.exponent - 5).toNat := by
      have hexp : b.exponent = (5 : ℕ) + ((b.exponent - 5).toNat : ℤ) := by omega
      rw [unit, zpow_neg, one_div, inv_inv, ← zpow_natCast, ← zpow_natCast,
        ← zpow_add₀ (by norm_num), ← hexp]
    have hwhole : w / b.unit = ((n * 10 ^ (b.exponent - 5).toNat : ℤ) : ℚ) := by
      rw [div_eq_mul_one_div, hpow, ← mul_assoc, hn]
      push_cast
      rfl
    rw [leastMultiple, hwhole, Int.ceil_intCast, ← hwhole, div_mul_cancel₀ _ b.unit_pos.ne']
    exact ⟨n, hn⟩

theorem above_nonneg (b : Bracket) (w : ℚ) : 0 ≤ b.above w :=
  sub_nonneg.mpr (b.startWeight_le_chargedWeight w)

theorem above_hasPlaces (hb : b.Stored) (hg : OnGrid grams) :
    HasPlaces 5 (b.above grams.value) := by
  refine HasPlaces.sub ?_ (hasPlaces_of_onGrid hb.startWeight)
  unfold chargedWeight
  split
  next => exact hasPlaces_of_onGrid hb.startWeight
  next => exact leastMultiple_hasPlaces (hasPlaces_of_onGrid hg)

theorem above_le (hb : b.Stored) (hg : OnGrid grams) :
    b.above grams.value ≤ 2 * 10 ^ 14 + b.unit := by
  have hunit := b.unit_pos
  unfold above chargedWeight
  split
  next => linarith
  next =>
    have hlt := leastMultiple_lt hunit grams.value
    have hgrams := (abs_le.mp hg.abs_value_le).2
    have hstart := (abs_le.mp hb.startWeight.abs_value_le).1
    linarith

theorem scale_le {k : ℕ} (h : b.exponent ≤ k) : b.scale ≤ 10 ^ k :=
  pow_le_pow_right₀ (by norm_num) (by omega)

theorem unit_mul_scale_le (b : Bracket) : b.unit * b.scale ≤ 10 ^ 18 := by
  rcases lt_or_ge 0 b.exponent with hpos | hnonpos
  · rw [unit_of_pos hpos, one_div_mul_cancel b.scale_pos.ne']
    norm_num
  · rw [scale_of_nonpos hnonpos, mul_one]
    exact b.unit_le

/-- The weight above the start weight, counted in the unit of the computation. -/
theorem above_mul_scale_le (hb : b.Stored) (hg : OnGrid grams) {k : ℕ} (hk : b.exponent ≤ k) :
    |b.above grams.value * b.scale| ≤ 2 * 10 ^ 14 * 10 ^ k + 10 ^ 18 := by
  rw [abs_of_nonneg (mul_nonneg (b.above_nonneg _) b.scale_pos.le)]
  calc b.above grams.value * b.scale ≤ (2 * 10 ^ 14 + b.unit) * b.scale :=
        mul_le_mul_of_nonneg_right (above_le hb hg) b.scale_pos.le
    _ = 2 * 10 ^ 14 * b.scale + b.unit * b.scale := by ring
    _ ≤ 2 * 10 ^ 14 * 10 ^ k + 10 ^ 18 :=
        add_le_add (mul_le_mul_of_nonneg_left (scale_le hk) (by norm_num)) b.unit_mul_scale_le

/-! ## The steps -/

section

variable {u : Weights} {d n : Decimal}

theorem sub?_roundsTo_above (hu : b.Scaled grams.value u) :
    RoundsTo (u.rounded.sub? u.start) (b.above grams.value * b.scale) := by
  have hround := sub?_roundsTo u.rounded u.start
  rwa [hu.rounded, hu.start, ← sub_mul] at hround

/-- The difference is not rounded: it has few places, or none at all. -/
theorem value_of_sub? (hb : b.Stored) (hg : OnGrid grams) (hu : b.Scaled grams.value u)
    (h : u.rounded.sub? u.start = some d) : d.value = b.above grams.value * b.scale := by
  have hround := sub?_roundsTo_above hu
  rcases le_total b.exponent 5 with hle | hge
  · have hplaces : HasPlaces 5 (b.above grams.value * b.scale) := by
      have hwhole : HasPlaces 0 b.scale := ⟨10 ^ b.exponent.toNat, by
        rw [scale, pow_zero, mul_one]
        push_cast
        rfl⟩
      exact (above_hasPlaces hb hg).mul hwhole
    refine hround.value_eq h hplaces (by omega)
      (abs_mul_pow_lt_limit (above_mul_scale_le hb hg (k := 5) hle) (by norm_num))
  · obtain ⟨m, hm⟩ := above_hasPlaces hb hg
    have hwhole : b.above grams.value * b.scale = ((m * 10 ^ (b.exponent.toNat - 5) : ℤ) : ℚ) := by
      have hexp : b.exponent.toNat = 5 + (b.exponent.toNat - 5) := by omega
      rw [scale, hexp, pow_add, ← mul_assoc, hm, Nat.add_sub_cancel_left]
      push_cast
      rfl
    rw [hwhole] at hround ⊢
    exact hround.value_eq_intCast h

theorem div?_roundsTo_steps (hu : b.Scaled grams.value u) (hstep : 0 < b.weightStep.value)
    (hd : d.value = b.above grams.value * b.scale) :
    RoundsTo (d.div? u.step) (b.above grams.value / b.weightStep.value) := by
  have hpos : 0 < u.step.value := hu.step ▸ mul_pos hstep b.scale_pos
  have hround := div?_roundsTo (a := d) hpos.ne'
  rwa [hd, hu.step, mul_div_mul_right _ _ b.scale_pos.ne'] at hround

/-- In units of the grid the quotient is one of whole numbers. -/
theorem floor_of_div? (hb : b.Stored) (hg : OnGrid grams) (hstep : 0 < b.weightStep.value)
    {q : Decimal} {m : Option Decimal}
    (hround : RoundsTo m (b.above grams.value / b.weightStep.value)) (hq : m = some q) :
    ⌊q.value⌋ = ⌊b.above grams.value / b.weightStep.value⌋ := by
  have hpow : (0 : ℚ) < 10 ^ 5 := by positivity
  obtain ⟨x, hx⟩ := above_hasPlaces hb hg
  obtain ⟨y, hy⟩ := hasPlaces_of_onGrid hb.weightStep
  have hquot : b.above grams.value / b.weightStep.value = (x / y : ℚ) := by
    rw [← hx, ← hy, mul_div_mul_right _ _ hpow.ne']
  have hx0 : (0 : ℚ) ≤ x := hx ▸ mul_nonneg (b.above_nonneg _) hpow.le
  have hy0 : (0 : ℚ) < y := hy ▸ mul_pos hstep hpow
  have hx1 : (x : ℚ) ≤ 10 ^ 28 := by
    have habove := above_le hb hg
    have hunit := b.unit_le
    rw [← hx]
    linarith
  have hy1 : (y : ℚ) ≤ 10 ^ 28 := by
    have hstep' := (abs_le.mp hb.weightStep.abs_value_le).2
    rw [← hy]
    linarith
  rw [hquot] at hround ⊢
  exact hround.floor_eq hq (by exact_mod_cast hx0) (by exact_mod_cast hx1) (by exact_mod_cast hy0)
    (by exact_mod_cast hy1)

theorem isPositive_step_iff (hu : b.Scaled grams.value u) :
    u.step.isPositive = true ↔ 0 < b.weightStep.value := by
  rw [isPositive_iff, hu.step]
  exact mul_pos_iff_of_pos_right b.scale_pos

/-- No step is won or lost. -/
theorem value_of_steps? (hb : b.Stored) (hg : OnGrid grams) (hu : b.Scaled grams.value u)
    (h : steps? u = some n) : n.value = b.fullSteps grams.value := by
  unfold steps? at h
  unfold fullSteps
  split at h
  next hpos =>
    have hstep := (isPositive_step_iff hu).mp hpos
    simp only [Option.bind_eq_bind, Option.bind_eq_some_iff, Option.pure_def,
      Option.some.injEq] at h
    obtain ⟨d, hd, q, hq, rfl⟩ := h
    have hround := div?_roundsTo_steps hu hstep (value_of_sub? hb hg hu hd)
    have hq0 := hround.nonneg hq (div_nonneg (b.above_nonneg _) hstep.le)
    rw [if_pos hstep, value_trunc hq0, floor_of_div? hb hg hstep hround hq]
  next hpos =>
    rw [if_neg (mt (isPositive_step_iff hu).mpr hpos), Int.cast_zero, ← Option.some.inj h,
      value_zero]

theorem exists_steps? (hb : b.Stored) (hg : OnGrid grams) (hu : b.Scaled grams.value u)
    (hexponent : b.exponent ≤ 14) : ∃ n, steps? u = some n := by
  unfold steps?
  split
  next hpos =>
    have hstep := (isPositive_step_iff hu).mp hpos
    have hsize := above_mul_scale_le hb hg (k := 14) hexponent
    obtain ⟨d, hd⟩ := (sub?_roundsTo_above hu).exists_some (by
      rw [Fits, limit]
      norm_num at hsize ⊢
      linarith)
    have hround := div?_roundsTo_steps hu hstep (value_of_sub? hb hg hu hd)
    obtain ⟨q, hq⟩ := hround.exists_some (by
      -- the step is at least a unit of the grid
      have hunit := (hasPlaces_of_onGrid hb.weightStep).one_le_mul_pow hstep
      have habove := above_le hb hg
      have hle := b.unit_le
      rw [Fits, abs_of_nonneg (div_nonneg (b.above_nonneg _) hstep.le), div_lt_iff₀ hstep, limit]
      norm_num at hunit ⊢
      linarith)
    exact ⟨q.trunc, by rw [hd]; simp [hq]⟩
  next => exact ⟨_, rfl⟩

end

/-! ## The amounts -/

section

variable {w : ℚ} {n i p a : Decimal}

theorem increment_hasPlaces (hb : b.Stored) (w : ℚ) : HasPlaces 5 (b.increment w) := by
  have hwhole : HasPlaces 0 ((b.fullSteps w : ℤ) : ℚ) := HasPlaces.intCast _
  have hplaces := hwhole.mul (hasPlaces_of_onGrid hb.stepPrice)
  rwa [zero_add] at hplaces

theorem mul?_roundsTo_increment (hn : n.value = b.fullSteps w) :
    RoundsTo (n.mul? b.stepPrice) (b.increment w) := by
  have hround := mul?_roundsTo n b.stepPrice
  rwa [hn] at hround

/-- Amounts with five places are added without rounding, as long as they are moderate. -/
theorem exists_add?_of_moderate {x y : Decimal} (hx : HasPlaces 5 x.value)
    (hy : HasPlaces 5 y.value) (hsize : |x.value + y.value| ≤ 2 * 10 ^ 23) :
    ∃ r, x.add? y = some r ∧ r.value = x.value + y.value :=
  (add?_roundsTo x y).exact (hx.add hy) (by omega) (abs_mul_pow_lt_limit hsize (by norm_num))

/-- With a moderate increment there is a fee, and nothing is rounded. -/
theorem exists_sum_of_moderate (hb : b.Stored) (hn : n.value = b.fullSteps w)
    (hsize : |b.increment w| ≤ 10 ^ 23) : ∃ i p a, n.mul? b.stepPrice = some i ∧
      b.startPrice.add? i = some p ∧ p.add? b.adjustment = some a ∧ a.value = b.total w := by
  have hprice := hasPlaces_of_onGrid hb.startPrice
  have hplaces := increment_hasPlaces hb w
  have hprice' := abs_le.mp hb.startPrice.abs_value_le
  have hadjustment' := abs_le.mp hb.adjustment.abs_value_le
  have hsize' := abs_le.mp hsize
  obtain ⟨i, hi, hiv⟩ := (mul?_roundsTo_increment hn).exact hplaces (by omega)
    (abs_mul_pow_lt_limit hsize (by norm_num))
  rw [← hiv] at hplaces hsize'
  obtain ⟨p, hp, hpv⟩ := exists_add?_of_moderate hprice hplaces (by
    rw [abs_le]
    constructor <;> linarith [hprice'.1, hprice'.2, hsize'.1, hsize'.2])
  obtain ⟨a, ha, hav⟩ := exists_add?_of_moderate (x := p) (hpv ▸ hprice.add hplaces)
    (hasPlaces_of_onGrid hb.adjustment) (by
      rw [hpv, abs_le]
      constructor <;> linarith [hprice'.1, hprice'.2, hsize'.1, hsize'.2, hadjustment'.1,
        hadjustment'.2])
  exact ⟨i, p, a, hi, hp, ha, by rw [hav, hpv, hiv, total]⟩

/-- A result that is far below zero is far below zero after rounding. -/
theorem le_neg_pow_of_roundsTo {m : Option Decimal} {r : Decimal} {x : ℚ} {k : ℕ} (hk : k ≤ 28)
    (h : RoundsTo m x) (hr : m = some r) (hx : x ≤ -10 ^ k) : r.value ≤ -10 ^ k := by
  have hvalue : (pow10 k).neg.value = -10 ^ k := by rw [value_neg, value_pow10 hk]
  exact hvalue ▸ h.le_value hr (hvalue ▸ hx)

/-- A large discount for each step leaves nothing, however it is rounded. -/
theorem sum_neg_of_far_below (hb : b.Stored) (hn : n.value = b.fullSteps w)
    (hfar : b.increment w ≤ -10 ^ 23) (hi : n.mul? b.stepPrice = some i)
    (hp : b.startPrice.add? i = some p) (ha : p.add? b.adjustment = some a) : a.value < 0 := by
  have hprice := (abs_le.mp hb.startPrice.abs_value_le).2
  have hadjustment := (abs_le.mp hb.adjustment.abs_value_le).2
  have hiv := le_neg_pow_of_roundsTo (by omega) (mul?_roundsTo_increment hn) hi hfar
  have hpv := le_neg_pow_of_roundsTo (k := 22) (by omega) (add?_roundsTo _ _) hp (by linarith)
  have hav := le_neg_pow_of_roundsTo (k := 21) (by omega) (add?_roundsTo _ _) ha (by linarith)
  linarith

end

/-! ## The fee -/

theorem exists_of_fee? {f : Decimal} (h : b.fee? grams = some f) :
    ∃ u n i p a, b.weights? grams = some u ∧ steps? u = some n ∧ n.mul? b.stepPrice = some i ∧
      b.startPrice.add? i = some p ∧ p.add? b.adjustment = some a ∧ f = a.max .zero := by
  simp only [fee?, Option.bind_eq_bind, Option.bind_eq_some_iff, Option.pure_def,
    Option.some.injEq] at h
  obtain ⟨u, hu, n, hn, i, hi, p, hp, a, ha, hf⟩ := h
  exact ⟨u, n, i, p, a, hu, hn, hi, hp, ha, hf.symm⟩

theorem value_of_fee? {f : Decimal} (hb : b.Stored) (hg : OnGrid grams)
    (h : b.fee? grams = some f) (hsmall : b.exactFee grams.value < 10 ^ 18) :
    f.value = b.exactFee grams.value := by
  obtain ⟨u, n, i, p, a, hu, hn, hi, hp, ha, rfl⟩ := exists_of_fee? h
  have hsteps := value_of_steps? hb hg (scaled_of_weights? hg hu) hn
  have hprice := abs_le.mp hb.startPrice.abs_value_le
  have hadjustment := abs_le.mp hb.adjustment.abs_value_le
  have htotal := (le_max_right 0 (b.total grams.value)).trans_lt hsmall
  have hsum : b.total grams.value
      = b.startPrice.value + b.increment grams.value + b.adjustment.value := rfl
  rw [value_max, value_zero, max_comm]
  unfold exactFee
  rcases le_total (b.increment grams.value) (-10 ^ 23) with hfar | hnear
  · have hneg := sum_neg_of_far_below hb hsteps hfar hi hp ha
    rw [max_eq_left hneg.le, max_eq_left (by linarith [hprice.2, hadjustment.2])]
  · obtain ⟨i', p', a', hi', hp', ha', hv⟩ := exists_sum_of_moderate hb hsteps (abs_le.mpr
      ⟨hnear, by linarith [hprice.1, hadjustment.1]⟩)
    obtain rfl := Option.some.inj (hi.symm.trans hi')
    obtain rfl := Option.some.inj (hp.symm.trans hp')
    obtain rfl := Option.some.inj (ha.symm.trans ha')
    rw [hv]

theorem exists_fee? (hb : b.Stored) (hg : OnGrid grams) (hexponent : b.exponent ≤ 14)
    (hsize : |b.increment grams.value| ≤ 10 ^ 23) : ∃ f, b.fee? grams = some f := by
  obtain ⟨u, hu⟩ : ∃ u, b.weights? grams = some u := by
    refine (exists_weights?_iff hg).mpr fun hpos d hd => ?_
    have hd' : |d.value| ≤ 10 ^ 14 := by
      simp only [List.mem_cons, List.not_mem_nil, or_false] at hd
      rcases hd with rfl | rfl | rfl
      · exact hb.startWeight.abs_value_le
      · exact hg.abs_value_le
      · exact hb.weightStep.abs_value_le
    have hround := mul?_roundsTo d (pow10 b.exponent.toNat)
    rw [value_pow10 (by omega)] at hround
    refine hround.exists_some ?_
    have hscale : (10 : ℚ) ^ b.exponent.toNat ≤ 10 ^ 14 := scale_le (k := 14) hexponent
    rw [Fits, abs_mul, abs_of_pos (by positivity : (0 : ℚ) < 10 ^ b.exponent.toNat), limit]
    refine lt_of_le_of_lt (mul_le_mul hd' hscale (by positivity) (by positivity)) ?_
    norm_num
  have hscaled := scaled_of_weights? hg hu
  obtain ⟨n, hn⟩ := exists_steps? hb hg hscaled hexponent
  obtain ⟨i, p, a, hi, hp, ha, _⟩ :=
    exists_sum_of_moderate hb (value_of_steps? hb hg hscaled hn) hsize
  exact ⟨a.max .zero, by simp [fee?, hu, hn, hi, hp, ha]⟩

end Bracket

/-- Where the terms of a bracket and the weight of a parcel are on the grid, the fee is the exact
one, if that is below 10 ^ 18. There is a fee unless the unit is finer than 10 ^ -14 grams, or
the increment is huge. -/
theorem fee_exact {b : Bracket} {grams : Decimal} (hb : ∀ d ∈ b.decimals, OnGrid d)
    (hg : OnGrid grams) :
    (∀ fee, b.fee grams = .ok fee → b.exactFee grams.value < 10 ^ 18 →
      fee.value = b.exactFee grams.value) ∧
    (b.exponent ≤ 14 → |b.increment grams.value| ≤ 10 ^ 23 → ∃ fee, b.fee grams = .ok fee) := by
  have hstored := Bracket.stored_of_decimals hb
  refine ⟨fun fee hfee hsmall => ?_, fun hexponent hsize => ?_⟩
  · exact Bracket.value_of_fee? hstored hg (Bracket.fee_eq_ok_iff.mp hfee) hsmall
  · obtain ⟨fee, hfee⟩ := Bracket.exists_fee? hstored hg hexponent hsize
    exact ⟨fee, Bracket.fee_eq_ok_iff.mpr hfee⟩

/-! A parcel near the greatest weight, and steps so small that their number has 19 digits. -/

/-- Two, and a unit for each step of three units above the first, less 1.625. -/
def smallSteps : Bracket where
  weightLimit := unboundedWeight
  startPrice := priceOfRaw 200000
  startWeight := gramsOfRaw 1
  roundExponent := 5
  stepPrice := priceOfRaw 1
  weightStep := gramsOfRaw 3
  adjustment := priceOfRaw (-162500)
  tableKey := ""
  level := .table

/-- The greatest weight less one unit. -/
def heavyGrams : Decimal := gramsOfRaw 9223372036854775806

theorem smallSteps_onGrid : ∀ d ∈ smallSteps.decimals, OnGrid d := by
  simp only [Bracket.decimals, smallSteps, List.forall_mem_cons]
  exact ⟨onGrid_priceOfRaw _, onGrid_gramsOfRaw _, onGrid_priceOfRaw _, onGrid_gramsOfRaw _,
    onGrid_priceOfRaw _, by simp⟩

theorem value_heavyGrams : heavyGrams.value = 9223372036854775806 / 10 ^ 5 :=
  (value_gramsOfRaw _).trans (amountOf_eq (n := 9223372036854775806) (by decide) (by decide))

theorem smallSteps_fullSteps : smallSteps.fullSteps heavyGrams.value = 3074457345618258601 := by
  have hexponent : smallSteps.exponent = 5 := by decide
  have hunit : smallSteps.unit = 1 / 10 ^ 5 := by
    rw [Bracket.unit, hexponent]
    norm_num
  have hstep : smallSteps.weightStep.value = 3 / 10 ^ 5 :=
    (value_gramsOfRaw _).trans (amountOf_eq (n := 3) (by decide) (by decide))
  have hstart : smallSteps.startWeight.value = 1 / 10 ^ 5 := by
    rw [smallSteps, value_gramsOfRaw, amountOf_eq (n := 1) (by decide) (by decide), Int.cast_one]
  have hceil : ⌈(9223372036854775806 : ℚ) / 10 ^ 5 / (1 / 10 ^ 5)⌉ = 9223372036854775806 := by
    rw [Int.ceil_eq_iff]
    norm_num
  rw [Bracket.fullSteps, hstep, if_pos (by norm_num), Bracket.above, Bracket.chargedWeight, hstart,
    value_heavyGrams, if_neg (by norm_num), leastMultiple, hunit, hceil, Int.floor_eq_iff]
  norm_num

/-- Two thirds of a step more are not charged for. -/
theorem fee_exact_smallSteps :
    (∀ d ∈ smallSteps.decimals, OnGrid d) ∧ OnGrid heavyGrams ∧
      smallSteps.exactFee heavyGrams.value = 3074457345618296101 / 10 ^ 5 ∧
      ∃ fee, smallSteps.fee heavyGrams = .ok fee ∧ fee.value = 3074457345618296101 / 10 ^ 5 := by
  have hheavy : OnGrid heavyGrams := onGrid_gramsOfRaw _
  obtain ⟨hvalue, hexists⟩ := fee_exact smallSteps_onGrid hheavy
  have hprice : smallSteps.startPrice.value = (200000 : ℤ) / 10 ^ 5 :=
    (value_priceOfRaw _).trans (amountOf_eq (by decide) (by decide))
  have hstep : smallSteps.stepPrice.value = (1 : ℤ) / 10 ^ 5 :=
    (value_priceOfRaw _).trans (amountOf_eq (by decide) (by decide))
  have hadjustment : smallSteps.adjustment.value = (-162500 : ℤ) / 10 ^ 5 :=
    (value_priceOfRaw _).trans (amountOf_eq (by decide) (by decide))
  have hincrement : smallSteps.increment heavyGrams.value = 3074457345618258601 / 10 ^ 5 := by
    rw [Bracket.increment, smallSteps_fullSteps, hstep]
    norm_num
  have hfee : smallSteps.exactFee heavyGrams.value = 3074457345618296101 / 10 ^ 5 := by
    rw [Bracket.exactFee, Bracket.total, hincrement, hprice, hadjustment]
    norm_num
  obtain ⟨fee, h⟩ := hexists (by decide) (by rw [hincrement]; norm_num)
  refine ⟨smallSteps_onGrid, hheavy, hfee, fee, h, ?_⟩
  rw [hvalue fee h (by rw [hfee]; norm_num), hfee]

end RegionPricing.Fee
