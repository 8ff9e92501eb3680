import RegionPricing.Proofs.Decimal.Enclosed
import RegionPricing.Proofs.Fee.Weights

/-!
# A heavier parcel never costs less

The terms of a bracket may have any number of places, so that each step from the weight to the
fee may round, and at a place that depends on the weight. No step turns the order of two parcels
around, since no operation does. That takes weights of the grid: rounding up to whole grams
starts with a quotient, and a weight with more places could fall below the start weight there.

The same steps show that no fee is missing between two others (`fee?_enclosed`): what leaves
the range of decimals does so at one of the ends.
-/

namespace RegionPricing.Fee

open Decimal Store

namespace Bracket

variable {b : Bracket} {light grams heavy : Decimal}

/-- Weights of one bracket, the second of a parcel that is not lighter. -/
structure Weights.NotHeavier (u v : Weights) : Prop where
  start_le : u.start.value ≤ u.rounded.value
  rounded_le : u.rounded.value ≤ v.rounded.value
  start_eq : v.start.value = u.start.value
  step_eq : v.step.value = u.step.value

theorem Scaled.notHeavier {w w' : ℚ} {u v : Weights} (hu : b.Scaled w u) (hv : b.Scaled w' v)
    (h : w ≤ w') : u.NotHeavier v where
  start_le := by
    rw [hu.start, hu.rounded]
    exact mul_le_mul_of_nonneg_right (b.startWeight_le_chargedWeight w) b.scale_pos.le
  rounded_le := by
    rw [hu.rounded, hv.rounded]
    exact mul_le_mul_of_nonneg_right (b.chargedWeight_mono h) b.scale_pos.le
  start_eq := hv.start.trans hu.start.symm
  step_eq := hv.step.trans hu.step.symm

section

variable (hlight : OnGrid light) (hgrams : OnGrid grams) (hheavy : OnGrid heavy)
  (h₁ : light.value ≤ grams.value) (h₂ : grams.value ≤ heavy.value)

include hlight hgrams hheavy h₁ h₂

theorem weights?_enclosed :
    Enclosed Weights.NotHeavier (b.weights? light) (b.weights? grams) (b.weights? heavy) := by
  intro u v hu hv
  obtain ⟨w, hw⟩ : ∃ w, b.weights? grams = some w := by
    refine (exists_weights?_iff hgrams).mpr fun hpos => ?_
    have hlighter := (exists_weights?_iff hlight).mp ⟨u, hu⟩ hpos
    have hheavier := (exists_weights?_iff hheavy).mp ⟨v, hv⟩ hpos
    simp only [List.forall_mem_cons] at hlighter hheavier ⊢
    obtain ⟨hstart, ⟨l, hl⟩, hstep, hnil⟩ := hlighter
    obtain ⟨_, ⟨h, hh⟩, _⟩ := hheavier
    -- the start weight and the step are counted as for the others
    have hscale : 0 ≤ (pow10 b.exponent.toNat).value := by
      rw [value_pow10 (by have := b.exponent_bounds; omega)]
      positivity
    have hbetween := (mul?_roundsTo light (pow10 b.exponent.toNat)).enclosed
      (mul?_roundsTo grams _) (mul?_roundsTo heavy _) (mul_le_mul_of_nonneg_right h₁ hscale)
      (mul_le_mul_of_nonneg_right h₂ hscale)
    obtain ⟨g, hg, _⟩ := hbetween l h hl hh
    exact ⟨hstart, ⟨g, hg⟩, hstep, hnil⟩
  have hu' := scaled_of_weights? hlight hu
  have hv' := scaled_of_weights? hheavy hv
  have hw' := scaled_of_weights? hgrams hw
  exact ⟨w, hw, hu'.notHeavier hw' h₁, hw'.notHeavier hv' h₂⟩

end

theorem trunc_ascends {a c : Decimal} (h : Ascends a c) : Ascends a.trunc c.trunc where
  nonneg := by
    rw [value_trunc h.nonneg]
    exact_mod_cast Int.floor_nonneg.mpr h.nonneg
  le := by
    rw [value_trunc h.nonneg, value_trunc (h.nonneg.trans h.le)]
    exact_mod_cast Int.floor_mono h.le

theorem steps?_enclosed {u v w : Weights} (huv : u.NotHeavier v) (hvw : v.NotHeavier w) :
    Enclosed Ascends (steps? u) (steps? v) (steps? w) := by
  have hstep : u.step.isPositive = v.step.isPositive := by
    rw [Bool.eq_iff_iff, isPositive_iff, isPositive_iff, huv.step_eq]
  have hstep' : v.step.isPositive = w.step.isPositive := by
    rw [Bool.eq_iff_iff, isPositive_iff, isPositive_iff, hvw.step_eq]
  unfold steps?
  rw [hstep, hstep']
  split
  next hpos =>
    rw [isPositive_iff] at hpos
    have hpos' : 0 < v.step.value := hvw.step_eq ▸ hpos
    have hpos'' : 0 < u.step.value := huv.step_eq ▸ hpos'
    refine Enclosed.bind (R := Ascends) ?_ fun x y z hxy hyz => ?_
    · refine (sub?_roundsTo _ _).ascends (sub?_roundsTo _ _) (sub?_roundsTo _ _)
        (sub_nonneg.mpr huv.start_le) ?_ ?_
      · rw [huv.start_eq]
        exact sub_le_sub_right huv.rounded_le _
      · rw [hvw.start_eq]
        exact sub_le_sub_right hvw.rounded_le _
    · refine Enclosed.bind (R := Ascends) ?_ fun p q r hpq hqr => ?_
      · refine (div?_roundsTo hpos''.ne').ascends (div?_roundsTo hpos'.ne') (div?_roundsTo hpos.ne')
          (div_nonneg hxy.nonneg hpos''.le) ?_ ?_
        · rw [huv.step_eq]
          exact (div_le_div_iff_of_pos_right hpos'').mpr hxy.le
        · rw [hvw.step_eq]
          exact (div_le_div_iff_of_pos_right hpos').mpr hyz.le
      · exact .some (trunc_ascends hpq) (trunc_ascends hqr)
  next => exact .some ⟨by simp, le_rfl⟩ ⟨by simp, le_rfl⟩

/-- Of three parcels in the order of their weights, the middle one has a fee if the others have,
and the fees are in order. -/
theorem fee?_enclosed (hprice : 0 ≤ b.stepPrice.value) (hlight : OnGrid light)
    (hgrams : OnGrid grams) (hheavy : OnGrid heavy) (h₁ : light.value ≤ grams.value)
    (h₂ : grams.value ≤ heavy.value) :
    Enclosed AtMost (b.fee? light) (b.fee? grams) (b.fee? heavy) := by
  unfold fee?
  refine (weights?_enclosed hlight hgrams hheavy h₁ h₂).bind fun u v w huv hvw => ?_
  refine (steps?_enclosed huv hvw).bind fun n n' n'' hn hn' => ?_
  refine Enclosed.bind (R := AtMost) ?_ fun i i' i'' hi hi' => ?_
  · exact (mul?_roundsTo _ _).enclosed (mul?_roundsTo _ _) (mul?_roundsTo _ _)
      (mul_le_mul_of_nonneg_right hn.le hprice) (mul_le_mul_of_nonneg_right hn'.le hprice)
  refine Enclosed.bind (R := AtMost) ?_ fun p p' p'' hp hp' => ?_
  · exact (add?_roundsTo _ _).enclosed (add?_roundsTo _ _) (add?_roundsTo _ _)
      (add_le_add_right hi _) (add_le_add_right hi' _)
  refine Enclosed.bind (R := AtMost) ?_ fun a a' a'' ha ha' => ?_
  · exact (add?_roundsTo _ _).enclosed (add?_roundsTo _ _) (add?_roundsTo _ _)
      (add_le_add_left hp _) (add_le_add_left hp' _)
  have hmax : ∀ {x y : Decimal}, AtMost x y → AtMost (x.max .zero) (y.max .zero) := by
    intro x y h
    unfold AtMost
    rw [value_max, value_max]
    exact max_le_max_right _ h
  exact .some (hmax ha) (hmax ha')

end Bracket

/-- Of two parcels in one bracket whose increments are not negative, the heavier one does not
cost less, and each parcel between them has a fee between theirs. -/
theorem fee_mono {b : Bracket} (hprice : 0 ≤ b.stepPrice.value) {light heavy f f' : Decimal}
    (hlight : OnGrid light) (hheavy : OnGrid heavy) (hle : light.value ≤ heavy.value)
    (hf : b.fee light = .ok f) (hf' : b.fee heavy = .ok f') :
    f.value ≤ f'.value ∧
      ∀ grams, OnGrid grams → light.value ≤ grams.value → grams.value ≤ heavy.value →
        ∃ fee, b.fee grams = .ok fee ∧ f.value ≤ fee.value ∧ fee.value ≤ f'.value := by
  rw [Bracket.fee_eq_ok_iff] at hf hf'
  have hbetween : ∀ grams, OnGrid grams → light.value ≤ grams.value → grams.value ≤ heavy.value →
      ∃ fee, b.fee grams = .ok fee ∧ f.value ≤ fee.value ∧ fee.value ≤ f'.value := by
    intro grams hgrams h₁ h₂
    obtain ⟨fee, hfee, hge, hle⟩ :=
      Bracket.fee?_enclosed hprice hlight hgrams hheavy h₁ h₂ f f' hf hf'
    exact ⟨fee, Bracket.fee_eq_ok_iff.mpr hfee, hge, hle⟩
  obtain ⟨_, _, hge, hle'⟩ := hbetween light hlight le_rfl hle
  exact ⟨hge.trans hle', hbetween⟩

/-! Terms of 28 places, so that the steps to a fee have to round. -/

/-- A third, and a seventh for each seven ninths of a gram above ten eighty-firsts, by tens of
grams, less an eleventh. -/
def finelyPriced : Bracket where
  weightLimit := FixedPoint.unboundedWeight
  startPrice := FixedPoint.quotient 1 3
  startWeight := FixedPoint.quotient 10 81
  roundExponent := -1
  stepPrice := FixedPoint.quotient 1 7
  weightStep := FixedPoint.quotient 7 9
  adjustment := FixedPoint.quotient (-1) 11
  tableKey := ""
  level := .table

/-- Seven grams. -/
def lightGrams : Decimal := FixedPoint.gramsOfRaw 700000

/-- Ten grams and one unit of the grid. -/
def middleGrams : Decimal := FixedPoint.gramsOfRaw 1000001

def greatestGrams : Decimal := FixedPoint.gramsOfRaw Int64.maxValue

/-- The fee of the light parcel has 28 places, that of the heaviest one only 15. -/
theorem fee_mono_finelyPriced :
    ∃ f fee f', finelyPriced.fee lightGrams = .ok f ∧ finelyPriced.fee middleGrams = .ok fee ∧
      finelyPriced.fee greatestGrams = .ok f' ∧ f.scale = 28 ∧ f'.scale = 15 ∧
      f.value ≤ f'.value ∧ f.value ≤ fee.value ∧ fee.value ≤ f'.value := by
  have hprice : 0 ≤ finelyPriced.stepPrice.value := by
    rw [← not_lt, ← isNegative_iff]
    decide +kernel
  have hlight : lightGrams.le middleGrams = true := by decide +kernel
  have hheavy : middleGrams.le greatestGrams = true := by decide +kernel
  rw [le_iff] at hlight hheavy
  have hf : finelyPriced.fee lightGrams
      = .ok (.ofCoeff 19567099567099567099567099572 28 (by decide) (by decide)) := by
    decide +kernel
  have hf' : finelyPriced.fee greatestGrams
      = .ok (.ofCoeff 16940887414631813852813852819 15 (by decide) (by decide)) := by
    decide +kernel
  obtain ⟨hle, hbetween⟩ := fee_mono hprice (onGrid_gramsOfRaw _) (onGrid_gramsOfRaw _)
    (hlight.trans hheavy) hf hf'
  obtain ⟨fee, hfee, hge, hle'⟩ := hbetween middleGrams (onGrid_gramsOfRaw _) hlight hheavy
  exact ⟨_, fee, _, hf, hfee, hf', rfl, rfl, hle, hge, hle'⟩

end RegionPricing.Fee
