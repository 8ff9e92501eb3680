import RegionPricing.Fee.Bracket
import RegionPricing.Proofs.Decimal.ByValue

/-!
# Fees go by the values of the terms

Brackets with the same terms, where decimals count by their values, ask the same fee for every
parcel, or none of them has one (`fee?_alike`). Only the failure tells them apart, since it
names the table (`fee_of_sameTerms`).
-/

namespace RegionPricing.Fee

open Decimal

/-- The decimals among the terms of a bracket. -/
def Bracket.decimals (b : Bracket) : List Decimal :=
  [b.startPrice, b.startWeight, b.stepPrice, b.weightStep, b.adjustment]

/-- Brackets with the same terms. -/
structure SameTerms (a b : Bracket) : Prop where
  weightLimit : a.weightLimit = b.weightLimit
  roundExponent : a.roundExponent = b.roundExponent
  decimals : a.decimals.map value = b.decimals.map value

/-- Weights of one value. -/
structure SameWeights (v w : Bracket.Weights) : Prop where
  rounded : Same v.rounded w.rounded
  start : Same v.start w.start
  step : Same v.step w.step

theorem roundUpTo_alike {least least' unit unit' v v' : Decimal} (hleast : Same least least')
    (hunit : Same unit unit') (hv : Same v v') :
    Alike (roundUpTo least unit v) (roundUpTo least' unit' v') := by
  unfold roundUpTo
  rw [hv.le_eq hleast, hunit.isPositive_eq]
  split
  · exact .some hleast
  · split
    · exact .some hv
    · exact rel_bind (div?_alike hv hunit) fun q q' hq => mul?_alike hq.ceil hunit

theorem steps?_alike {v w : Bracket.Weights} (h : SameWeights v w) :
    Alike (Bracket.steps? v) (Bracket.steps? w) := by
  unfold Bracket.steps?
  rw [h.step.isPositive_eq]
  split
  · refine rel_bind (sub?_alike h.rounded h.start) fun above above' habove => ?_
    exact rel_bind (div?_alike habove h.step) fun ratio ratio' hratio => .some hratio.trunc
  · exact .some (Same.refl _)

section

variable {a b : Bracket} (h : SameTerms a b)

include h

theorem SameTerms.same :
    Same a.startPrice b.startPrice ∧ Same a.startWeight b.startWeight ∧
      Same a.stepPrice b.stepPrice ∧ Same a.weightStep b.weightStep ∧
      Same a.adjustment b.adjustment := by
  have hdecimals := h.decimals
  simp only [Bracket.decimals, List.map_cons, List.map_nil, List.cons.injEq, and_true] at hdecimals
  exact hdecimals

theorem weights?_alike (grams : Decimal) :
    Option.Rel SameWeights (a.weights? grams) (b.weights? grams) := by
  obtain ⟨_, hstart, _, hstep, _⟩ := h.same
  have hexponent : a.exponent = b.exponent := by
    unfold Bracket.exponent
    rw [h.roundExponent]
  unfold Bracket.weights?
  rw [hexponent]
  split
  · refine rel_bind (mul?_alike hstart (.refl _)) fun start start' hs => ?_
    refine rel_bind (mul?_alike (.refl grams) (.refl _)) fun weight weight' hw => ?_
    refine rel_bind (mul?_alike hstep (.refl _)) fun step step' ht => ?_
    exact rel_bind (roundUpTo_alike hs (.refl _) hw) fun _ _ hr => .some ⟨hr, hs, ht⟩
  · refine rel_bind (roundUpTo_alike hstart (.refl _) (.refl grams)) fun _ _ hr => ?_
    exact .some ⟨hr, hstart, hstep⟩

theorem fee?_alike (grams : Decimal) : Alike (a.fee? grams) (b.fee? grams) := by
  obtain ⟨hprice, _, hstep, _, hadjustment⟩ := h.same
  unfold Bracket.fee?
  refine rel_bind (weights?_alike h grams) fun w w' hw => ?_
  refine rel_bind (steps?_alike hw) fun steps steps' hsteps => ?_
  refine rel_bind (mul?_alike hsteps hstep) fun increment increment' hincrement => ?_
  refine rel_bind (add?_alike hprice hincrement) fun price price' hsum => ?_
  refine rel_bind (add?_alike hsum hadjustment) fun adjusted adjusted' hadjusted => ?_
  exact .some (hadjusted.max (.refl _))

/-- The fees have one value, or they fail for one reason; the failure names the table of the
bracket. -/
theorem fee_of_sameTerms (grams : Decimal) :
    (a.fee grams).map value = ({ b with tableKey := a.tableKey }.fee grams).map value := by
  have hkey : { b with tableKey := a.tableKey }.fee? grams = b.fee? grams := rfl
  have hfee := fee?_alike h grams
  unfold Bracket.fee
  rw [hkey]
  generalize a.fee? grams = fee at hfee
  generalize b.fee? grams = fee' at hfee
  cases hfee with
  | none => rfl
  | some hv => exact congrArg Except.ok hv

end

end RegionPricing.Fee
