import RegionPricing.Proofs.Decimal.Order
import RegionPricing.Proofs.Formula

/-!
# Price formulas keep the order

Of two prices the smaller one does not lead to the greater result, whatever digits are lost on
the way. `Both` relates the results of two computations step by step, and `From` is what every
step keeps: the results are in order, and neither is below a given decimal. Each step has one
lemma, which rests on the order that an operation keeps (`RoundsTo.le`) and on rounding that
never goes below a decimal (`RoundsTo.value_le`).

A quotient that no decimal can hold has a replacement in the last two formulas. The replacement
for a shop's price is the numerator, still too large to be stored (`Sorted`). The
replacement for a merchant's price is zero, and that breaks the order (`Overflows`).
-/

namespace RegionPricing.Formula

open Decimal

/-! ## Two computations side by side -/

/-- Whether the values of two computations, if both have one, are related. -/
def Both {ε α β : Type} (R : α → β → Prop) (x : Except ε α) (y : Except ε β) : Prop :=
  ∀ a b, x = .ok a → y = .ok b → R a b

namespace Both

variable {ε α β γ δ : Type} {R : α → β → Prop} {S : γ → δ → Prop}

theorem pure {a : α} {b : β} (h : R a b) : Both R (.ok a : Except ε α) (.ok b) := by
  intro a' b' ha hb
  cases ha
  cases hb
  exact h

theorem bind_eq {x : Except ε α} {y : Except ε β} {f : α → Except ε γ} {g : β → Except ε δ}
    (h : Both R x y) (hfg : ∀ a b, x = .ok a → y = .ok b → R a b → Both S (f a) (g b)) :
    Both S (x >>= f) (y >>= g) := by
  intro c d hc hd
  obtain ⟨a, ha, hc⟩ := exists_of_bind_eq_ok hc
  obtain ⟨b, hb, hd⟩ := exists_of_bind_eq_ok hd
  exact hfg a b ha hb (h a b ha hb) c d hc hd

theorem bind {x : Except ε α} {y : Except ε β} {f : α → Except ε γ} {g : β → Except ε δ}
    (h : Both R x y) (hfg : ∀ a b, R a b → Both S (f a) (g b)) : Both S (x >>= f) (y >>= g) :=
  h.bind_eq fun a b _ _ => hfg a b

/-- The same computation on both sides has the same value. -/
theorem bind_same {P : α → Prop} {x : Except ε α} {f : α → Except ε γ} {g : α → Except ε δ}
    (h : ∀ a, x = .ok a → P a) (hfg : ∀ a, P a → Both S (f a) (g a)) :
    Both S (x >>= f) (x >>= g) := by
  intro c d hc hd
  obtain ⟨a, ha, hc⟩ := exists_of_bind_eq_ok hc
  rw [ha, ok_bind] at hd
  exact hfg a (h a ha) c d hc hd

end Both

/-- `a` is at most `b`, and neither is below `low`. -/
structure From (low a b : Decimal) : Prop where
  low_le : low.value ≤ a.value
  le : a.value ≤ b.value

namespace From

variable {low a b m : Decimal}

theorem nonneg (h : From .zero a b) : 0 ≤ a.value := by
  have := h.low_le
  rwa [value_zero] at this

theorem add (h : From low a b) (e : Decimal) (he : e.value ≤ low.value + m.value) :
    Both (From e) (a.add m) (b.add m) := by
  intro x y hx hy
  have hx := roundsTo_of_add hx
  have hle := h.le
  have hlow_le := h.low_le
  exact ⟨hx.value_le rfl (by linarith), hx.le (roundsTo_of_add hy) rfl rfl (by linarith)⟩

theorem sub (h : From low a b) (e : Decimal) (he : e.value ≤ low.value - m.value) :
    Both (From e) (a.sub m) (b.sub m) := by
  intro x y hx hy
  have hx := roundsTo_of_sub hx
  have hle := h.le
  have hlow_le := h.low_le
  exact ⟨hx.value_le rfl (by linarith), hx.le (roundsTo_of_sub hy) rfl rfl (by linarith)⟩

theorem mul (h : From .zero a b) (hm : 0 ≤ m.value) : Both (From .zero) (a.mul m) (b.mul m) := by
  intro x y hx hy
  have hx := roundsTo_of_mul hx
  refine ⟨hx.value_le rfl ?_, hx.le (roundsTo_of_mul hy) rfl rfl ?_⟩
  · rw [value_zero]
    exact mul_nonneg h.nonneg hm
  · exact mul_le_mul_of_nonneg_right h.le hm

theorem div (h : From .zero a b) (hm : 0 < m.value) : Both (From .zero) (a.div m) (b.div m) := by
  intro x y hx hy
  have hx := roundsTo_of_div hm.ne' hx
  refine ⟨hx.value_le rfl ?_, hx.le (roundsTo_of_div hm.ne' hy) rfl rfl ?_⟩
  · rw [value_zero]
    exact div_nonneg h.nonneg hm.le
  · exact (div_le_div_iff_of_pos_right hm).mpr h.le

end From

/-! ## Local listings -/

section

variable {l : Listing} {f : ListingFactors} {p p' : Decimal}

theorem affiliatePrice_from (hp : From .zero p p') (hf : l.factors = some f)
    (hweight : 0 < l.weight.value) (hrate : 0 < f.exchangeRate.value)
    (hmargin : 0 ≤ f.regionMargin.value) (hfees : 0 ≤ f.hiddenPrice.value + f.shippingFee.value) :
    Both (From .zero) (affiliatePrice { l with primaryPrice := p })
      (affiliatePrice { l with primaryPrice := p' }) := by
  have hkept : ∀ kept, Decimal.one.sub (effectiveOversea l.overseaRate) = .ok kept →
      0 ≤ kept.value := by
    intro kept h
    refine (roundsTo_of_sub h).nonneg rfl ?_
    rw [value_one, sub_nonneg]
    exact (effectiveOversea_mem _).2
  simp only [affiliatePrice, (isPositive_iff _).mpr hweight, hf, isZero_eq_false hrate.ne',
    Bool.not_true, Bool.false_eq_true, if_false]
  refine .bind_same hkept fun kept hk => .bind (hp.mul hk) fun _ _ h => .bind (h.div hrate) ?_
  intro converted converted' h
  -- The hidden price may be negative, and the sum is not below it.
  refine .bind (h.add f.hiddenPrice (by rw [value_zero, zero_add])) ?_
  intro withHidden withHidden' h
  refine .bind (h.add .zero (by rwa [value_zero])) fun _ _ h => ?_
  refine .bind (h.mul hmargin) fun _ _ h => .bind (h.mul (positiveOrOne_pos _).le) fun _ _ h => ?_
  exact h.mul (positiveOrOne_pos _).le

end

/-! ## Cross-border listings -/

section

variable {l : CrossBorderListing} {p p' : Decimal}

theorem combinedMargin_pos {country shop item margin : Decimal}
    (h : combinedMargin country shop item = .ok margin) : 0 < margin.value := by
  unfold combinedMargin at h
  obtain ⟨_, _, h⟩ := exists_of_bind_eq_ok h
  obtain ⟨_, _, h⟩ := exists_of_bind_eq_ok h
  obtain ⟨_, _, h⟩ := exists_of_bind_eq_ok h
  cases h
  exact positiveOrOne_pos _

theorem crossBorderPrice_from (hp : From .zero p p') (hratio : 0 ≤ l.priceRatio.value)
    (hrate : 0 ≤ l.exchangeRate.value) (hhidden : 0 ≤ l.hiddenPrice.value)
    (hratio' : 0 ≤ l.ratio.value) (hfee : 0 ≤ l.finalFee.value) :
    Both (From .zero) (crossBorderPrice { l with primaryPrice := p })
      (crossBorderPrice { l with primaryPrice := p' }) := by
  unfold crossBorderPrice
  refine .bind_same (fun _ => combinedMargin_pos) fun margin hmargin => ?_
  refine .bind (hp.mul hratio) fun _ _ h => .bind (h.mul hrate) fun _ _ h => ?_
  refine .bind (h.add .zero (by rwa [value_zero, zero_add])) fun _ _ h => ?_
  exact .bind (h.mul hratio') fun _ _ h => .bind (h.mul hmargin.le) fun _ _ h => h.mul hfee

end

/-! ## Merchant prices and shop prices -/

/-- A price above all that can be stored. -/
def hugePrice : Decimal := .ofInt64 100000000000000

theorem value_hugePrice : hugePrice.value = 10 ^ 14 := by
  have h : (100000000000000 : Int64).toInt = 10 ^ 14 := by decide
  rw [hugePrice, value_ofInt64, h]
  norm_num

/-- Prices that are in order as far as they can be stored. -/
structure Sorted (a b : Decimal) : Prop where
  nonneg : 0 ≤ a.value
  le_or_huge : a.value ≤ b.value ∨ hugePrice.value ≤ b.value

theorem From.sorted {a b : Decimal} (h : From .zero a b) : Sorted a b := ⟨h.nonneg, .inl h.le⟩

/-- Only a quotient beyond all decimals is missing. -/
theorem large_of_div?_eq_none {a b : Decimal} (ha : 0 ≤ a.value) (hb : 0 < b.value)
    (h : a.div? b = none) : 10 ^ 28 ≤ a.value / b.value := by
  have hfits : ¬Fits (a.value / b.value) := by
    intro hfits
    obtain ⟨r, hr⟩ := (div?_roundsTo (a := a) hb.ne').exists_some hfits
    rw [h] at hr
    cases hr
  rw [Fits, not_lt, abs_of_nonneg (div_nonneg ha hb.le)] at hfits
  unfold limit at hfits
  norm_num at hfits ⊢
  linarith

/-- Where no decimal can hold the quotient, the dividend by itself is huge. -/
theorem huge_of_div?_eq_none {a b : Decimal} (ha : 0 ≤ a.value) (hb : 1 / 10 ^ 4 ≤ b.value)
    (h : a.div? b = none) : hugePrice.value ≤ a.value ∧ hugePrice.value ≤ a.value / b.value := by
  have hpos : 0 < b.value := by linarith
  have hquot := large_of_div?_eq_none ha hpos h
  rw [value_hugePrice]
  refine ⟨?_, by linarith⟩
  rw [le_div_iff₀ hpos] at hquot
  linarith

theorem shopPrice_sorted {p p' fx profit hidden share : Decimal} (hp : From .zero p p')
    (hfx : 0 ≤ fx.value) (hprofit : 0 ≤ profit.value) (hhidden : 0 ≤ hidden.value)
    (hshare : 1 / 10 ^ 4 ≤ share.value) :
    Both Sorted (shopPrice p fx profit hidden share) (shopPrice p' fx profit hidden share) := by
  have hpos : 0 < share.value := by linarith
  unfold shopPrice
  rw [positiveOrOne_of_pos hpos]
  refine .bind (hp.mul hfx) fun _ _ h => .bind (h.mul hprofit) fun _ _ h => ?_
  refine .bind (h.add .zero (by rwa [value_zero, zero_add])) fun n n' h => .pure ?_
  have hle : n.value / share.value ≤ n'.value / share.value :=
    (div_le_div_iff_of_pos_right hpos).mpr h.le
  have hround := div?_roundsTo (a := n) hpos.ne'
  have hround' := div?_roundsTo (a := n') hpos.ne'
  cases hq : n.div? share with
  | none =>
    obtain ⟨_, hhuge⟩ := huge_of_div?_eq_none h.nonneg hshare hq
    refine ⟨h.nonneg, .inr ?_⟩
    cases hq' : n'.div? share with
    | none => exact (huge_of_div?_eq_none (h.nonneg.trans h.le) hshare hq').1
    | some r' => exact hround'.value_le hq' (hhuge.trans hle)
  | some r =>
    refine ⟨hround.nonneg hq (div_nonneg h.nonneg hpos.le), ?_⟩
    cases hq' : n'.div? share with
    | none => exact .inr (huge_of_div?_eq_none (h.nonneg.trans h.le) hshare hq').1
    | some r' => exact .inl (hround.le hround' hq hq' hle)

/-- Whether no decimal can hold the quotient that is the merchant's price. -/
def Overflows (price fx profit hidden share : Decimal) : Prop :=
  ∃ kept numerator divisor, price.mul share = .ok kept ∧ kept.sub hidden = .ok numerator ∧
    0 ≤ numerator.value ∧ fx.mul profit = .ok divisor ∧ 0 < divisor.value ∧
    numerator.div? divisor = none

theorem quotient_nonneg {n d : Decimal} (hn : 0 ≤ n.value) (hd : 0 ≤ d.value) :
    0 ≤ ((n.div? d).getD .zero).value := by
  cases hq : n.div? d with
  | none => simp
  | some r =>
    have hne : d.value ≠ 0 := by
      intro h
      rw [div?, (isZero_iff d).mpr h, if_pos rfl] at hq
      cases hq
    exact (div?_roundsTo hne).nonneg hq (div_nonneg hn hd)

section

variable {p p' fx profit hidden share r : Decimal}

theorem merchantPrice_zero (h : (fx.isZero || profit.isZero) = true) :
    merchantPrice p fx profit hidden share = .ok .zero := by
  rw [merchantPrice, if_pos h]

/-- A merchant's price is zero, or what the last division gives. -/
theorem merchantPrice_cases (hz : (fx.isZero || profit.isZero) = false)
    (h : merchantPrice p fx profit hidden share = .ok r) :
    ∃ kept n, p.mul share = .ok kept ∧ kept.sub hidden = .ok n ∧
      (n.value < 0 ∧ r = .zero ∨
        0 ≤ n.value ∧ ∃ d, fx.mul profit = .ok d ∧ r = (n.div? d).getD .zero) := by
  unfold merchantPrice at h
  rw [hz, if_neg Bool.false_ne_true] at h
  obtain ⟨kept, hkept, h⟩ := exists_of_bind_eq_ok h
  obtain ⟨n, hn, h⟩ := exists_of_bind_eq_ok h
  refine ⟨kept, n, hkept, hn, ?_⟩
  split at h
  next hneg =>
    cases h
    exact .inl ⟨(isNegative_iff n).mp hneg, rfl⟩
  next hpos =>
    rw [isNegative_iff, not_lt] at hpos
    obtain ⟨d, hd, h⟩ := exists_of_bind_eq_ok h
    cases h
    exact .inr ⟨hpos, d, hd, rfl⟩

theorem merchantPrice_nonneg (hfx : 0 ≤ fx.value) (hprofit : 0 ≤ profit.value)
    (h : merchantPrice p fx profit hidden share = .ok r) : 0 ≤ r.value := by
  cases hz : fx.isZero || profit.isZero with
  | true =>
    rw [merchantPrice_zero hz, Except.ok.injEq] at h
    rw [← h, value_zero]
  | false =>
    obtain ⟨kept, n, _, _, ⟨_, rfl⟩ | ⟨hn, d, hd, rfl⟩⟩ := merchantPrice_cases hz h
    · rw [value_zero]
    · exact quotient_nonneg hn ((roundsTo_of_mul hd).nonneg rfl (mul_nonneg hfx hprofit))

/-- The merchant's prices are in order, unless the quotient of the greater one is replaced. -/
theorem merchantPrice_order (hp : From .zero p p') (hfx : 0 ≤ fx.value) (hprofit : 0 ≤ profit.value)
    (hshare : 0 ≤ share.value) :
    Both (fun r r' => r.value ≤ r'.value ∨ r' = .zero ∧ Overflows p' fx profit hidden share)
      (merchantPrice p fx profit hidden share) (merchantPrice p' fx profit hidden share) := by
  intro r r' hr hr'
  have hr0' := merchantPrice_nonneg hfx hprofit hr'
  cases hz : fx.isZero || profit.isZero with
  | true =>
    rw [merchantPrice_zero hz, Except.ok.injEq] at hr
    left
    rwa [← hr, value_zero]
  | false =>
    obtain ⟨kept, n, hkept, hn, hcases⟩ := merchantPrice_cases hz hr
    obtain ⟨kept', n', hkept', hn', hcases'⟩ := merchantPrice_cases hz hr'
    have hk := hp.mul hshare kept kept' hkept hkept'
    have hle := (hk.sub hidden.neg (by rw [value_neg, value_zero, zero_sub]) n n' hn hn').le
    rcases hcases with ⟨_, rfl⟩ | ⟨hn0, d, hd, rfl⟩
    · left
      rwa [value_zero]
    rcases hcases' with ⟨hneg, _⟩ | ⟨hn0', d', hd', rfl⟩
    · linarith
    obtain rfl := Except.ok.inj (hd.symm.trans hd')
    have hd0 := (roundsTo_of_mul hd).nonneg rfl (mul_nonneg hfx hprofit)
    rcases hd0.eq_or_lt with hzero | hpos
    · -- a product of small rates that is rounded to zero divides nothing
      left
      simp [div?, (isZero_iff d).mpr hzero.symm]
    have hround' := div?_roundsTo (a := n') hpos.ne'
    cases hq' : n'.div? d with
    | none => exact .inr ⟨rfl, kept', n', d, hkept', hn', hn0', hd, hpos, hq'⟩
    | some x' =>
      left
      cases hq : n.div? d with
      | none =>
        rw [Option.getD_none, value_zero]
        exact hround'.nonneg hq' (div_nonneg hn0' hpos.le)
      | some x =>
        exact (div?_roundsTo hpos.ne').le hround' hq hq'
          ((div_le_div_iff_of_pos_right hpos).mpr hle)

/-- With rates that are not too small, and no more left of a sale than its price, the quotient
is not too large. -/
theorem not_overflows (hp : 0 ≤ p.value) (hp' : p.value ≤ hugePrice.value)
    (hfx : 1 / 10 ^ 5 ≤ fx.value) (hprofit : 1 / 10 ^ 4 ≤ profit.value)
    (hhidden : 0 ≤ hidden.value) (hshare : share.value ≤ 1) :
    ¬Overflows p fx profit hidden share := by
  rintro ⟨kept, n, d, hkept, hn, hn0, hd, hd0, hnone⟩
  have hkept_le : kept.value ≤ p.value :=
    (roundsTo_of_mul hkept).le_value rfl (mul_le_of_le_one_right hp hshare)
  have hn_le : n.value ≤ kept.value := (roundsTo_of_sub hn).le_value rfl (sub_le_self _ hhidden)
  have hunit : (pow10Neg 9).value = 1 / 10 ^ 9 := by
    norm_num [value, pow10Neg, coeff]
  have hd_le : 1 / 10 ^ 9 ≤ d.value := by
    rw [← hunit]
    refine (roundsTo_of_mul hd).value_le rfl ?_
    calc (pow10Neg 9).value = 1 / 10 ^ 5 * (1 / 10 ^ 4) := by rw [hunit]; norm_num
      _ ≤ fx.value * profit.value := mul_le_mul hfx hprofit (by norm_num) (by linarith)
  have hlarge := large_of_div?_eq_none hn0 hd0 hnone
  rw [le_div_iff₀ hd0] at hlarge
  rw [value_hugePrice] at hp'
  linarith

end

end RegionPricing.Formula
