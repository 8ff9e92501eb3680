import RegionPricing.Proofs.Decimal.Operations

/-!
# Operations keep the order

The scale of a result depends on the operands: on their scales, and on how much room the
exact result leaves. So two results may be rounded at different places, and `RoundsTo.le`
says that their order survives that: of two exact results the smaller one never becomes the
greater one.

Rounded at one scale they keep their order because a tie goes to the even neighbour, which
depends on the number alone (`HalfEven.le`). Where the scales differ, either the exact result
at the smaller scale is not rounded at all, or it is too large for the next scale, and then
far from what the larger scale can hold (`Settles.le_of_nonneg`).
-/

namespace RegionPricing.Decimal

/-! ## Half to even -/

/-- `n` is the whole number nearest to `x`, and the even one of two. -/
structure HalfEven (x : ℚ) (n : ℤ) : Prop where
  near : |(n : ℚ) - x| ≤ 1 / 2
  even : |(n : ℚ) - x| = 1 / 2 → n % 2 = 0

namespace HalfEven

variable {x y : ℚ} {m n : ℤ}

theorem intCast (n : ℤ) : HalfEven n n where
  near := by norm_num
  even h := by norm_num at h

theorem neg (h : HalfEven x n) : HalfEven (-x) (-n) := by
  have habs : |((-n : ℤ) : ℚ) - -x| = |(n : ℚ) - x| := by
    rw [Int.cast_neg, neg_sub_neg, abs_sub_comm]
  refine ⟨habs ▸ h.near, fun htie => ?_⟩
  have := h.even (habs ▸ htie)
  omega

/-- A greater number is not rounded to a smaller one. -/
theorem le (hx : HalfEven x m) (hy : HalfEven y n) (hxy : x ≤ y) : m ≤ n := by
  by_contra hnm
  have h1 := (abs_le.mp hx.near).2
  have h2 := (abs_le.mp hy.near).1
  have hsucc : ((n + 1 : ℤ) : ℚ) ≤ m := by exact_mod_cast (by omega : n + 1 ≤ m)
  push_cast at hsucc
  -- The two are neighbours, and the number lies in the middle: both would have to be even.
  have hm : (m : ℚ) = n + 1 := by linarith
  have hxm : (m : ℚ) - x = 1 / 2 := by linarith
  have hyn : (n : ℚ) - y = -(1 / 2) := by linarith
  have hme := hx.even (by rw [hxm]; norm_num)
  have hne := hy.even (by rw [hyn]; norm_num)
  have hmz : m = n + 1 := by exact_mod_cast hm
  omega

/-- A whole number stays as it is. -/
theorem eq_of_intCast (h : HalfEven x n) (hx : x = m) : n = m :=
  le_antisymm (h.le (intCast m) hx.le) ((intCast m).le h hx.ge)

theorem nonneg (h : HalfEven x n) (hx : 0 ≤ x) : 0 ≤ n :=
  (intCast 0).le h (by exact_mod_cast hx)

end HalfEven

theorem halfEven_spec (n : ℕ) {d : ℕ} (hd : 0 < d) : HalfEven (n / d) (halfEven n d) := by
  refine ⟨by exact_mod_cast halfEven_near n hd, fun htie => ?_⟩
  have hdq : (0 : ℚ) < d := by exact_mod_cast hd
  have hn : (n : ℚ) = d * (n / d : ℕ) + (n % d : ℕ) := by exact_mod_cast (Nat.div_add_mod n d).symm
  have hquot : (n : ℚ) / d = (n / d : ℕ) + (n % d : ℕ) / (d : ℚ) := by
    rw [hn, add_div, mul_div_cancel_left₀ _ hdq.ne']
  -- In a tie the remainder is half the divisor.
  have hrest : 2 * (n % d) = d := by
    rw [hquot] at htie
    have hcases : ((n % d : ℕ) : ℚ) / d = 1 / 2 := by
      have h0 : (0 : ℚ) ≤ (n % d : ℕ) / (d : ℚ) := by positivity
      unfold halfEven at htie
      split at htie
      next =>
        rw [Int.cast_natCast, sub_add_cancel_left, abs_neg, abs_of_nonneg h0] at htie
        exact htie
      next =>
        have h1 : ((n % d : ℕ) : ℚ) / d ≤ 1 :=
          (div_le_one hdq).mpr (by exact_mod_cast (Nat.mod_lt n hd).le)
        rw [Int.cast_natCast, Nat.cast_add, Nat.cast_one, add_sub_add_left_eq_sub,
          abs_of_nonneg (by linarith)] at htie
        linarith
    rw [div_eq_iff hdq.ne'] at hcases
    have : (2 * (n % d : ℕ) : ℚ) = d := by linarith
    exact_mod_cast this
  unfold halfEven
  split <;> omega

theorem halfEvenInt_spec (n : ℤ) {d : ℕ} (hd : 0 < d) : HalfEven (n / d) (halfEvenInt n d) := by
  have h := halfEven_spec n.natAbs hd
  unfold halfEvenInt
  split
  next hneg =>
    have habs : ((n.natAbs : ℕ) : ℚ) = -n := by
      rw [Nat.cast_natAbs, abs_of_neg hneg, Int.cast_neg]
    rw [habs, neg_div] at h
    simpa using h.neg
  next hnonneg =>
    have habs : ((n.natAbs : ℕ) : ℚ) = n := by
      rw [Nat.cast_natAbs, abs_of_nonneg (not_lt.mp hnonneg)]
    rwa [habs] at h

/-! ## The scale of a result -/

/-- `x` is rounded to `coeff / 10 ^ scale`, half to even, at the largest scale up to `bound` that
has room for it; a bound below 28 is enough for all places of `x`. -/
structure Settles (x : ℚ) (bound : ℕ) (coeff : ℤ) (scale : ℕ) : Prop where
  bound_le : bound ≤ 28
  places : bound = 28 ∨ HasPlaces bound x
  scale_le : scale ≤ bound
  even : HalfEven (x * 10 ^ scale) coeff
  fits : |coeff| < limit
  tight : scale < bound → ∃ c, HalfEven (x * 10 ^ (scale + 1)) c ∧ (limit : ℤ) ≤ |c|

namespace Settles

variable {x x' : ℚ} {bound bound' scale scale' : ℕ} {coeff coeff' : ℤ}

theorem neg (h : Settles x bound coeff scale) : Settles (-x) bound (-coeff) scale where
  bound_le := h.bound_le
  places := h.places.imp_right HasPlaces.neg
  scale_le := h.scale_le
  even := by
    rw [neg_mul]
    exact h.even.neg
  fits := by
    rw [abs_neg]
    exact h.fits
  tight hlt := by
    obtain ⟨c, hc, hlarge⟩ := h.tight hlt
    exact ⟨-c, neg_mul x _ ▸ hc.neg, by rwa [abs_neg]⟩

/-- At the bound, if that is below 28, nothing is rounded. -/
theorem exact (h : Settles x bound coeff scale) (hs : scale = bound) (hlt : scale < 28) :
    x = coeff / 10 ^ scale := by
  obtain ⟨m, hm⟩ := h.places.resolve_left (by omega)
  rw [← hs] at hm
  rw [h.even.eq_of_intCast hm, ← hm]
  exact (mul_div_cancel_right₀ x (by positivity)).symm

theorem le_of_nonneg (h : Settles x bound coeff scale) (h' : Settles x' bound' coeff' scale')
    (h0 : 0 ≤ x) (hx : x ≤ x') : (coeff : ℚ) / 10 ^ scale ≤ coeff' / 10 ^ scale' := by
  have hbound := h.bound_le
  have hbound' := h'.bound_le
  have hscale := h.scale_le
  have hscale' := h'.scale_le
  have h0' := h0.trans hx
  rcases lt_trichotomy scale scale' with hlt | rfl | hgt
  · rcases hscale.lt_or_eq with hroom | heq
    · -- the smaller number would be too large for the scale of the greater one
      exfalso
      obtain ⟨c, hc, hlarge⟩ := h.tight hroom
      have hpow : (10 : ℚ) ^ (scale + 1) ≤ 10 ^ scale' := pow_le_pow_right₀ (by norm_num) hlt
      have hle : c ≤ coeff' := hc.le h'.even (mul_le_mul hx hpow (by positivity) (by linarith))
      have hc0 : 0 ≤ c := hc.nonneg (by positivity)
      have hfits := h'.fits
      rw [abs_of_nonneg hc0] at hlarge
      rw [abs_of_nonneg (hc0.trans hle)] at hfits
      omega
    · -- the smaller number is not rounded, and can be written at the scale of the greater one
      have hpow : (10 : ℚ) ^ scale' = 10 ^ scale * 10 ^ (scale' - scale) := by
        rw [← pow_add, Nat.add_sub_cancel' hlt.le]
      have hwhole : x * 10 ^ scale' = ((coeff * 10 ^ (scale' - scale) : ℤ) : ℚ) := by
        rw [h.exact heq (by omega), hpow, ← mul_assoc, div_mul_cancel₀ _ (by positivity)]
        push_cast
        rfl
      have hle := (HalfEven.intCast (coeff * 10 ^ (scale' - scale))).le h'.even
        (hwhole ▸ mul_le_mul_of_nonneg_right hx (by positivity))
      rw [← h.exact heq (by omega), le_div_iff₀ (by positivity), hwhole]
      exact_mod_cast hle
  · rw [div_le_div_iff_of_pos_right (by positivity)]
    exact_mod_cast h.even.le h'.even (mul_le_mul_of_nonneg_right hx (by positivity))
  · rcases hscale'.lt_or_eq with hroom | heq
    · -- the greater number is out of reach of the scale of the smaller one
      obtain ⟨c, hc, hlarge⟩ := h'.tight hroom
      rw [abs_of_nonneg (hc.nonneg (by positivity))] at hlarge
      have hnear := (abs_le.mp hc.near).2
      have hnear' := (abs_le.mp h'.even.near).1
      have hten : (limit : ℤ) - 6 < 10 * coeff' := by
        have hlargeq : (limit : ℚ) ≤ c := by exact_mod_cast hlarge
        rw [pow_succ] at hnear
        have : ((limit : ℤ) : ℚ) - 6 < 10 * coeff' := by
          push_cast
          linarith
        exact_mod_cast this
      have hcoeff : coeff ≤ 10 * coeff' := by
        have := (abs_lt.mp h.fits).2
        unfold limit at this hten
        omega
      have hcoeff0 : 0 ≤ coeff := h.even.nonneg (by positivity)
      calc (coeff : ℚ) / 10 ^ scale ≤ coeff / 10 ^ (scale' + 1) :=
            div_le_div_of_nonneg_left (by exact_mod_cast hcoeff0) (by positivity)
              (pow_le_pow_right₀ (by norm_num) hgt)
        _ ≤ 10 * coeff' / 10 ^ (scale' + 1) := by
            rw [div_le_div_iff_of_pos_right (by positivity)]
            exact_mod_cast hcoeff
        _ = coeff' / 10 ^ scale' := by
            rw [pow_succ, mul_comm, mul_div_mul_right _ _ (by norm_num)]
    · -- the greater number is not rounded, and can be written at the scale of the smaller one
      have hpow : (10 : ℚ) ^ scale = 10 ^ scale' * 10 ^ (scale - scale') := by
        rw [← pow_add, Nat.add_sub_cancel' hgt.le]
      have hwhole : x' * 10 ^ scale = ((coeff' * 10 ^ (scale - scale') : ℤ) : ℚ) := by
        rw [h'.exact heq (by omega), hpow, ← mul_assoc, div_mul_cancel₀ _ (by positivity)]
        push_cast
        rfl
      have hle := h.even.le (HalfEven.intCast (coeff' * 10 ^ (scale - scale')))
        (hwhole ▸ mul_le_mul_of_nonneg_right hx (by positivity))
      rw [← h'.exact heq (by omega), div_le_iff₀ (by positivity), hwhole]
      exact_mod_cast hle

theorem le (h : Settles x bound coeff scale) (h' : Settles x' bound' coeff' scale')
    (hx : x ≤ x') : (coeff : ℚ) / 10 ^ scale ≤ coeff' / 10 ^ scale' := by
  rcases le_total 0 x with h0 | h0
  · exact h.le_of_nonneg h' h0 hx
  rcases le_total 0 x' with h0' | h0'
  · -- across zero
    have hneg : 0 ≤ -coeff := h.even.neg.nonneg (by
      rw [neg_nonneg]
      exact mul_nonpos_of_nonpos_of_nonneg h0 (by positivity))
    have hpos : 0 ≤ coeff' := h'.even.nonneg (by positivity)
    have hle : (coeff : ℚ) ≤ 0 := by exact_mod_cast (by omega : coeff ≤ 0)
    have hle' : (0 : ℚ) ≤ coeff' := by exact_mod_cast hpos
    exact (div_nonpos_of_nonpos_of_nonneg hle (by positivity)).trans (by positivity)
  · have := h'.neg.le_of_nonneg h.neg (neg_nonneg.mpr h0') (neg_le_neg hx)
    rw [Int.cast_neg, Int.cast_neg, neg_div, neg_div] at this
    exact neg_le_neg_iff.mp this

end Settles

theorem settles_of_ofFraction? {n : ℤ} {d : ℕ} (hd : 0 < d) {r : Decimal} :
    ∀ {bound : ℕ}, bound ≤ 28 → ofFraction? n d bound = some r →
      r.scale ≤ bound ∧ HalfEven (n / d * 10 ^ r.scale) r.coeff ∧
        (r.scale < bound → ∃ c, HalfEven (n / d * 10 ^ (r.scale + 1)) c ∧ (limit : ℤ) ≤ |c|) := by
  -- the coefficient that is tried at a scale
  have htried : ∀ s, HalfEven (n / d * 10 ^ s) (halfEvenInt (n * powerOfTen s) d) := by
    intro s
    have h := halfEvenInt_spec (n * powerOfTen s) hd
    rw [Int.cast_mul, Int.cast_natCast, cast_powerOfTen, mul_div_right_comm] at h
    exact h
  intro bound
  induction bound with
  | zero =>
    intro _ h
    have h' : ofParts? (halfEvenInt (n * powerOfTen 0) d) 0 = some r := by
      simpa [ofFraction?, powerOfTen] using h
    obtain ⟨hc, hs⟩ := ofParts?_eq_some h'
    refine ⟨hs.le, ?_, fun hlt => absurd hlt (by omega)⟩
    rw [hs, hc]
    exact htried 0
  | succ s ih =>
    intro hb h
    rw [ofFraction?] at h
    cases hp : ofParts? (halfEvenInt (n * powerOfTen (s + 1)) d) (s + 1) with
    | some r' =>
      rw [hp] at h
      cases h
      obtain ⟨hc, hs⟩ := ofParts?_eq_some hp
      refine ⟨hs.le, ?_, fun hlt => absurd hlt (by omega)⟩
      rw [hs, hc]
      exact htried (s + 1)
    | none =>
      rw [hp] at h
      obtain ⟨hle, heven, htight⟩ := ih (by omega) h
      refine ⟨by omega, heven, fun _ => ?_⟩
      rcases hle.lt_or_eq with hlt | heq
      · exact htight hlt
      · -- the scale above was passed over just now
        rw [heq]
        refine ⟨_, htried (s + 1), ?_⟩
        rw [Int.abs_eq_natAbs]
        exact_mod_cast limit_le_of_ofParts?_eq_none hb hp

/-! ## Operations -/

namespace RoundsTo

variable {m m' : Option Decimal} {x x' : ℚ} {r r' : Decimal}

theorem settles (h : RoundsTo m x) (hr : m = some r) :
    ∃ bound, Settles x bound r.coeff r.scale := by
  obtain ⟨n, d, bound, hd, hb, rfl, rfl, hplaces⟩ := h
  obtain ⟨hle, heven, htight⟩ := settles_of_ofFraction? hd hb hr
  refine ⟨bound, hb, hplaces, hle, heven, ?_, htight⟩
  rw [Int.abs_eq_natAbs]
  exact_mod_cast r.coeff_lt

/-- Of two exact results the smaller one does not become the greater one. -/
theorem le (h : RoundsTo m x) (h' : RoundsTo m' x') (hr : m = some r) (hr' : m' = some r')
    (hx : x ≤ x') : r.value ≤ r'.value := by
  obtain ⟨bound, hs⟩ := h.settles hr
  obtain ⟨bound', hs'⟩ := h'.settles hr'
  exact hs.le hs' hx

/-- A decimal itself is not rounded. -/
theorem self (a : Decimal) : ∃ r, RoundsTo (some r) a.value ∧ r.value = a.value := by
  have h := mul?_roundsTo a one
  rw [value_one, mul_one] at h
  obtain ⟨r, hr, hv⟩ := h.exists_eq
  exact ⟨r, hr ▸ h, hv⟩

/-- Rounding does not go below a decimal. -/
theorem value_le (h : RoundsTo m x) (hr : m = some r) {a : Decimal} (ha : a.value ≤ x) :
    a.value ≤ r.value := by
  obtain ⟨b, hb, hv⟩ := self a
  exact hv ▸ hb.le h rfl hr ha

/-- Rounding does not go beyond a decimal. -/
theorem le_value (h : RoundsTo m x) (hr : m = some r) {a : Decimal} (ha : x ≤ a.value) :
    r.value ≤ a.value := by
  obtain ⟨b, hb, hv⟩ := self a
  exact hv ▸ h.le hb hr rfl ha

theorem nonneg (h : RoundsTo m x) (hr : m = some r) (hx : 0 ≤ x) : 0 ≤ r.value := by
  have := h.value_le hr (a := .zero) (by rwa [value_zero])
  rwa [value_zero] at this

end RoundsTo

section

variable {a b r : Decimal}

theorem roundsTo_of_add (h : a.add b = .ok r) : RoundsTo (some r) (a.value + b.value) := by
  have hround := add?_roundsTo a b
  cases hr : a.add? b with
  | none => simp [add, hr] at h
  | some r' =>
    rw [add_eq_ok hr, Except.ok.injEq] at h
    rwa [hr, h] at hround

theorem roundsTo_of_sub (h : a.sub b = .ok r) : RoundsTo (some r) (a.value - b.value) := by
  have hround := sub?_roundsTo a b
  cases hr : a.sub? b with
  | none => simp [sub, hr] at h
  | some r' =>
    rw [sub_eq_ok hr, Except.ok.injEq] at h
    rwa [hr, h] at hround

theorem roundsTo_of_mul (h : a.mul b = .ok r) : RoundsTo (some r) (a.value * b.value) := by
  have hround := mul?_roundsTo a b
  cases hr : a.mul? b with
  | none => simp [mul, hr] at h
  | some r' =>
    rw [mul_eq_ok hr, Except.ok.injEq] at h
    rwa [hr, h] at hround

/-- A quotient is rounded once, to the most places that there is room for. -/
theorem settles_of_div (hb : b.value ≠ 0) (h : a.div b = .ok r) :
    Settles (a.value / b.value) 28 r.coeff r.scale := by
  obtain ⟨n, d, hd, hx, hq⟩ := exists_div?_eq (a := a) hb
  cases hr : a.div? b with
  | none => simp [div, isZero_eq_false hb, hr] at h
  | some r' =>
    rw [div_eq_ok hb hr, Except.ok.injEq] at h
    rw [h, hq] at hr
    obtain ⟨hscale, heven, htight⟩ := settles_of_ofFraction? hd (le_refl 28) hr
    rw [hx] at heven htight
    refine ⟨le_refl 28, Or.inl rfl, hscale, heven, ?_, htight⟩
    rw [Int.abs_eq_natAbs]
    exact_mod_cast r.coeff_lt

theorem roundsTo_of_div (hb : b.value ≠ 0) (h : a.div b = .ok r) :
    RoundsTo (some r) (a.value / b.value) := by
  have hround := div?_roundsTo (a := a) hb
  cases hr : a.div? b with
  | none => simp [div, isZero_eq_false hb, hr] at h
  | some r' =>
    rw [div_eq_ok hb hr, Except.ok.injEq] at h
    rwa [hr, h] at hround

end

end RegionPricing.Decimal
