import RegionPricing.Proofs.Decimal.Value

/-!
# Rounding a number to a decimal

`Decimal.ofFraction?` tries the scales from the largest one downwards and keeps
the first at which the rounded coefficient fits. `Rounds x bound r` states what
that comes to, without the search: `r` is within half a unit of its last place of
`x`, and a scale below the largest one was taken only because `x` is too large for
the next.

Two consequences carry every later argument about prices:

* `Rounds.value_eq` — a number that some allowed scale holds exactly is not
  rounded at all;
* `Rounds.error_le` — otherwise the error is at most `epsilon * (1 + |x|)`.
-/

namespace RegionPricing.Decimal

/-! ## Half to even -/

theorem halfEven_near (n : ℕ) {d : ℕ} (hd : 0 < d) : |(halfEven n d : ℚ) - n / d| ≤ 1 / 2 := by
  have hdq : (0 : ℚ) < d := by exact_mod_cast hd
  have hn : (n : ℚ) = d * (n / d : ℕ) + (n % d : ℕ) := by exact_mod_cast (Nat.div_add_mod n d).symm
  have hlt : ((n % d : ℕ) : ℚ) < d := by exact_mod_cast Nat.mod_lt n hd
  have hquot : (n : ℚ) / d = (n / d : ℕ) + (n % d : ℕ) / (d : ℚ) := by
    rw [hn, add_div, mul_div_cancel_left₀ _ hdq.ne']
  have h0 : (0 : ℚ) ≤ (n % d : ℕ) / (d : ℚ) := by positivity
  have h1 : ((n % d : ℕ) : ℚ) / d ≤ 1 := (div_le_one hdq).mpr hlt.le
  rw [hquot, abs_le]
  unfold halfEven
  split
  next h =>
    have hdown : ((n % d : ℕ) : ℚ) / d ≤ 1 / 2 := by
      rw [div_le_iff₀ hdq]
      have : (2 * (n % d : ℕ) : ℚ) ≤ d := by
        exact_mod_cast (by omega : 2 * (n % d) ≤ d)
      linarith
    constructor <;> linarith
  next h =>
    have hup : 1 / 2 ≤ ((n % d : ℕ) : ℚ) / d := by
      rw [le_div_iff₀ hdq]
      have : (d : ℚ) ≤ 2 * (n % d : ℕ) := by
        exact_mod_cast (by omega : d ≤ 2 * (n % d))
      linarith
    push_cast
    constructor <;> linarith

theorem halfEvenInt_near (n : ℤ) {d : ℕ} (hd : 0 < d) :
    |(halfEvenInt n d : ℚ) - n / d| ≤ 1 / 2 := by
  have h := halfEven_near n.natAbs hd
  unfold halfEvenInt
  split
  next hneg =>
    have habs : ((n.natAbs : ℕ) : ℚ) = -n := by
      rw [Nat.cast_natAbs, abs_of_neg hneg, Int.cast_neg]
    rw [habs] at h
    push_cast
    rw [← abs_neg]
    convert h using 2
    ring
  next hnonneg =>
    have habs : ((n.natAbs : ℕ) : ℚ) = n := by
      rw [Nat.cast_natAbs, abs_of_nonneg (not_lt.mp hnonneg)]
    rw [habs] at h
    exact_mod_cast h

/-! ## The chosen scale -/

/-- `r` is `x` rounded at the largest scale, of those up to `bound`, that has room
for it. -/
structure Rounds (x : ℚ) (bound : ℕ) (r : Decimal) : Prop where
  scale_le : r.scale ≤ bound
  near : |r.value - x| * 10 ^ r.scale ≤ 1 / 2
  tight : r.scale < bound → limit - 1 / 2 ≤ |x| * 10 ^ (r.scale + 1)

/-- Whether a number rounds to a whole number that a decimal can hold. -/
def Fits (x : ℚ) : Prop := |x| < limit - 1 / 2

theorem ofParts?_eq_some {z : ℤ} {s : ℕ} {r : Decimal} (h : ofParts? z s = some r) :
    r.coeff = z ∧ r.scale = s := by
  unfold ofParts? at h
  split at h
  next hz =>
    cases h
    exact ⟨coeff_ofCoeff _ _ _ _, rfl⟩
  next => exact absurd h (by simp)

theorem limit_le_of_ofParts?_eq_none {z : ℤ} {s : ℕ} (hs : s ≤ 28) (h : ofParts? z s = none) :
    limit ≤ z.natAbs := by
  unfold ofParts? at h
  split at h
  next => exact absurd h (by simp)
  next hz =>
    unfold limit
    omega

/-- A coefficient found by rounding is within half a unit of the number. -/
theorem near_of_ofParts? {n : ℤ} {d s : ℕ} (hd : 0 < d) {r : Decimal}
    (h : ofParts? (halfEvenInt (n * powerOfTen s) d) s = some r) :
    |r.value - n / d| * 10 ^ s ≤ 1 / 2 := by
  obtain ⟨hc, hs⟩ := ofParts?_eq_some h
  have hnear := halfEvenInt_near (n * powerOfTen s) hd
  rw [← hc, ← value_mul_pow, hs, Int.cast_mul, Int.cast_natCast, cast_powerOfTen] at hnear
  calc |r.value - n / d| * 10 ^ s = |(r.value - n / d) * 10 ^ s| := by
        rw [abs_mul, abs_of_pos (by positivity : (0 : ℚ) < 10 ^ s)]
    _ = |r.value * 10 ^ s - n * 10 ^ s / d| := by
        congr 1
        ring
    _ ≤ 1 / 2 := hnear

/-- A scale is passed over only when the number is too large for it. -/
theorem large_of_ofParts? {n : ℤ} {d s : ℕ} (hd : 0 < d) (hs : s ≤ 28)
    (h : ofParts? (halfEvenInt (n * powerOfTen s) d) s = none) :
    limit - 1 / 2 ≤ |(n : ℚ) / d| * 10 ^ s := by
  have hlim : (limit : ℚ) ≤ |(halfEvenInt (n * powerOfTen s) d : ℚ)| := by
    have hz : (limit : ℤ) ≤ |halfEvenInt (n * powerOfTen s) d| := by
      rw [Int.abs_eq_natAbs]
      exact_mod_cast limit_le_of_ofParts?_eq_none hs h
    exact_mod_cast hz
  have hnear := halfEvenInt_near (n * powerOfTen s) hd
  have htri := abs_sub_abs_le_abs_sub (halfEvenInt (n * powerOfTen s) d : ℚ)
    ((n * powerOfTen s : ℤ) / d)
  have hx : |((n * powerOfTen s : ℤ) : ℚ) / d| = |(n : ℚ) / d| * 10 ^ s := by
    rw [Int.cast_mul, Int.cast_natCast, cast_powerOfTen, mul_div_right_comm, abs_mul,
      abs_of_pos (by positivity : (0 : ℚ) < 10 ^ s)]
  linarith

theorem rounds_of_ofFraction? {n : ℤ} {d : ℕ} (hd : 0 < d) {r : Decimal} :
    ∀ {bound : ℕ}, bound ≤ 28 → ofFraction? n d bound = some r → Rounds (n / d) bound r := by
  intro bound
  induction bound with
  | zero =>
    intro _ h
    have h' : ofParts? (halfEvenInt (n * powerOfTen 0) d) 0 = some r := by
      simpa [ofFraction?, powerOfTen] using h
    have hs := (ofParts?_eq_some h').2
    refine ⟨hs.le, ?_, fun hlt => absurd hlt (by omega)⟩
    rw [hs]
    exact near_of_ofParts? hd h'
  | succ s ih =>
    intro hb h
    rw [ofFraction?] at h
    cases hp : ofParts? (halfEvenInt (n * powerOfTen (s + 1)) d) (s + 1) with
    | some r' =>
      rw [hp] at h
      cases h
      have hs := (ofParts?_eq_some hp).2
      refine ⟨hs.le, ?_, fun hlt => absurd hlt (by omega)⟩
      rw [hs]
      exact near_of_ofParts? hd hp
    | none =>
      rw [hp] at h
      have hr := ih (by omega) h
      refine ⟨hr.scale_le.trans (Nat.le_succ s), hr.near, fun _ => ?_⟩
      -- either a scale above was passed over already, or this one is
      rcases hr.scale_le.lt_or_eq with hlt | heq
      · exact hr.tight hlt
      · rw [heq]
        exact large_of_ofParts? hd hb hp

theorem exists_ofFraction? {n : ℤ} {d : ℕ} (hd : 0 < d) (hx : Fits (n / d)) :
    ∀ bound : ℕ, ∃ r, ofFraction? n d bound = some r := by
  intro bound
  induction bound with
  | zero =>
    cases hp : ofParts? (halfEvenInt (n * powerOfTen 0) d) 0 with
    | some r => exact ⟨r, by simpa [ofFraction?, powerOfTen] using hp⟩
    | none =>
      have h := large_of_ofParts? hd (by omega) hp
      rw [pow_zero, mul_one] at h
      exact absurd hx (not_lt.mpr h)
  | succ s ih =>
    obtain ⟨r, hr⟩ := ih
    rw [ofFraction?]
    split
    next r' _ => exact ⟨r', rfl⟩
    next => exact ⟨r, hr⟩

/-! ## What rounding changes -/

/-- What one operation may lose: the last of the places. -/
def epsilon : ℚ := 1 / 10 ^ 28

theorem epsilon_nonneg : 0 ≤ epsilon := by
  unfold epsilon
  positivity

namespace Rounds

variable {x : ℚ} {bound k : ℕ} {r : Decimal}

/-- Two multiples of one unit that are half a unit apart at most are equal. -/
theorem value_eq_of_scale (h : Rounds x bound r) (hx : HasPlaces r.scale x) : r.value = x := by
  have hpow : (0 : ℚ) < 10 ^ r.scale := by positivity
  obtain ⟨m, hm⟩ := hx
  have hnear := h.near
  rw [← abs_of_pos hpow, ← abs_mul, sub_mul, value_mul_pow, hm] at hnear
  have hlt : |r.coeff - m| < 1 := by
    have h1 : ((|r.coeff - m| : ℤ) : ℚ) < 1 := by
      push_cast
      linarith
    exact_mod_cast h1
  have heq : r.coeff = m := by
    have := Int.abs_lt_one_iff.mp hlt
    omega
  have : r.value * 10 ^ r.scale = x * 10 ^ r.scale := by rw [value_mul_pow, hm, heq]
  exact mul_right_cancel₀ hpow.ne' this

/-- A number that an allowed scale holds exactly is not rounded. -/
theorem value_eq (h : Rounds x bound r) (hk : HasPlaces k x) (hkb : k ≤ bound)
    (hx : |x| * 10 ^ k < limit) : r.value = x := by
  rcases Nat.lt_or_ge r.scale k with hlt | hge
  · exfalso
    have hle := hk.abs_mul_pow_le hx
    have htight := h.tight (by omega)
    have hpows : (10 : ℚ) ^ (r.scale + 1) ≤ 10 ^ k := pow_le_pow_right₀ (by norm_num) hlt
    have := mul_le_mul_of_nonneg_left hpows (abs_nonneg x)
    linarith
  · exact h.value_eq_of_scale (hk.mono hge)

/-- Where places were given up, the error is small beside the number. -/
theorem error_le_of_scale_lt (h : Rounds x bound r) (hlt : r.scale < bound) :
    |r.value - x| ≤ |x| / (15 * 10 ^ 27) := by
  have hpow : (0 : ℚ) < 10 ^ r.scale := by positivity
  have htight := h.tight hlt
  have hlim : (79 * 10 ^ 27 : ℚ) ≤ limit - 1 / 2 := by
    unfold limit
    norm_num
  have hsize : 79 * 10 ^ 27 ≤ 10 * |x| * 10 ^ r.scale := by
    rw [pow_succ] at htight
    linarith
  rw [le_div_iff₀ (by norm_num)]
  refine le_of_mul_le_mul_right ?_ hpow
  have := h.near
  linarith

/-- The error of an operation that may use all places, or that needs no more than
it may use: half a unit of the last place, or small beside the number. -/
theorem error_cases (h : Rounds x bound r) (hb : bound = 28 ∨ HasPlaces bound x) :
    |r.value - x| ≤ epsilon / 2 ∨ |r.value - x| ≤ |x| / (15 * 10 ^ 27) := by
  rcases h.scale_le.lt_or_eq with hlt | heq
  · exact Or.inr (h.error_le_of_scale_lt hlt)
  · left
    rcases hb with hb | hx
    · have hnear := h.near
      rw [heq, hb] at hnear
      unfold epsilon
      rw [div_div, le_div_iff₀ (by norm_num)]
      linarith
    · rw [h.value_eq_of_scale (heq ▸ hx), sub_self, abs_zero]
      unfold epsilon
      positivity

theorem error_le (h : Rounds x bound r) (hb : bound = 28 ∨ HasPlaces bound x) :
    |r.value - x| ≤ epsilon * (1 + |x|) := by
  have hx := abs_nonneg x
  unfold epsilon
  rcases h.error_cases hb with h' | h'
  · unfold epsilon at h'
    linarith
  · refine h'.trans ?_
    rw [div_le_iff₀ (by norm_num)]
    linarith

end Rounds

end RegionPricing.Decimal
