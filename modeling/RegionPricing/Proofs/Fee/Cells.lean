import Mathlib.Data.Nat.Digits.Defs
import RegionPricing.Proofs.Fee.Rows
import RegionPricing.Proofs.FixedPoint.Nearest

/-!
# What a cell may say

Three grammars are behind the cells of a row, and each is told here without the program that
reads it. A whole number is a run of digits with a sign in front or none (`WholeNumber`). A
weight limit says `inf`, in letters of either case, or is a decimal that is not negative
(`LimitText`); it is stored as the nearest weight, at most the unbounded one. An exponent is a
whole number of at most 18 in size (`ExponentText`). Blanks around a cell do not count.

No text is read in two of the ways: `inf` is no decimal (`read_of_isInf`), and a sign is no digit.
-/

namespace RegionPricing.Text

/-! ## Whole numbers -/

/-- A run of digits, of which there is one at least, and the number that it stands for. -/
def Denotes (cs : List Char) (n : ℕ) : Prop :=
  cs ≠ [] ∧ ∃ ds, List.Forall₂ (fun c d => digit? c = some d) cs ds ∧
    Nat.ofDigits 10 ds.reverse = n

/-- Digits behind a sign, or without any. -/
inductive WholeNumber : List Char → ℤ → Prop
  | plain {cs : List Char} {n : ℕ} (h : Denotes cs n) : WholeNumber cs n
  | plus {cs : List Char} {n : ℕ} (h : Denotes cs n) : WholeNumber ('+' :: cs) n
  | minus {cs : List Char} {n : ℕ} (h : Denotes cs n) : WholeNumber ('-' :: cs) (-n)

section

variable {cs : List Char} {c : Char} {acc n : ℕ}

theorem continue?_eq_some_iff : continue? acc cs = some n ↔
    ∃ ds, List.Forall₂ (fun c d => digit? c = some d) cs ds ∧
      acc * 10 ^ cs.length + Nat.ofDigits 10 ds.reverse = n := by
  induction cs generalizing acc with
  | nil => simp [continue?]
  | cons c cs ih =>
    -- the digit in front counts for as many places as there are digits behind it
    have hplace : ∀ {d : ℕ} {ds : List ℕ},
        List.Forall₂ (fun c d => digit? c = some d) cs ds →
        acc * 10 ^ (c :: cs).length + Nat.ofDigits 10 (d :: ds).reverse
          = (10 * acc + d) * 10 ^ cs.length + Nat.ofDigits 10 ds.reverse := by
      intro d ds hds
      rw [List.reverse_cons, Nat.ofDigits_append, Nat.ofDigits_singleton, List.length_reverse,
        ← hds.length_eq, List.length_cons, pow_succ]
      ring
    rw [continue?, Option.bind_eq_some_iff]
    constructor
    · intro h
      obtain ⟨d, hd, hrest⟩ := h
      obtain ⟨ds, hds, hn⟩ := ih.mp hrest
      exact ⟨d :: ds, .cons hd hds, (hplace hds).trans hn⟩
    · intro h
      obtain ⟨ds, hds, hn⟩ := h
      cases hds with
      | cons hd hds => exact ⟨_, hd, ih.mpr ⟨_, hds, (hplace hds).symm.trans hn⟩⟩

theorem number?_eq_some_iff : number? cs = some n ↔ Denotes cs n := by
  unfold Denotes
  by_cases hcs : cs = []
  · subst hcs
    simp [number?]
  · rw [number?_eq hcs, continue?_eq_some_iff]
    simp [hcs]

/-- What stands for a number begins with a digit. -/
theorem not_denotes_cons (h : digit? c = none) : ¬Denotes (c :: cs) n := by
  intro ⟨_, ds, hds, _⟩
  cases hds with
  | cons hd _ =>
    rw [h] at hd
    cases hd

theorem wholeNumber_plus_iff {n : ℤ} :
    WholeNumber ('+' :: cs) n ↔ ∃ m : ℕ, Denotes cs m ∧ (m : ℤ) = n := by
  constructor
  · intro h
    cases h with
    | plain h => exact absurd h (not_denotes_cons rfl)
    | plus h => exact ⟨_, h, rfl⟩
  · intro ⟨m, hm, heq⟩
    exact heq ▸ .plus hm

theorem wholeNumber_minus_iff {n : ℤ} :
    WholeNumber ('-' :: cs) n ↔ ∃ m : ℕ, Denotes cs m ∧ -(m : ℤ) = n := by
  constructor
  · intro h
    cases h with
    | plain h => exact absurd h (not_denotes_cons rfl)
    | minus h => exact ⟨_, h, rfl⟩
  · intro ⟨m, hm, heq⟩
    exact heq ▸ .minus hm

theorem wholeNumber_plain_iff {n : ℤ} (hplus : ∀ r, cs ≠ '+' :: r) (hminus : ∀ r, cs ≠ '-' :: r) :
    WholeNumber cs n ↔ ∃ m : ℕ, Denotes cs m ∧ (m : ℤ) = n := by
  constructor
  · intro h
    cases h with
    | plain h => exact ⟨_, h, rfl⟩
    | plus h => exact absurd rfl (hplus _)
    | minus h => exact absurd rfl (hminus _)
  · intro ⟨m, hm, heq⟩
    exact heq ▸ .plain hm

/-- A whole number is read when it is within bounds. -/
theorem signed?_eq_some_iff {least greatest n : ℤ} :
    signed? least greatest cs = some n ↔ WholeNumber cs n ∧ least ≤ n ∧ n ≤ greatest := by
  unfold signed?
  dsimp only
  rw [Option.filter_eq_some_iff, decide_eq_true_eq]
  refine and_congr_left fun _ => ?_
  split
  next r =>
    rw [Option.map_eq_some_iff, wholeNumber_plus_iff]
    simp only [number?_eq_some_iff, Int.ofNat_eq_natCast]
  next r =>
    rw [Option.map_eq_some_iff, wholeNumber_minus_iff]
    simp only [number?_eq_some_iff, Int.ofNat_eq_natCast]
  next hplus hminus =>
    rw [Option.map_eq_some_iff, wholeNumber_plain_iff hplus hminus]
    simp only [number?_eq_some_iff, Int.ofNat_eq_natCast]

end

end RegionPricing.Text

namespace RegionPricing.Fee

open Decimal Text

/-! ## Weight limits -/

/-- The word for no limit, each letter in either case. -/
def IsInf (cs : List Char) : Prop :=
  List.Forall₂ (· ∈ ·) cs [['i', 'I'], ['n', 'N'], ['f', 'F']]

/-- A weight limit in text, and the stored weight that it stands for: none, or the nearest to
its grams. -/
inductive LimitText (text : String) (limit : Int64) : Prop
  | unbounded (h : IsInf (trim text.toList)) (hlimit : limit = FixedPoint.unboundedWeight)
  | grams {grams : Decimal} {n : ℤ} (hread : Decimal.ofText text = .ok grams)
      (hsign : 0 ≤ grams.value) (hround : NearestAway (grams.value * 10 ^ 5) n)
      (hlimit : limit.toInt = min n FixedPoint.unboundedWeight.toInt)

/-- An exponent in text. -/
def ExponentText (text : String) (n : ℤ) : Prop :=
  WholeNumber (trim text.toList) n ∧ -18 ≤ n ∧ n ≤ 18

/-- The texts that a column takes. -/
def Takes (field text : String) : Prop :=
  if field = "weight_range" then
    IsInf (trim text.toList) ∨ ∃ grams, Decimal.ofText text = .ok grams ∧ 0 ≤ grams.value
  else if field = "round_size" then ∃ n, ExponentText text n
  else ∃ d, Decimal.ofText text = .ok d

section

variable {cs : List Char} {c : Char} {text field : String} {limit : Int64} {index : ℕ}

/-- A letter in either case. -/
theorem upper_eq_iff (small : Char) {capital : Char}
    (hsmall : 97 ≤ small.toNat ∧ small.toNat ≤ 122) (hcapital : capital.toNat + 32 = small.toNat) :
    upper c = capital ↔ c ∈ [small, capital] := by
  have hupper := toNat_upper c
  rw [List.mem_pair, ← Char.toNat_inj, ← Char.toNat_inj, ← Char.toNat_inj, hupper]
  split <;> omega

theorem isUnbounded_iff : Row.isUnbounded cs = true ↔ IsInf cs := by
  unfold Row.isUnbounded IsInf
  rw [decide_eq_true_eq]
  match cs with
  | [] => simp
  | [_] => simp
  | [_, _] => simp
  | [a, b, c] =>
    simp only [List.map_cons, List.map_nil, List.cons.injEq, and_true, List.forall₂_cons,
      List.Forall₂.nil]
    rw [upper_eq_iff 'i' (by decide) (by decide), upper_eq_iff 'n' (by decide) (by decide),
      upper_eq_iff 'f' (by decide) (by decide)]
  | _ :: _ :: _ :: _ :: _ => simp

/-- The word for no limit is no decimal. -/
theorem read_of_isInf {d : Decimal} (h : IsInf cs) : Decimal.read cs ≠ .ok d := by
  unfold IsInf at h
  simp only [List.forall₂_cons_right_iff, List.forall₂_nil_right_iff, List.mem_pair] at h
  obtain ⟨a, _, ha, ⟨b, _, hb, ⟨c, _, hc, rfl, rfl⟩, rfl⟩, rfl⟩ := h
  -- its first letter is neither a digit nor a sign, and no letter is that of an exponent
  have hread : Decimal.read [a, b, c] = .error .unknownCharacter := by
    rcases ha with rfl | rfl <;> rcases hb with rfl | rfl <;> rcases hc with rfl | rfl <;> rfl
  rw [hread]
  simp

/-- The stored weight of a number of grams, at most the unbounded one. -/
theorem capped_iff {grams : Decimal} (h : 0 ≤ grams.value) {n : ℤ}
    (hn : NearestAway (grams.value * 10 ^ 5) n) :
    (if FixedPoint.rawOfGrams grams < FixedPoint.unboundedWeight then
      FixedPoint.rawOfGrams grams else FixedPoint.unboundedWeight) = limit ↔
      limit.toInt = min n FixedPoint.unboundedWeight.toInt := by
  have hraw : FixedPoint.rawOfGrams grams = FixedPoint.rawOf 5 grams.value :=
    FixedPoint.inflate_eq (by decide)
  have hint := FixedPoint.toInt_rawOf (k := 5) h
  rw [← hraw, (halfAway_nearest _).unique hn] at hint
  have hunbounded : FixedPoint.unboundedWeight.toInt = 9223372036854700000 := by decide
  rw [← Int64.toInt_inj, eq_comm]
  split
  next hlt =>
    rw [Int64.lt_iff_toInt_lt] at hlt
    rw [show min n FixedPoint.unboundedWeight.toInt
      = (FixedPoint.rawOfGrams grams).toInt by omega]
  next hge =>
    rw [Int64.lt_iff_toInt_lt] at hge
    rw [show min n FixedPoint.unboundedWeight.toInt = FixedPoint.unboundedWeight.toInt by omega]

theorem weightLimit?_eq_some_iff : Row.weightLimit? text = some limit ↔ LimitText text limit := by
  unfold Row.weightLimit?
  dsimp only
  split
  next hinf =>
    have hword := isUnbounded_iff.mp hinf
    rw [Option.some.injEq]
    constructor
    · intro h
      exact .unbounded hword h.symm
    · intro h
      cases h with
      | unbounded _ hlimit => exact hlimit.symm
      | grams hread => exact absurd hread (read_of_isInf hword)
  next hinf =>
    have hword := mt isUnbounded_iff.mpr hinf
    split
    next grams hread =>
      split
      next hneg =>
        refine iff_of_false (by simp) ?_
        intro h
        cases h with
        | unbounded h => exact hword h
        | grams hread' hsign =>
          obtain rfl := Except.ok.inj (hread.symm.trans hread')
          exact absurd ((isNegative_iff grams).mp hneg) (not_lt.mpr hsign)
      next hpos =>
        have hsign : 0 ≤ grams.value := not_lt.mp (mt (isNegative_iff grams).mpr hpos)
        rw [Option.some.injEq]
        constructor
        · intro h
          exact .grams hread hsign (halfAway_nearest _)
            ((capped_iff hsign (halfAway_nearest _)).mp h)
        · intro h
          cases h with
          | unbounded h => exact absurd h hword
          | grams hread' hsign hround hlimit =>
            obtain rfl := Except.ok.inj (hread.symm.trans hread')
            exact (capped_iff hsign hround).mpr hlimit
    next e hread =>
      refine iff_of_false (by simp) ?_
      intro h
      cases h with
      | unbounded h => exact hword h
      | grams hread' => cases hread.symm.trans hread'

/-- Every weight limit in text stands for some stored weight. -/
theorem takes_limit_iff :
    Takes "weight_range" text ↔ ∃ limit, LimitText text limit := by
  show IsInf _ ∨ _ ↔ _
  constructor
  · intro h
    rcases h with hword | ⟨grams, hread, hsign⟩
    · exact ⟨_, .unbounded hword rfl⟩
    · exact ⟨_, .grams hread hsign (halfAway_nearest _)
        ((capped_iff hsign (halfAway_nearest _)).mp rfl)⟩
  · intro ⟨limit, h⟩
    cases h with
    | unbounded hword => exact .inl hword
    | grams hread hsign => exact .inr ⟨_, hread, hsign⟩

/-! ## Exponents -/

theorem leastExponent_iff :
    Row.LeastExponent text ↔ WholeNumber (trim text.toList) (-2147483648) := by
  unfold Row.LeastExponent
  rw [signed?_eq_some_iff]
  simp

/-- The bounds of an exponent are narrower than those of 32 bits. -/
theorem comesTo_roundExponent_iff {exponent : Int32} :
    ComesTo (Row.roundExponent index text) exponent ↔ ExponentText text exponent.toInt := by
  constructor
  · intro h
    have hbounds := Row.roundExponent_bounds h
    rw [Int32.le_iff_toInt_le, Int32.le_iff_toInt_le] at hbounds
    refine ⟨?_, hbounds⟩
    unfold Row.roundExponent at h
    split at h
    next n hn =>
      obtain ⟨hwhole, hmin, hmax⟩ := signed?_eq_some_iff.mp hn
      split at h
      next => simp at h
      next =>
        split at h
        next =>
          rw [comesTo_pure_iff] at h
          rwa [← h, Int32.toInt_ofInt_of_le hmin (by omega)]
        next => simp at h
    next => simp at h
  · intro ⟨hwhole, hmin, hmax⟩
    unfold Row.roundExponent
    rw [signed?_eq_some_iff.mpr ⟨hwhole, by omega, by omega⟩]
    dsimp only
    have hsize : (exponent.toInt.natAbs : ℤ) ≤ Bracket.maxExponent := by
      show _ ≤ (18 : ℤ)
      omega
    rw [if_neg (by omega), if_pos hsize, comesTo_pure_iff, Int32.ofInt_toInt]

theorem takes_exponent_iff : Takes "round_size" text ↔
    ∃ exponent : Int32, ExponentText text exponent.toInt := by
  show (∃ n, _) ↔ _
  constructor
  · intro ⟨n, hwhole, hmin, hmax⟩
    refine ⟨Int32.ofInt n, ?_⟩
    rw [Int32.toInt_ofInt_of_le (by omega) (by omega)]
    exact ⟨hwhole, hmin, hmax⟩
  · intro ⟨exponent, h⟩
    exact ⟨_, h⟩

end

end RegionPricing.Fee
