import RegionPricing.Decimal.Text
import RegionPricing.Proofs.Decimal.Value
import RegionPricing.Proofs.Json.RoundTrip

/-!
# Decimals read back from their text

The text of a decimal has all its places, at least one digit before the point, and a sign
when the decimal is negative, zero included. Reading takes the digits one by one; while they
make up a number that a decimal holds, none of them is rounded away (`scan_digits`). So
`read_plainChars`: mantissa and scale come back as they were, and so does the sign, but for
that of zero.
-/

namespace RegionPricing.Decimal

open RegionPricing.Text

/-- The decimal, zero without its minus sign. -/
def plainZero (a : Decimal) : Decimal := { a with negative := a.negative && a.mantissa != 0 }

theorem plainZero_eq_self {a : Decimal} (h : a.negative = false ∨ a.mantissa ≠ 0) :
    a.plainZero = a := by
  obtain ⟨negative, mantissa, scale, hm, hs⟩ := a
  rcases h with hneg | hne
  · obtain rfl : negative = false := hneg
    rfl
  · have hbne : (mantissa != 0) = true := bne_iff_ne.mpr hne
    simp only [plainZero, hbne, Bool.and_true]

theorem coeff_plainZero (a : Decimal) : a.plainZero.coeff = a.coeff := by
  by_cases hm : a.mantissa = 0
  · simp [plainZero, coeff, hm]
  · rw [plainZero_eq_self (.inr hm)]

theorem value_plainZero (a : Decimal) : a.plainZero.value = a.value := by
  have hscale : a.plainZero.scale = a.scale := rfl
  rw [value, value, coeff_plainZero, hscale]

theorem ofScan_plainZero (a : Decimal) :
    ofScan a.negative (a.mantissa, a.scale) = .ok a.plainZero := by
  have hsign : decide (a.coeff < 0) = (a.negative && a.mantissa != 0) := by
    unfold coeff
    cases a.negative
    · simp
    · rw [if_pos rfl, Bool.true_and]
      rcases Nat.eq_zero_or_pos a.mantissa with hzero | hpos
      · rw [hzero]
        rfl
      · have hbelow : -(a.mantissa : ℤ) < 0 := by omega
        rw [decide_eq_true hbelow, bne_iff_ne.mpr (Nat.ne_of_gt hpos)]
  have hparts : ofParts? (if a.negative then -(a.mantissa : ℤ) else a.mantissa) a.scale
      = some a.plainZero := by
    show ofParts? a.coeff a.scale = some a.plainZero
    rw [ofParts?, dif_pos ⟨a.coeff_lt, a.scale_le⟩, ofCoeff]
    simp only [plainZero, hsign, natAbs_coeff]
  simp only [ofScan, hparts]

/-! ## Digits -/

theorem continue?_padded (n width : ℕ) : continue? 0 (padded n width) = some n := by
  have hzeros : ∀ k, continue? 0 (List.replicate k '0') = some 0 := by
    intro k
    induction k with
    | zero => rfl
    | succ k ih =>
      rw [List.replicate_succ]
      exact ih
  unfold padded
  rw [continue?_append, hzeros, Option.bind_some, continue?_digits]

theorem le_length_padded (n width : ℕ) : width ≤ (padded n width).length := by
  unfold padded
  rw [List.length_append, List.length_replicate]
  omega

theorem exists_digit_of_continue? {c : Char} {cs : List Char} {word n : ℕ}
    (h : continue? word (c :: cs) = some n) :
    ∃ d, digit? c = some d ∧ continue? (10 * word + d) cs = some n :=
  Option.bind_eq_some_iff.mp h

/-- What has been read of a decimal after a run of digits: none is rounded away while they
make up a number that a decimal holds. -/
theorem scan_digits {cs : List Char} {m v k : ℕ} (point digit wide : Bool) (rest : List Char)
    (hv : continue? m cs = some v) (hlimit : v < limit)
    (hk : if point then k + cs.length ≤ 28 else k = 0) :
    ∃ wide', scan ⟨m, k, point, digit, wide⟩ (cs ++ rest)
      = scan ⟨v, if point then k + cs.length else 0, point, digit || !cs.isEmpty, wide'⟩ rest := by
  induction cs generalizing m k digit wide with
  | nil =>
    obtain rfl := Option.some.inj hv
    refine ⟨wide, ?_⟩
    cases point
    · obtain rfl : k = 0 := hk
      simp
    · simp
  | cons c cs ih =>
    obtain ⟨d, hd, hrest⟩ := exists_digit_of_continue? hv
    have hle := Json.le_of_continue? hrest
    -- the digits so far make up no more than all of them, and a place is left for this one
    have hroom : ¬limit ≤ 10 * m + d := by omega
    have hplace : (point && k == 28) = false := by
      cases point
      · rfl
      · simp only [if_true, List.length_cons] at hk
        simp only [Bool.true_and, beq_eq_false_iff_ne]
        omega
    rw [List.cons_append, scan, hd]
    simp only [hplace, Bool.false_eq_true, if_false, hroom]
    have hplaces : if point then (if point then k + 1 else 0) + cs.length ≤ 28
        else (if point then k + 1 else 0) = 0 := by
      cases point
      · rfl
      · simp only [if_true, List.length_cons] at hk ⊢
        omega
    obtain ⟨wide', hscan⟩ := ih true (decide (nearWord ≤ m)) hrest hplaces
    refine ⟨wide', hscan.trans ?_⟩
    cases point
    · simp
    · simp only [if_true, List.length_cons, List.isEmpty_cons, Bool.not_false, Bool.or_true,
        Bool.true_or]
      rw [Nat.add_assoc, Nat.add_comm 1]

/-- Digits without a point. -/
theorem scan_whole {cs : List Char} {v : ℕ} (hne : cs ≠ []) (hv : continue? 0 cs = some v)
    (hlimit : v < limit) : scan .start cs = .ok (v, 0) := by
  obtain ⟨wide, hscan⟩ := scan_digits false false false [] hv hlimit rfl
  rw [List.append_nil] at hscan
  have hempty : cs.isEmpty = false := List.isEmpty_eq_false_iff.mpr hne
  rw [Scan.start, hscan, scan, hempty]
  rfl

/-- Digits with a point among them. -/
theorem scan_fraction {front back : List Char} {v : ℕ} (hne : front ≠ [])
    (hv : continue? 0 (front ++ back) = some v) (hlimit : v < limit) (hplaces : back.length ≤ 28) :
    scan .start (front ++ '.' :: back) = .ok (v, back.length) := by
  rw [continue?_append] at hv
  obtain ⟨whole, hwhole, hback⟩ := Option.bind_eq_some_iff.mp hv
  have hle := Json.le_of_continue? hback
  have hempty : front.isEmpty = false := List.isEmpty_eq_false_iff.mpr hne
  obtain ⟨wide, hfront⟩ := scan_digits false false false ('.' :: back) hwhole (by omega) rfl
  obtain ⟨wide', hrest⟩ :=
    scan_digits (k := 0) true true wide [] hback hlimit (by simpa using hplaces)
  rw [List.append_nil] at hrest
  have hpoint : digit? '.' = none := by decide
  rw [Scan.start, hfront, scan, hpoint, hempty]
  simp only [if_true, Bool.false_eq_true, if_false, Bool.not_false, Bool.or_true]
  rw [hrest]
  simp [scan]

/-! ## Reading -/

/-- The digits of a decimal, with its point. -/
theorem scan_plainChars (a : Decimal) :
    scan .start (plainChars false a.mantissa a.scale) = .ok (a.mantissa, a.scale) := by
  have hlimit : a.mantissa < limit := a.mantissa_lt
  have hvalue := continue?_padded a.mantissa (a.scale + 1)
  have hlength := le_length_padded a.mantissa (a.scale + 1)
  generalize hds : padded a.mantissa (a.scale + 1) = ds at hvalue hlength
  unfold plainChars
  simp only [hds]
  split
  · rename_i hscale
    have hne : ds ≠ [] := List.ne_nil_of_length_pos (by omega)
    rw [hscale]
    exact scan_whole hne hvalue hlimit
  · have hback : (ds.drop (ds.length - a.scale)).length = a.scale := by
      rw [List.length_drop]
      omega
    have hfront : ds.take (ds.length - a.scale) ≠ [] := by
      refine List.ne_nil_of_length_pos ?_
      rw [List.length_take]
      omega
    rw [← List.take_append_drop (ds.length - a.scale) ds] at hvalue
    have hscan := scan_fraction hfront hvalue hlimit (by rw [hback]; exact a.scale_le)
    rw [hback] at hscan
    exact hscan

theorem plainChars_true (m s : ℕ) : plainChars true m s = '-' :: plainChars false m s := by
  simp only [plainChars, if_true, Bool.false_eq_true, if_false]
  split <;> rfl

/-- No sign stands in front of the digits. -/
theorem readPlain_of_scan {cs : List Char} {p : ℕ × ℕ} (h : scan .start cs = .ok p) :
    readPlain cs = ofScan false p := by
  have hsign : ∀ c r, (c = '-' ∨ c = '+') → scan .start (c :: r) = .error .unknownCharacter := by
    rintro c r (rfl | rfl) <;> rfl
  unfold readPlain
  split
  · cases h
  · rw [hsign _ _ (.inl rfl)] at h
    cases h
  · rw [hsign _ _ (.inr rfl)] at h
    cases h
  · rw [h]
    rfl

/-- A decimal is read back from all its places, a zero without its sign. -/
theorem read_plainChars (a : Decimal) :
    read (plainChars a.negative a.mantissa a.scale) = .ok a.plainZero := by
  have hplain : readPlain (plainChars a.negative a.mantissa a.scale) = .ok a.plainZero := by
    have hscan := ofScan_plainZero a
    cases hneg : a.negative with
    | false =>
      rw [hneg] at hscan
      rw [readPlain_of_scan (scan_plainChars a), hscan]
    | true =>
      rw [hneg] at hscan
      rw [plainChars_true, readPlain, scan_plainChars]
      exact hscan
  rw [read, hplain]

theorem ofJson?_toJson (a : Decimal) : Decimal.ofJson? a.toJson = some a.plainZero := by
  show (read a.toText.toList).toOption = _
  rw [toText, String.toList_ofList, read_plainChars]
  rfl

end RegionPricing.Decimal
