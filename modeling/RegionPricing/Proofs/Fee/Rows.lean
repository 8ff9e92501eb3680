import RegionPricing.Fee.Row
import RegionPricing.Proofs.Evaluation
import RegionPricing.Proofs.FixedPoint

/-!
# What is read from rows of text

A row either makes a bracket or stops the reading, by the first cell that is missing or
unreadable. Its weight limit is between zero and the unbounded weight
(`weightLimit?_bounds`), its exponent of at most 18 in size (`roundExponent_bounds`), and the
only cell that can stop the reading by a fault is an exponent whose text is the least number
of 32 bits (`bracket_fault_iff`).

A table of rows makes the schedule that `Arranges` them: all brackets in the order of their
limits, and those with one limit in the order of the rows.
-/

namespace RegionPricing.Fee

/-! ## Cells -/

namespace Row

variable {row : Row} {index : ℕ} {field text : String} {fault : Fault}

theorem comesTo_cell_iff :
    ComesTo (row.cell index field) text ↔ row.get? field = some text := by
  unfold cell
  cases row.get? field with
  | none => simp
  | some text' => simp

theorem cell_no_fault : ¬StopsBy (row.cell index field) (.error fault) := by
  unfold cell
  split <;> simp

theorem decimal_no_fault : ¬StopsBy (row.decimal index field) (.error fault) := by
  unfold decimal
  rw [stopsBy_bind_iff, not_or]
  refine ⟨cell_no_fault, ?_⟩
  rintro ⟨text, -, hstop⟩
  split at hstop <;> simp at hstop

/-! ### Weight limits -/

theorem weightLimit?_of_unbounded (h : isUnbounded (Text.trim text.toList) = true) :
    weightLimit? text = some FixedPoint.unboundedWeight := by
  unfold weightLimit?
  exact if_pos h

theorem rawOfGrams_nonneg {grams : Decimal} (h : grams.isNegative = false) :
    0 ≤ FixedPoint.rawOfGrams grams := by
  have hvalue : 0 ≤ grams.value := by
    by_contra hneg
    rw [(Decimal.isNegative_iff grams).mpr (not_le.mp hneg)] at h
    cases h
  have hraw : FixedPoint.rawOfGrams grams = FixedPoint.rawOf 5 grams.value :=
    FixedPoint.inflate_eq (by decide)
  rw [hraw, Int64.le_iff_toInt_le, FixedPoint.toInt_rawOf hvalue]
  have hround : 0 ≤ Decimal.halfAway (grams.value * 10 ^ 5) :=
    FixedPoint.halfAway_nonneg (by positivity)
  show (0 : ℤ) ≤ _
  omega

/-- A weight limit is neither negative nor above the unbounded one. -/
theorem weightLimit?_bounds {limit : Int64} (h : weightLimit? text = some limit) :
    0 ≤ limit ∧ limit ≤ FixedPoint.unboundedWeight := by
  unfold weightLimit? at h
  dsimp only at h
  split at h
  next =>
    obtain rfl := Option.some.inj h
    decide
  next =>
    split at h
    next grams _ =>
      split at h
      next => cases h
      next hneg =>
        obtain rfl := Option.some.inj h
        split
        next hlt =>
          exact ⟨rawOfGrams_nonneg (Bool.eq_false_iff.mpr hneg), Int64.le_of_lt hlt⟩
        next => decide
    next => cases h

theorem comesTo_weightLimit_iff {limit : Int64} :
    ComesTo (weightLimit index text) limit ↔ weightLimit? text = some limit := by
  unfold weightLimit
  cases weightLimit? text with
  | none => simp
  | some limit' => simp

theorem weightLimit_no_fault : ¬StopsBy (weightLimit index text) (.error fault) := by
  unfold weightLimit
  split <;> simp

/-! ### Exponents -/

/-- Whether a text is that of the least number of 32 bits. -/
def LeastExponent (text : String) : Prop :=
  Text.signed? (-2147483648) 2147483647 (Text.trim text.toList) = some (-2147483648)

theorem roundExponent_bounds {exponent : Int32} (h : ComesTo (roundExponent index text) exponent) :
    -18 ≤ exponent ∧ exponent ≤ 18 := by
  unfold roundExponent at h
  split at h
  next n _ =>
    split at h
    next => simp at h
    next =>
      split at h
      next hle =>
        have hbound : (n.natAbs : ℤ) ≤ 18 := hle
        rw [comesTo_pure_iff] at h
        subst h
        rw [Int32.le_iff_toInt_le, Int32.le_iff_toInt_le,
          Int32.toInt_ofInt_of_le (by omega) (by omega)]
        show -18 ≤ n ∧ n ≤ 18
        omega
      next => simp at h
  next => simp at h

theorem roundExponent_fault_iff : StopsBy (roundExponent index text) (.error fault) ↔
    fault = .magnitudeOverflow ∧ LeastExponent text := by
  unfold roundExponent LeastExponent
  split
  next n hn =>
    rw [hn, Option.some.injEq]
    split
    next hleast => simp [hleast]
    next hne => split <;> simp [hne]
  next hn => simp [hn]

/-! ## Brackets -/

section

variable {key : String} {level : Level} {b : Bracket}

/-- A bracket has the key and the level it is read for, and its limit and its exponent come
from their cells. -/
theorem comesTo_bracket (h : ComesTo (row.bracket index key level) b) :
    (∃ limit, row.get? "weight_range" = some limit ∧ weightLimit? limit = some b.weightLimit) ∧
      (∃ exponent, row.get? "round_size" = some exponent ∧
        ComesTo (roundExponent index exponent) b.roundExponent) ∧
      b.tableKey = key ∧ b.level = level := by
  unfold bracket at h
  simp only [comesTo_bind_iff, comesTo_pure_iff, comesTo_cell_iff, comesTo_weightLimit_iff] at h
  obtain ⟨limit, hlimit, w, hw, exponent, hexponent, e, he, _, _, _, _, _, _, _, _, _, _, rfl⟩ := h
  exact ⟨⟨limit, hlimit, hw⟩, ⟨exponent, hexponent, he⟩, rfl, rfl⟩

/-- A row with a weight limit and the least number of 32 bits for its exponent. -/
structure Overflows (row : Row) : Prop where
  limit : ∃ text limit, row.get? "weight_range" = some text ∧ weightLimit? text = some limit
  exponent : ∃ text, row.get? "round_size" = some text ∧ LeastExponent text

/-- Only the exponent can stop the reading of a row by a fault. -/
theorem bracket_fault_iff : StopsBy (row.bracket index key level) (.error fault) ↔
    fault = .magnitudeOverflow ∧ row.Overflows := by
  unfold bracket
  simp only [stopsBy_bind_iff, cell_no_fault, weightLimit_no_fault, decimal_no_fault,
    not_stopsBy_pure, comesTo_cell_iff, comesTo_weightLimit_iff, roundExponent_fault_iff,
    and_false, exists_false, or_false, false_or]
  constructor
  · rintro ⟨text, htext, limit, hlimit, exponent, hcell, hfault, hleast⟩
    exact ⟨hfault, ⟨text, limit, htext, hlimit⟩, exponent, hcell, hleast⟩
  · rintro ⟨hfault, ⟨text, limit, htext, hlimit⟩, exponent, hcell, hleast⟩
    exact ⟨text, htext, limit, hlimit, exponent, hcell, hfault, hleast⟩

end

end Row

/-! ## Schedules -/

/-- The brackets of a list in the order of their limits, and those with one limit in the order
of the list. -/
structure StablySorted (bs sorted : List Bracket) : Prop where
  perm : sorted.Perm bs
  ordered : sorted.Pairwise fun a b => a.weightLimit ≤ b.weightLimit
  stable : ∀ w, (sorted.filter fun b => b.weightLimit = w) = bs.filter fun b => b.weightLimit = w

theorem stablySorted_ofBrackets (key : String) (bs : List Bracket) :
    StablySorted bs (Schedule.ofBrackets key bs).brackets where
  perm := List.mergeSort_perm bs _
  ordered := (Schedule.ofBrackets key bs).ordered.imp of_decide_eq_true
  stable w := by
    -- brackets with one limit are in order, so that sorting keeps them as they are
    have hsub : (bs.filter fun b => b.weightLimit = w).Sublist (bs.mergeSort Bracket.limitLe) := by
      refine List.sublist_mergeSort Schedule.limitLe_trans Schedule.limitLe_total ?_
        List.filter_sublist
      refine List.pairwise_of_forall_mem_list fun a ha b hb => ?_
      have hlimits : a.weightLimit = b.weightLimit :=
        (of_decide_eq_true (List.mem_filter.mp ha).2).trans
          (of_decide_eq_true (List.mem_filter.mp hb).2).symm
      exact decide_eq_true (hlimits ▸ Int64.le_refl _)
    have hfilter := hsub.filter fun b => b.weightLimit = w
    rw [List.filter_filter] at hfilter
    simp only [Bool.and_self] at hfilter
    refine (hfilter.eq_of_length ?_).symm
    exact ((List.mergeSort_perm bs Bracket.limitLe).filter _).length_eq.symm

/-- A schedule that holds the brackets of some rows under a key, stably sorted by their
limits. -/
def Schedule.Arranges (s : Schedule) (key : String) (level : Level) (rows : List (Row × ℕ)) :
    Prop :=
  s.key = key ∧ ∃ bs, List.Forall₂ (fun e b => ComesTo (e.1.bracket e.2 key level) b) rows bs ∧
    StablySorted bs s.brackets

section

variable {key : String} {level : Level} {rows : List Row} {s : Schedule}
  {why : Except Fault TableError}

theorem comesTo_ofRows_iff : ComesTo (Schedule.ofRows key level rows) s ↔ rows ≠ [] ∧
    ∃ bs, List.Forall₂ (fun e b => ComesTo (e.1.bracket e.2 key level) b) rows.zipIdx bs ∧
      s = .ofBrackets key bs := by
  unfold Schedule.ofRows bracketsOfRows
  cases rows with
  | nil => simp
  | cons row rows =>
    simp only [List.isEmpty_cons, Bool.false_eq_true, if_false, comesTo_bind_iff,
      comesTo_mapM_iff, comesTo_pure_iff]
    constructor
    · rintro ⟨bs, hbs, rfl⟩
      exact ⟨List.cons_ne_nil row rows, bs, hbs, rfl⟩
    · rintro ⟨_, bs, hbs, rfl⟩
      exact ⟨bs, hbs, rfl⟩

/-- Without rows there is no schedule; with rows, the first that makes no bracket stops the
reading. -/
theorem stopsBy_ofRows_iff : StopsBy (Schedule.ofRows key level rows) why ↔
    (rows = [] ∧ why = .ok (.empty key)) ∨
      ∃ before e after, rows.zipIdx = before ++ e :: after ∧
        (∀ e' ∈ before, ∃ b, ComesTo (e'.1.bracket e'.2 key level) b) ∧
        StopsBy (e.1.bracket e.2 key level) why := by
  unfold Schedule.ofRows bracketsOfRows
  cases rows with
  | nil => simp
  | cons row rows =>
    simp only [List.isEmpty_cons, Bool.false_eq_true, if_false, stopsBy_bind_iff,
      stopsBy_mapM_iff, not_stopsBy_pure, and_false, exists_false, or_false, reduceCtorEq,
      false_and, false_or]

theorem arranges_of_comesTo (h : ComesTo (Schedule.ofRows key level rows) s) :
    s.Arranges key level rows.zipIdx := by
  obtain ⟨_, bs, hbs, rfl⟩ := comesTo_ofRows_iff.mp h
  exact ⟨rfl, bs, hbs, stablySorted_ofBrackets key bs⟩

/-- Each bracket of a schedule is that of one of its rows. -/
theorem Schedule.Arranges.exists_row {rows : List (Row × ℕ)} (h : s.Arranges key level rows)
    {b : Bracket} (hb : b ∈ s.brackets) :
    ∃ e ∈ rows, ComesTo (e.1.bracket e.2 key level) b := by
  obtain ⟨_, bs, hbs, hsorted⟩ := h
  obtain ⟨i, hi, rfl⟩ := List.getElem_of_mem (hsorted.perm.mem_iff.mp hb)
  have hrow : i < rows.length := hbs.length_eq ▸ hi
  exact ⟨rows[i], List.getElem_mem hrow, hbs.get hrow hi⟩

/-- Each row of a schedule has its bracket there. -/
theorem Schedule.Arranges.exists_bracket {rows : List (Row × ℕ)} (h : s.Arranges key level rows)
    {e : Row × ℕ} (he : e ∈ rows) :
    ∃ b ∈ s.brackets, ComesTo (e.1.bracket e.2 key level) b := by
  obtain ⟨_, bs, hbs, hsorted⟩ := h
  obtain ⟨i, hi, rfl⟩ := List.getElem_of_mem he
  have hbracket : i < bs.length := hbs.length_eq ▸ hi
  exact ⟨bs[i], hsorted.perm.mem_iff.mpr (List.getElem_mem hbracket), hbs.get hi hbracket⟩

/-- What the cells of rows bound, their schedule is bound by. -/
theorem Schedule.Arranges.bounds {rows : List (Row × ℕ)} (h : s.Arranges key level rows)
    {b : Bracket} (hb : b ∈ s.brackets) :
    (-18 ≤ b.roundExponent ∧ b.roundExponent ≤ 18) ∧
      0 ≤ b.weightLimit ∧ b.weightLimit ≤ FixedPoint.unboundedWeight := by
  obtain ⟨e, _, hrow⟩ := h.exists_row hb
  obtain ⟨⟨limit, _, hlimit⟩, ⟨exponent, _, hexponent⟩, _, _⟩ := Row.comesTo_bracket hrow
  exact ⟨Row.roundExponent_bounds hexponent, Row.weightLimit?_bounds hlimit⟩

end

/-- A row with a price of one up to a weight limit, with more cells before it. -/
def rowOfOne (limit : String) (more : List (String × String)) : Row :=
  .ofList (more ++ [("weight_range", limit), ("start_price", "1"), ("start_weight", "0"),
    ("round_size", "0"), ("price", "0"), ("weight_step", "100"), ("adjustment", "0")])

end RegionPricing.Fee
