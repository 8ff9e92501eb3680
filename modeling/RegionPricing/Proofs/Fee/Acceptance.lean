import RegionPricing.Proofs.Fee.Cells
import RegionPricing.Proofs.Fee.Selection

/-!
# Which tables are accepted, and what the others are blamed for

The columns of a row are read in a fixed order, and rows from first to last. A reading of some
columns comes to a value when each of them is good, and otherwise blames the first that is not
(`Row.Reads`); one column is read that way, and so is what reads a column and goes on with
others (`Row.Reads.bind`). So a row is read when it is well-formed, and a table when all its
rows are and there is one; what else is wrong with a table, behind its first bad cell, does not
show.

The exponent that is the least number of 32 bits is left out: there the arithmetic fails, and no
cell is blamed (`Row.bracket_fault_iff`).
-/

namespace RegionPricing.Fee

open Decimal Text

namespace Row

/-! ## Good and bad columns -/

/-- The columns in the order in which they are read. -/
def columns : List String :=
  ["weight_range", "round_size", "start_price", "start_weight", "price", "weight_step",
    "adjustment"]

/-- A column with a text that it takes. -/
def Good (row : Row) (field : String) : Prop :=
  ∃ text, row.get? field = some text ∧ Takes field text

/-- A row whose columns are all good. -/
def WellFormed (row : Row) : Prop := ∀ field ∈ columns, row.Good field

/-- The error that a bad column is blamed by: that it is missing, or its text as it stands. -/
inductive Blames (row : Row) (index : ℕ) (field : String) : TableError → Prop
  | missing (h : row.get? field = none) : Blames row index field (.missingField index field)
  | invalid {text : String} (h : row.get? field = some text) (hbad : ¬Takes field text) :
    Blames row index field (.invalidField index field text)

/-- The error that the first bad one of some columns is blamed by. -/
def FirstBad (row : Row) (index : ℕ) (fields : List String) (e : TableError) : Prop :=
  ∃ before field after, fields = before ++ field :: after ∧ (∀ f ∈ before, row.Good f) ∧
    row.Blames index field e

/-- A reading of some columns in their order. -/
structure Reads {α : Type} (row : Row) (index : ℕ) (fields : List String) (x : Reading α) :
    Prop where
  good : (∃ a, ComesTo x a) ↔ ∀ field ∈ fields, row.Good field
  bad : ∀ e, StopsBy x (.ok e) ↔ row.FirstBad index fields e

section

variable {α β : Type} {row : Row} {index : ℕ} {field text : String} {fields : List String}
  {e : TableError}

theorem not_firstBad_nil : ¬row.FirstBad index [] e := by
  intro ⟨before, field, after, h, _⟩
  cases before <;> cases h

theorem firstBad_cons : row.FirstBad index (field :: fields) e ↔
    row.Blames index field e ∨ (row.Good field ∧ row.FirstBad index fields e) := by
  constructor
  · intro ⟨before, field', after, heq, hbefore, hblames⟩
    cases before with
    | nil =>
      obtain ⟨rfl, rfl⟩ := List.cons.inj heq
      exact .inl hblames
    | cons f before =>
      obtain ⟨rfl, rfl⟩ := List.cons.inj heq
      obtain ⟨hf, hbefore⟩ := List.forall_mem_cons.mp hbefore
      exact .inr ⟨hf, before, field', after, rfl, hbefore, hblames⟩
  · intro h
    rcases h with hblames | ⟨hgood, before, field', after, rfl, hbefore, hblames⟩
    · exact ⟨[], field, fields, rfl, by simp, hblames⟩
    · exact ⟨field :: before, field', after, rfl, List.forall_mem_cons.mpr ⟨hgood, hbefore⟩,
        hblames⟩

theorem firstBad_one : row.FirstBad index [field] e ↔ row.Blames index field e := by
  rw [firstBad_cons]
  simp [not_firstBad_nil]

theorem reads_pure (a : α) : row.Reads index [] (pure a : Reading α) where
  good := by simp
  bad e := by simp [not_firstBad_nil]

/-- After a good column the reading goes on with the others. -/
theorem Reads.bind {x : Reading α} {f : α → Reading β} (hx : row.Reads index [field] x)
    (hf : ∀ a, row.Reads index fields (f a)) : row.Reads index (field :: fields) (x >>= f) where
  good := by
    have hfield := hx.good
    rw [List.forall_mem_singleton] at hfield
    rw [List.forall_mem_cons, ← hfield]
    simp only [comesTo_bind_iff]
    constructor
    · intro ⟨b, a, ha, hb⟩
      exact ⟨⟨a, ha⟩, (hf a).good.mp ⟨b, hb⟩⟩
    · intro ⟨⟨a, ha⟩, hrest⟩
      obtain ⟨b, hb⟩ := (hf a).good.mpr hrest
      exact ⟨b, a, ha, hb⟩
  bad e := by
    have hfield := hx.good
    rw [List.forall_mem_singleton] at hfield
    rw [stopsBy_bind_iff, firstBad_cons, hx.bad, firstBad_one, ← hfield]
    simp only [(hf _).bad, exists_and_right]

/-- A column whose text is read on its own: it is read when the column takes it, and blamed as
it stands otherwise. -/
theorem reads_cell {f : String → Reading α}
    (hgood : ∀ text, row.get? field = some text → ((∃ a, ComesTo (f text) a) ↔ Takes field text))
    (hbad : ∀ text e, row.get? field = some text →
      (StopsBy (f text) (.ok e) ↔ ¬Takes field text ∧ e = .invalidField index field text)) :
    row.Reads index [field] (row.cell index field >>= f) where
  good := by
    rw [List.forall_mem_singleton]
    simp only [comesTo_bind_iff, comesTo_cell_iff]
    constructor
    · intro ⟨a, text, htext, ha⟩
      exact ⟨text, htext, (hgood text htext).mp ⟨a, ha⟩⟩
    · intro ⟨text, htext, htakes⟩
      obtain ⟨a, ha⟩ := (hgood text htext).mpr htakes
      exact ⟨a, text, htext, ha⟩
  bad e := by
    rw [firstBad_one, stopsBy_bind_iff]
    simp only [comesTo_cell_iff]
    constructor
    · intro h
      rcases h with hcell | ⟨text, htext, hstop⟩
      · unfold cell at hcell
        cases hget : row.get? field with
        | none =>
          rw [hget, stopsBy_throw_iff] at hcell
          obtain rfl := Except.ok.inj hcell
          exact .missing hget
        | some text => simp [hget] at hcell
      · obtain ⟨hnot, rfl⟩ := (hbad text e htext).mp hstop
        exact .invalid htext hnot
    · intro h
      cases h with
      | missing hget =>
        refine .inl ?_
        unfold cell
        rw [hget]
        exact stopsBy_throw_iff.mpr rfl
      | invalid htext hnot => exact .inr ⟨_, htext, (hbad _ _ htext).mpr ⟨hnot, rfl⟩⟩

/-! ## The columns, one by one -/

theorem reads_limit :
    row.Reads index ["weight_range"] (row.cell index "weight_range" >>= weightLimit index) := by
  apply reads_cell
  · intro text _
    simp only [comesTo_weightLimit_iff, weightLimit?_eq_some_iff, takes_limit_iff]
  · intro text e _
    simp only [takes_limit_iff, ← weightLimit?_eq_some_iff]
    unfold weightLimit
    cases weightLimit? text <;> simp

/-- An exponent other than the least number of 32 bits. -/
theorem reads_exponent (hleast : ∀ text, row.get? "round_size" = some text →
      ¬WholeNumber (trim text.toList) (-2147483648)) :
    row.Reads index ["round_size"] (row.cell index "round_size" >>= roundExponent index) := by
  have hgood : ∀ text, (∃ exponent, ComesTo (roundExponent index text) exponent) ↔
      Takes "round_size" text := by
    intro text
    simp only [comesTo_roundExponent_iff, takes_exponent_iff]
  apply reads_cell
  · intro text _
    exact hgood text
  · intro text e htext
    rw [← hgood]
    have hnot := mt leastExponent_iff.mp (hleast text htext)
    unfold LeastExponent at hnot
    unfold roundExponent
    split
    next n hn =>
      rw [hn, Option.some.injEq] at hnot
      rw [if_neg hnot]
      split <;> simp [eq_comm]
    next => simp

theorem reads_decimal (h : field ∉ ["weight_range", "round_size"]) :
    row.Reads index [field] (row.decimal index field) := by
  have htakes : ∀ text, Takes field text ↔ ∃ d, Decimal.ofText text = .ok d := by
    intro text
    rw [List.mem_pair, not_or] at h
    rw [Takes, if_neg h.1, if_neg h.2]
  apply reads_cell
  · intro text _
    rw [htakes]
    cases Decimal.ofText text <;> simp
  · intro text e _
    rw [htakes]
    cases Decimal.ofText text <;> simp

/-! ## Rows -/

variable {key : String} {level : Level} {b : Bracket}

/-- A row is read column by column. -/
theorem reads_bracket (hleast : ∀ text, row.get? "round_size" = some text →
      ¬WholeNumber (trim text.toList) (-2147483648)) :
    row.Reads index columns (row.bracket index key level) := by
  unfold bracket columns
  rw [← bind_assoc]
  refine reads_limit.bind fun limit => ?_
  rw [← bind_assoc]
  refine (reads_exponent hleast).bind fun exponent => ?_
  refine (reads_decimal (by decide)).bind fun startPrice => ?_
  refine (reads_decimal (by decide)).bind fun startWeight => ?_
  refine (reads_decimal (by decide)).bind fun stepPrice => ?_
  refine (reads_decimal (by decide)).bind fun weightStep => ?_
  refine (reads_decimal (by decide)).bind fun adjustment => ?_
  exact reads_pure _

/-- A decimal in a column. -/
def Holds (row : Row) (field : String) (d : Decimal) : Prop :=
  ∃ text, row.get? field = some text ∧ Decimal.ofText text = .ok d

/-- The bracket that a row makes under a key and a level. -/
structure Makes (row : Row) (key : String) (level : Level) (b : Bracket) : Prop where
  limit : ∃ text, row.get? "weight_range" = some text ∧ LimitText text b.weightLimit
  exponent : ∃ text, row.get? "round_size" = some text ∧
    ExponentText text b.roundExponent.toInt
  startPrice : row.Holds "start_price" b.startPrice
  startWeight : row.Holds "start_weight" b.startWeight
  stepPrice : row.Holds "price" b.stepPrice
  weightStep : row.Holds "weight_step" b.weightStep
  adjustment : row.Holds "adjustment" b.adjustment
  tableKey : b.tableKey = key
  level : b.level = level

theorem comesTo_decimal_iff {d : Decimal} :
    ComesTo (row.decimal index field) d ↔ row.Holds field d := by
  unfold decimal Holds
  simp only [comesTo_bind_iff, comesTo_cell_iff]
  refine exists_congr fun text => and_congr_right fun _ => ?_
  cases Decimal.ofText text <;> simp

theorem comesTo_bracket_iff : ComesTo (row.bracket index key level) b ↔ row.Makes key level b := by
  unfold bracket
  simp only [comesTo_bind_iff, comesTo_pure_iff, comesTo_cell_iff, comesTo_weightLimit_iff,
    weightLimit?_eq_some_iff, comesTo_roundExponent_iff, comesTo_decimal_iff]
  constructor
  · intro h
    obtain ⟨limit, hlimit, w, hw, exponent, hexponent, n, hn, startPrice, hstartPrice,
      startWeight, hstartWeight, stepPrice, hstepPrice, weightStep, hweightStep, adjustment,
      hadjustment, rfl⟩ := h
    exact ⟨⟨limit, hlimit, hw⟩, ⟨exponent, hexponent, hn⟩, hstartPrice, hstartWeight,
      hstepPrice, hweightStep, hadjustment, rfl, rfl⟩
  · intro h
    obtain ⟨limit, hlimit, hw⟩ := h.limit
    obtain ⟨exponent, hexponent, hn⟩ := h.exponent
    obtain rfl := h.tableKey
    obtain rfl := h.level
    exact ⟨limit, hlimit, _, hw, exponent, hexponent, _, hn, _, h.startPrice, _, h.startWeight,
      _, h.stepPrice, _, h.weightStep, _, h.adjustment, rfl⟩

end

end Row

/-! ## Tables -/

section

variable {key : String} {level : Level} {rows : List Row} {s : Schedule} {sorted : List Bracket}

/-- There is one stable order. -/
theorem StablySorted.eq {bs : List Bracket} (h : StablySorted bs sorted) (key : String) :
    sorted = (Schedule.ofBrackets key bs).brackets := by
  have hbs := stablySorted_ofBrackets key bs
  have hagree : AgreeByLimit sorted (Schedule.ofBrackets key bs).brackets :=
    fun limit => (h.stable limit).trans (hbs.stable limit).symm
  exact hagree.eq h.ordered hbs.ordered

theorem forall₂_zipIdx_iff {bs : List Bracket} :
    List.Forall₂ (fun e b => ComesTo (e.1.bracket e.2 key level) b) rows.zipIdx bs ↔
      List.Forall₂ (fun row b => row.Makes key level b) rows bs := by
  simp only [Row.comesTo_bracket_iff]
  rw [← List.forall₂_map_left_iff (f := Prod.fst)
    (R := fun (row : Row) b => row.Makes key level b), List.zipIdx_map_fst]

/-- The schedule of a table arranges the brackets of its rows. -/
theorem comesTo_ofRows_iff_makes : ComesTo (Schedule.ofRows key level rows) s ↔
    rows ≠ [] ∧ s.key = key ∧ ∃ bs, List.Forall₂ (fun row b => row.Makes key level b) rows bs ∧
      StablySorted bs s.brackets := by
  rw [comesTo_ofRows_iff]
  simp only [forall₂_zipIdx_iff]
  refine and_congr_right fun _ => ?_
  constructor
  · intro ⟨bs, hbs, heq⟩
    subst heq
    exact ⟨rfl, bs, hbs, stablySorted_ofBrackets key bs⟩
  · intro ⟨hkey, bs, hbs, hsorted⟩
    refine ⟨bs, hbs, ?_⟩
    obtain ⟨key', brackets, ordered⟩ := s
    obtain rfl : key' = key := hkey
    obtain rfl := hsorted.eq key'
    rfl

/-- A row of a table with those before it. -/
theorem zipIdx_eq_append_iff {before after : List (Row × ℕ)} {e : Row × ℕ}
    (h : rows.zipIdx = before ++ e :: after) :
    rows = before.map Prod.fst ++ e.1 :: after.map Prod.fst ∧ e.2 = before.length := by
  constructor
  · have hrows := List.zipIdx_map_fst 0 rows
    rw [h, List.map_append, List.map_cons] at hrows
    exact hrows.symm
  · have hlt : before.length < rows.zipIdx.length := by
      rw [h, List.length_append, List.length_cons]
      omega
    have hget : rows.zipIdx[before.length] = e := by
      simp [h]
    rw [← hget, List.getElem_zipIdx, Nat.zero_add]

/-- A row of a table, with the number of rows before it. -/
theorem zipIdx_eq_of_append {before after : List Row} {row : Row}
    (h : rows = before ++ row :: after) :
    rows.zipIdx = before.zipIdx ++ (row, before.length) :: after.zipIdx (before.length + 1) := by
  rw [h, List.zipIdx_append, List.zipIdx_cons, Nat.zero_add]

/-- No exponent of a table is the least number of 32 bits. -/
def NoLeastExponent (rows : List Row) : Prop :=
  ∀ row ∈ rows, ∀ text, row.get? "round_size" = some text →
    ¬WholeNumber (trim text.toList) (-2147483648)

/-- The error that a row of a table is blamed by, when those before it are well-formed. -/
def FirstBadRow (rows : List Row) (e : TableError) : Prop :=
  ∃ before row after, rows = before ++ row :: after ∧ (∀ r ∈ before, r.WellFormed) ∧
    row.FirstBad before.length Row.columns e

theorem mem_of_mem_zipIdx {e : Row × ℕ} (he : e ∈ rows.zipIdx) : e.1 ∈ rows := by
  have hmem := List.mem_map_of_mem (f := Prod.fst) he
  rwa [List.zipIdx_map_fst] at hmem

theorem reads_row (hleast : NoLeastExponent rows) {e : Row × ℕ} (he : e ∈ rows.zipIdx) :
    e.1.Reads e.2 Row.columns (e.1.bracket e.2 key level) :=
  Row.reads_bracket (hleast e.1 (mem_of_mem_zipIdx he))

theorem exists_comesTo_ofRows_iff (hleast : NoLeastExponent rows) :
    (∃ s, ComesTo (Schedule.ofRows key level rows) s) ↔
      rows ≠ [] ∧ ∀ row ∈ rows, row.WellFormed := by
  have hrows : (∃ bs, List.Forall₂ (fun (e : Row × ℕ) b =>
      ComesTo (e.1.bracket e.2 key level) b) rows.zipIdx bs) ↔ ∀ row ∈ rows, row.WellFormed := by
    simp only [← comesTo_mapM_iff]
    rw [exists_comesTo_mapM_iff]
    constructor
    · intro h row hrow
      rw [← List.zipIdx_map_fst 0 rows] at hrow
      obtain ⟨e, he, rfl⟩ := List.mem_map.mp hrow
      exact (reads_row hleast he).good.mp (h e he)
    · intro h e he
      exact (reads_row hleast he).good.mpr (h e.1 (mem_of_mem_zipIdx he))
  simp only [comesTo_ofRows_iff]
  rw [← hrows]
  constructor
  · intro ⟨s, hne, bs, hbs, _⟩
    exact ⟨hne, bs, hbs⟩
  · intro ⟨hne, bs, hbs⟩
    exact ⟨_, hne, bs, hbs, rfl⟩

theorem ofRows_error_iff (hleast : NoLeastExponent rows) {e : TableError} :
    StopsBy (Schedule.ofRows key level rows) (.ok e) ↔
      (rows = [] ∧ e = .empty key) ∨ FirstBadRow rows e := by
  rw [stopsBy_ofRows_iff, Except.ok.injEq]
  refine or_congr_right ?_
  constructor
  · intro ⟨before, r, after, heq, hbefore, hstop⟩
    have hmem : r ∈ rows.zipIdx := by simp [heq]
    obtain ⟨hrows, hindex⟩ := zipIdx_eq_append_iff heq
    refine ⟨before.map Prod.fst, r.1, after.map Prod.fst, hrows, ?_, ?_⟩
    · intro row hrow
      obtain ⟨r', hr', rfl⟩ := List.mem_map.mp hrow
      have hmem' : r' ∈ rows.zipIdx := by simp [heq, hr']
      exact (reads_row hleast hmem').good.mp (hbefore r' hr')
    · rw [List.length_map, ← hindex]
      exact ((reads_row hleast hmem).bad e).mp hstop
  · intro ⟨before, row, after, heq, hbefore, hbad⟩
    have hsplit := zipIdx_eq_of_append heq
    refine ⟨_, _, _, hsplit, ?_, ?_⟩
    · intro r hr
      have hmem : r ∈ rows.zipIdx := by simp [hsplit, hr]
      exact (reads_row hleast hmem).good.mpr (hbefore r.1 (mem_of_mem_zipIdx hr))
    · have hmem : (row, before.length) ∈ rows.zipIdx := by simp [hsplit]
      exact ((reads_row hleast hmem).bad e).mpr hbad

theorem ofRows_no_fault (hleast : NoLeastExponent rows) (fault : Fault) :
    ¬StopsBy (Schedule.ofRows key level rows) (.error fault) := by
  rw [stopsBy_ofRows_iff]
  intro h
  rcases h with ⟨_, h⟩ | ⟨before, r, after, heq, _, hfault⟩
  · cases h
  · have hmem : r ∈ rows.zipIdx := by simp [heq]
    obtain ⟨text, htext, htoo⟩ := (Row.bracket_fault_iff.mp hfault).2.exponent
    exact hleast r.1 (mem_of_mem_zipIdx hmem) text htext (leastExponent_iff.mp htoo)

end

/-- Without the exponent that is the least number of 32 bits, a table is accepted when it has
rows and each of them has seven good columns. The schedule then holds one bracket for each row,
with the key and the level, stably sorted by their limits. Any other table is blamed for having
no rows, or for the first bad column of its first bad row: that it is missing, or its text. -/
theorem ofRows_accepts_or_blames (key : String) (level : Level) {rows : List Row}
    (hleast : NoLeastExponent rows) :
    ((∃ s, (Schedule.ofRows key level rows).run = .ok (.ok s)) ↔
      rows ≠ [] ∧ ∀ row ∈ rows, row.WellFormed) ∧
    (∀ s, (Schedule.ofRows key level rows).run = .ok (.ok s) ↔
      rows ≠ [] ∧ s.key = key ∧ ∃ bs,
        List.Forall₂ (fun row b => row.Makes key level b) rows bs ∧
        StablySorted bs s.brackets) ∧
    (∀ e, (Schedule.ofRows key level rows).run = .ok (.error e) ↔
      (rows = [] ∧ e = .empty key) ∨ FirstBadRow rows e) ∧
    ∀ fault, (Schedule.ofRows key level rows).run ≠ .error fault := by
  refine ⟨exists_comesTo_ofRows_iff hleast, ?_, ?_, ofRows_no_fault hleast⟩
  · intro s
    exact comesTo_ofRows_iff_makes
  · intro e
    exact ofRows_error_iff hleast

/-! A table with several faults: the exponent of its second row is out of bounds, and everything
behind it is missing. -/

def faultyRow : Row := .ofList [("weight_range", "2.5"), ("round_size", " 19")]

def faultyRows : List Row := [rowOfOne " INF" [], faultyRow, .empty]

theorem faultyRows_noLeastExponent : NoLeastExponent faultyRows := by
  have hread : ∀ row ∈ faultyRows, ∀ text ∈ row.get? "round_size",
      signed? (-2147483648) 2147483647 (trim text.toList) ≠ some (-2147483648) := by
    decide +kernel
  intro row hrow text htext hwhole
  exact hread row hrow text htext (leastExponent_iff.mpr hwhole)

theorem wellFormed_rowOfOne : (rowOfOne " INF" []).WellFormed := by
  have hloads : (value? ((rowOfOne " INF" []).bracket 0 "t" .table)).isSome = true := by
    decide +kernel
  have hleast := faultyRows_noLeastExponent (rowOfOne " INF" []) List.mem_cons_self
  exact (Row.reads_bracket hleast).good.mp ⟨_, comesTo_get hloads⟩

theorem ofRows_accepts_or_blames_faulty : NoLeastExponent faultyRows ∧
    (Schedule.ofRows "t" .table faultyRows).run
      = .ok (.error (.invalidField 1 "round_size" " 19")) := by
  refine ⟨faultyRows_noLeastExponent, ?_⟩
  obtain ⟨_, _, hblames, _⟩ := ofRows_accepts_or_blames "t" .table faultyRows_noLeastExponent
  apply (hblames _).mpr
  right
  refine ⟨[rowOfOne " INF" []], faultyRow, [.empty], rfl, ?_, ["weight_range"], "round_size",
    _, rfl, ?_, .invalid rfl ?_⟩
  · intro row hrow
    obtain rfl := List.mem_singleton.mp hrow
    exact wellFormed_rowOfOne
  · intro field hfield
    obtain rfl := List.mem_singleton.mp hfield
    obtain ⟨limit, hlimit⟩ : ∃ limit, Row.weightLimit? "2.5" = some limit :=
      Option.isSome_iff_exists.mp (by decide +kernel)
    exact ⟨"2.5", rfl, takes_limit_iff.mpr ⟨limit, weightLimit?_eq_some_iff.mp hlimit⟩⟩
  · intro ⟨n, hwhole, hmin, hmax⟩
    have hread : signed? (-18) 18 (trim " 19".toList) = none := by decide +kernel
    rw [signed?_eq_some_iff.mpr ⟨hwhole, hmin, hmax⟩] at hread
    cases hread

end RegionPricing.Fee
