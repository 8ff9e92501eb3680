import RegionPricing.Proofs.Fee.Rows
import RegionPricing.Proofs.Store.Brackets

/-!
# Schedules that end at the unbounded weight

A row whose weight limit says that there is none gets the unbounded weight as its limit, and
no row gets a limit beyond it. So the schedule of a table with such a row covers the weights
up to the unbounded one, and no others (`exists_select_of_unbounded`): the stored weights above
it, of which there are 75807, are covered by no table at all.
-/

namespace RegionPricing.Fee

/-- Whether the weight limit of a row says that there is none. -/
def Row.SaysUnbounded (row : Row) : Prop :=
  ∃ text, row.get? "weight_range" = some text ∧ Row.isUnbounded (Text.trim text.toList) = true

section

variable {s : Schedule} {key : String} {level : Level} {rows : List (Row × ℕ)} {weight : Int64}

/-- A schedule has a bracket for a weight when one of its brackets reaches that far. -/
theorem exists_select_iff :
    (∃ b, s.select weight = some b) ↔ ∃ b ∈ s.brackets, weight ≤ b.weightLimit := by
  unfold Schedule.select
  rw [← Option.isSome_iff_exists, List.find?_isSome]
  simp only [decide_eq_true_eq]

/-- An unbounded row covers the weights up to the unbounded one, and no row covers more. -/
theorem exists_select_of_unbounded (h : s.Arranges key level rows)
    (hrow : ∃ e ∈ rows, e.1.SaysUnbounded) :
    (∃ b, s.select weight = some b) ↔ weight ≤ FixedPoint.unboundedWeight := by
  rw [exists_select_iff]
  constructor
  · rintro ⟨b, hb, hweight⟩
    exact Int64.le_trans hweight (h.bounds hb).2.2
  · intro hweight
    obtain ⟨e, he, text, hcell, hunbounded⟩ := hrow
    obtain ⟨b, hb, hread⟩ := h.exists_bracket he
    obtain ⟨⟨limit, hlimit, hb'⟩, _⟩ := Row.comesTo_bracket hread
    obtain rfl : text = limit := Option.some.inj (hcell.symm.trans hlimit)
    rw [Row.weightLimit?_of_unbounded hunbounded] at hb'
    exact ⟨b, hb, Option.some.inj hb' ▸ hweight⟩

/-- A level with an unbounded row has a bracket for every parcel up to the unbounded weight,
so that none behind it is asked. -/
theorem finds_of_unbounded (h : s.Arranges key level rows)
    (hrow : ∃ e ∈ rows, e.1.SaysUnbounded) {a : Sheet} {p : Parcel} {l : Level}
    (hconsults : a.Consults p l s) (hweight : p.weight ≤ FixedPoint.unboundedWeight) :
    ∃ b, a.Finds p l b ∧ ∀ l' b', a.Decides p l' b' → l'.rank ≤ l.rank := by
  obtain ⟨b, hb⟩ := (exists_select_of_unbounded h hrow).mpr hweight
  have hfinds : a.Finds p l b := ⟨s, hconsults, select_eq_some_iff.mp hb⟩
  refine ⟨b, hfinds, fun l' b' hdecides => ?_⟩
  by_contra hlater
  exact hdecides.first l b (by omega) hfinds

end

end RegionPricing.Fee

namespace RegionPricing.Store

open Fee

variable {s : Store} {table : FeeTable} {c : Corridor} {weight : Int64}

/-- A stored bracket covers the weights up to its limit. -/
theorem exists_bracket_of_entry {limit : Int64} {terms : StoredTerms} (hopen : s.isOpen = true)
    (hentry : (s.brackets table).get? (c, limit) = some terms) (hweight : weight ≤ limit) :
    ∃ b, s.bracket? table c weight = .ok (some b) := by
  rw [bracket?_eq hopen]
  rcases covering_cases (s.brackets table) c weight with ⟨_, hnone⟩ | ⟨limit', terms', hsome, _⟩
  · exact absurd hweight (hnone limit terms hentry)
  · exact ⟨_, by rw [hsome, Option.map_some]⟩

end RegionPricing.Store

namespace RegionPricing.Fee

open Store

/-- Where a table has a row without a limit, its schedule has a bracket for exactly the
weights up to the unbounded one, and for them no level behind the one that consults it is
asked; and a corridor with a stored bracket at the unbounded weight has a bracket for all of
them. -/
theorem unbounded_covers (weight : Int64) :
    (∀ {s : Schedule} {key : String} {level : Level} {rows : List (Row × ℕ)},
      s.Arranges key level rows → (∃ e ∈ rows, e.1.SaysUnbounded) →
      ((∃ b, s.select weight = some b) ↔ weight ≤ FixedPoint.unboundedWeight) ∧
      ∀ {a : Sheet} {p : Parcel} {l : Level}, a.Consults p l s → p.weight = weight →
        weight ≤ FixedPoint.unboundedWeight →
        ∃ b, a.Finds p l b ∧ ∀ l' b', a.Decides p l' b' → l'.rank ≤ l.rank) ∧
    ∀ {s : Store} {table : FeeTable} {c : Corridor} {terms : StoredTerms},
      s.isOpen = true → (s.brackets table).get? (c, FixedPoint.unboundedWeight) = some terms →
      weight ≤ FixedPoint.unboundedWeight → ∃ b, s.bracket? table c weight = .ok (some b) := by
  refine ⟨fun h hrow => ⟨exists_select_of_unbounded h hrow, fun hconsults hp hweight => ?_⟩,
    fun hopen hentry hweight => exists_bracket_of_entry hopen hentry hweight⟩
  subst hp
  exact finds_of_unbounded h hrow hconsults hweight

/-! A table of one row without a limit, and a stored bracket without one. -/

/-- A price of one for every weight. -/
def limitless : Row := rowOfOne " Inf" []

theorem limitless_saysUnbounded : limitless.SaysUnbounded := ⟨" Inf", rfl, by decide +kernel⟩

theorem limitless_loads : (value? (Schedule.ofRows "t" .table [limitless])).isSome = true := by
  decide +kernel

/-- The schedule of the table. -/
def limitlessSchedule : Schedule :=
  (value? (Schedule.ofRows "t" .table [limitless])).get limitless_loads

theorem limitlessSchedule_arranges :
    limitlessSchedule.Arranges "t" .table ([limitless].zipIdx) :=
  arranges_of_comesTo (comesTo_get limitless_loads)

/-- A sheet whose only choice is the table. -/
def limitlessSheet : Sheet := ⟨[limitlessSchedule], [], none⟩

/-- The greatest weight that is covered, sent to the table by the item's choice. -/
def limitlessParcel : Parcel :=
  { sampleParcel with itemChoice := some (sampleChoice "t"), grams := .ofInt64 92233720368547 }

def limitlessStore : Store :=
  { Store.empty with hiddenPrice := .ofList [((malaysian, FixedPoint.unboundedWeight),
      .ofBracket (freeUpTo FixedPoint.unboundedWeight))] }

theorem unbounded_covers_limitless :
    limitlessSchedule.Arranges "t" .table ([limitless].zipIdx) ∧ limitless.SaysUnbounded ∧
      (∃ b, limitlessSchedule.select FixedPoint.unboundedWeight = some b) ∧
      (∃ b, limitlessSheet.Finds limitlessParcel .item b) ∧
      ∃ b, limitlessStore.bracket? .hiddenPrice malaysian FixedPoint.unboundedWeight
        = .ok (some b) := by
  obtain ⟨hrows, hstore⟩ := unbounded_covers FixedPoint.unboundedWeight
  obtain ⟨hselect, hlevel⟩ := hrows limitlessSchedule_arranges
    ⟨(limitless, 0), List.mem_cons_self, limitless_saysUnbounded⟩
  have hconsults : limitlessSheet.Consults limitlessParcel .item limitlessSchedule :=
    .chosen (.item rfl) (by decide +kernel) ⟨[], [], rfl, limitlessSchedule_arranges.1, by simp⟩
  obtain ⟨b, hb, _⟩ := hlevel hconsults (by decide +kernel) (Int64.le_refl _)
  exact ⟨limitlessSchedule_arranges, limitless_saysUnbounded, hselect.mpr (Int64.le_refl _),
    ⟨b, hb⟩, hstore rfl rfl (Int64.le_refl _)⟩

/-- One more than the unbounded weight, which is a weight like any other, has no bracket in
the table nor in the store. -/
theorem unbounded_does_not_cover :
    limitless.SaysUnbounded ∧ ComesTo (Schedule.ofRows "t" .table [limitless]) limitlessSchedule ∧
      limitlessSchedule.select 9223372036854700001 = none ∧
      limitlessStore.bracket? .hiddenPrice malaysian 9223372036854700001 = .ok none := by
  refine ⟨limitless_saysUnbounded, comesTo_get limitless_loads, ?_, rfl⟩
  rw [Option.eq_none_iff_forall_ne_some]
  intro b hb
  have hle := (exists_select_of_unbounded limitlessSchedule_arranges
    ⟨(limitless, 0), List.mem_cons_self, limitless_saysUnbounded⟩).mp ⟨b, hb⟩
  exact absurd hle (by decide)

end RegionPricing.Fee
