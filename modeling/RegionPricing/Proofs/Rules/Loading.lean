import RegionPricing.Proofs.Fee.Fallback
import RegionPricing.Rules.Book

/-!
# Loading pricing rules

A document is loaded in two ways at once. A malformed fee table stops the loading, with the
error of the first such table (`stopsBy_ofDocument_iff`); a fallback that is malformed or
leaves a required region out is dropped without a word. What is loaded is then told by the
document alone (`Loaded`): the last entry under a key counts, and the fallback holds for each
region that it names exactly the rows of this region.
-/

namespace RegionPricing.Rules

open Fee

/-! ## Fee tables -/

namespace NamedRows

/-- A table with at least one row, whose rows all make brackets. -/
structure Sound (t : NamedRows) : Prop where
  nonempty : t.rows ≠ []
  reads : ∀ e ∈ t.rows.zipIdx, ∃ b, ComesTo (e.1.bracket e.2 t.key .table) b

variable {t : NamedRows} {error : TableError} {fault : Fault}

theorem exists_scheduleOf_iff : (∃ s, ComesTo (Book.scheduleOf t) s) ↔ t.Sound := by
  unfold Book.scheduleOf
  simp only [comesTo_ofRows_iff, ← comesTo_mapM_iff]
  constructor
  · rintro ⟨_, hnonempty, bs, hbs, _⟩
    exact ⟨hnonempty, exists_comesTo_mapM_iff.mp ⟨bs, hbs⟩⟩
  · intro h
    obtain ⟨bs, hbs⟩ := exists_comesTo_mapM_iff.mpr h.reads
    exact ⟨_, h.nonempty, bs, hbs, rfl⟩

/-- Whether the first row of a table that makes no bracket is one with the least exponent. -/
def Overflow (t : NamedRows) : Prop :=
  ∃ before e after, t.rows.zipIdx = before ++ e :: after ∧
    (∀ e' ∈ before, ∃ b, ComesTo (e'.1.bracket e'.2 t.key .table) b) ∧ e.1.Overflows

/-- Only an exponent can stop the reading of a table by a fault. -/
theorem scheduleOf_fault_iff : StopsBy (Book.scheduleOf t) (.error fault) ↔
    fault = .magnitudeOverflow ∧ t.Overflow := by
  unfold Book.scheduleOf Overflow
  rw [stopsBy_ofRows_iff]
  simp only [Row.bracket_fault_iff, reduceCtorEq, and_false, false_or]
  constructor
  · rintro ⟨before, e, after, hsplit, hbefore, hfault, hrow⟩
    exact ⟨hfault, before, e, after, hsplit, hbefore, hrow⟩
  · rintro ⟨hfault, before, e, after, hsplit, hbefore, hrow⟩
    exact ⟨before, e, after, hsplit, hbefore, hfault, hrow⟩

end NamedRows

/-! ## The fallback -/

section

variable {rows : List Row} {fault : Fault}

/-- A document has a fallback when it has rows for it and they are usable. -/
theorem fallbackOf_eq_some_iff {f : Fallback} :
    Book.fallbackOf rows = .ok (some f) ↔ rows ≠ [] ∧ ComesTo (Fallback.ofRows rows) f := by
  unfold Book.fallbackOf ComesTo
  cases rows with
  | nil => simp
  | cons row rows =>
    rw [List.isEmpty_cons, if_neg Bool.false_ne_true]
    rcases (Fallback.ofRows (row :: rows)).run with fault | error | f' <;>
      simp [Except.map, Except.toOption]

theorem fallbackOf_eq_error_iff :
    Book.fallbackOf rows = .error fault ↔
      rows ≠ [] ∧ StopsBy (Fallback.ofRows rows) (.error fault) := by
  unfold Book.fallbackOf StopsBy
  cases rows with
  | nil => simp
  | cons row rows =>
    rw [List.isEmpty_cons, if_neg Bool.false_ne_true]
    rcases (Fallback.ofRows (row :: rows)).run with fault' | error | f' <;>
      simp [Except.map, Except.toOption]

end

/-! ## Documents -/

variable {d : Document} {b : Book}

/-- All tables are read when all are sound. -/
theorem sound_iff : (∃ schedules, ComesTo (d.tables.mapM Book.scheduleOf) schedules) ↔
    ∀ t ∈ d.tables, t.Sound := by
  simp only [exists_comesTo_mapM_iff, NamedRows.exists_scheduleOf_iff]

theorem comesTo_ofDocument_iff : ComesTo (Book.ofDocument d) b ↔
    ∃ schedules fallback,
      List.Forall₂ (fun t s => ComesTo (Book.scheduleOf t) s) d.tables schedules ∧
      Book.fallbackOf d.fallback = .ok fallback ∧
      b = ⟨.ofList (d.terms.map fun t => (t.corridor, t)), d.currencies, .ofParts schedules
        (d.regional.map fun c => ((c.merchant, c.primary), c.choice)) fallback⟩ := by
  unfold Book.ofDocument
  simp only [comesTo_bind_iff, comesTo_mapM_iff, comesTo_pure_iff, comesTo_liftM_iff]
  constructor
  · rintro ⟨schedules, hschedules, fallback, hfallback, rfl⟩
    exact ⟨schedules, fallback, hschedules, hfallback, rfl⟩
  · rintro ⟨schedules, fallback, hschedules, hfallback, rfl⟩
    exact ⟨schedules, hschedules, fallback, hfallback, rfl⟩

/-- Whether the reading of a document meets the least exponent: in a table behind sound ones,
or in the fallback behind sound tables. -/
inductive Document.Overflow (d : Document) : Prop where
  | table {before after : List NamedRows} {t : NamedRows}
      (split : d.tables = before ++ t :: after) (sound : ∀ t' ∈ before, t'.Sound)
      (overflow : t.Overflow) : d.Overflow
  | fallback (sound : ∀ t ∈ d.tables, t.Sound) (overflow : Fallback.Overflow d.fallback) :
      d.Overflow

/-- Only an exponent in a row can stop the loading by a fault. -/
theorem ofDocument_fault_iff {fault : Fault} : StopsBy (Book.ofDocument d) (.error fault) ↔
    fault = .magnitudeOverflow ∧ d.Overflow := by
  unfold Book.ofDocument
  simp only [stopsBy_bind_iff, stopsBy_mapM_iff, liftM_fault_iff, not_stopsBy_pure, and_false,
    exists_false, or_false, NamedRows.exists_scheduleOf_iff, NamedRows.scheduleOf_fault_iff,
    fallbackOf_eq_error_iff, Fallback.ofRows_fault_iff]
  constructor
  · rintro (⟨before, t, after, hsplit, hsound, hfault, hoverflow⟩ |
      ⟨schedules, hschedules, _, hfault, hoverflow⟩)
    · exact ⟨hfault, .table hsplit hsound hoverflow⟩
    · exact ⟨hfault, .fallback (sound_iff.mp ⟨schedules, hschedules⟩) hoverflow⟩
  · rintro ⟨hfault, ⟨hsplit, hsound, hoverflow⟩ | ⟨hsound, hoverflow⟩⟩
    · exact .inl ⟨_, _, _, hsplit, hsound, hfault, hoverflow⟩
    · obtain ⟨schedules, hschedules⟩ := sound_iff.mpr hsound
      exact .inr ⟨schedules, hschedules, hoverflow.nonempty, hfault, hoverflow⟩

/-! ## What is loaded -/

/-- A book with what a document says, the last entry under each key. -/
structure Loaded (d : Document) (b : Book) : Prop where
  fallback : (∃ f, b.tariff.fallback = some f) ↔ d.fallback ≠ [] ∧ Fallback.Usable d.fallback
  regions : ∀ f, b.tariff.fallback = some f → Fallback.SplitsByRegion f d.fallback
  terms : ∀ c, b.terms? c = (d.terms.filter fun t => t.corridor = c).getLast?
  tables : ∀ key, match (d.tables.filter fun t => t.key = key).getLast? with
    | none => b.tariff.schedules.get? key = none
    | some t => ∃ s, b.tariff.schedules.get? key = some s ∧ s.Arranges key .table t.rows.zipIdx
  choices : ∀ m p, b.tariff.regional.get? (m, p) =
    ((d.regional.filter fun c => (c.merchant, c.primary) = (m, p)).getLast?).map
      RegionalChoice.choice
  currencies : b.currencies = d.currencies

/-- Elements that are related one by one are related where the lists end. -/
theorem rel_getLast? {α β : Type} {R : α → β → Prop} {as : List α} {bs : List β}
    (h : List.Forall₂ R as bs) : Option.Rel R as.getLast? bs.getLast? := by
  rw [List.getLast?_eq_head?_reverse, List.getLast?_eq_head?_reverse]
  have hreverse := List.rel_reverse h
  generalize as.reverse = as', bs.reverse = bs' at hreverse ⊢
  cases hreverse with
  | nil => exact .none
  | cons hab _ => exact .some hab

/-- Under a key there is the schedule of the last table with that key. -/
theorem schedule_of_last {schedules : List Schedule}
    (h : List.Forall₂ (fun t s => ComesTo (Book.scheduleOf t) s) d.tables schedules)
    (key : String) : match (d.tables.filter fun t => t.key = key).getLast? with
      | none => (KeyMap.ofList (schedules.map fun s => (s.key, s))).get? key = none
      | some t => ∃ s, (KeyMap.ofList (schedules.map fun s => (s.key, s))).get? key = some s ∧
          s.Arranges key .table t.rows.zipIdx := by
  rw [KeyMap.get?_ofList_map_key, Option.map_id']
  -- a schedule has the key of its table, so that the last ones belong together
  have hread : List.Forall₂ (fun t s => s.Arranges t.key .table t.rows.zipIdx)
      d.tables schedules := h.imp fun t s => arranges_of_comesTo
  have hlast := rel_getLast? (List.rel_filter (p := fun t => t.key = key)
    (q := fun s => s.key = key) (fun t s hs => by simp [hs.1]) hread)
  generalize (schedules.filter fun s => s.key = key).getLast? = last at hlast ⊢
  cases ht : (d.tables.filter fun t => t.key = key).getLast? with
  | none =>
    rw [ht] at hlast
    cases hlast
    rfl
  | some t =>
    rw [ht] at hlast
    cases hlast with
    | some harranges =>
      have hkey : t.key = key :=
        of_decide_eq_true (List.mem_filter.mp (List.mem_of_getLast? ht)).2
      exact ⟨_, rfl, hkey ▸ harranges⟩

theorem loaded_of_comesTo (h : ComesTo (Book.ofDocument d) b) : Loaded d b := by
  obtain ⟨schedules, fallback, hschedules, hfallback, rfl⟩ := comesTo_ofDocument_iff.mp h
  refine ⟨?_, fun f hf => ?_, fun c => ?_, fun key => ?_, fun m p => ?_, rfl⟩
  · rw [← Fallback.exists_ofRows_iff]
    show (∃ f, fallback = some f) ↔ _
    constructor
    · rintro ⟨f, rfl⟩
      obtain ⟨hnonempty, hf⟩ := fallbackOf_eq_some_iff.mp hfallback
      exact ⟨hnonempty, f, hf⟩
    · rintro ⟨hnonempty, f, hf⟩
      have hsome := fallbackOf_eq_some_iff.mpr ⟨hnonempty, hf⟩
      exact ⟨f, Except.ok.inj (hfallback.symm.trans hsome)⟩
  · obtain rfl : fallback = some f := hf
    exact Fallback.splitsByRegion_of_comesTo (fallbackOf_eq_some_iff.mp hfallback).2
  · show (KeyMap.ofList (d.terms.map fun t => (t.corridor, t))).get? c = _
    rw [KeyMap.get?_ofList_map_key, Option.map_id']
  · exact schedule_of_last hschedules key
  · exact KeyMap.get?_ofList_map_key (fun c : RegionalChoice => (c.merchant, c.primary))
      RegionalChoice.choice d.regional (m, p)

end RegionPricing.Rules
