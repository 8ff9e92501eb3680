import RegionPricing.Fee.Fallback
import RegionPricing.Proofs.Fee.Rows
import RegionPricing.Proofs.KeyMap

/-!
# The fallback of a table of rows

The rows of the fallback are read like those of any table, and each belongs to the region that
it names. A table is `Usable` when every row names a region and makes a bracket, and every
required region is named; exactly such a table makes a fallback (`exists_ofRows_iff`). The
fallback has a schedule for every region that is named, required or not, and it holds the
brackets of the rows of that region, as the schedule of a table with only these rows would
(`SplitsByRegion`).
-/

namespace RegionPricing.Fee.Fallback

/-- The region that a row names. -/
def region? (row : Row) : Option Region :=
  ((row.get? "region").map Region.ofText).filter fun r => !r.isEmpty

variable {row : Row} {index : ℕ} {r : Region} {rows : List Row} {fault : Fault}

theorem comesTo_regionOf_iff : ComesTo (regionOf row index) r ↔ region? row = some r := by
  unfold regionOf region?
  cases ((row.get? "region").map Region.ofText).filter fun r => !r.isEmpty with
  | none => simp
  | some r' => simp

theorem regionOf_no_fault : ¬StopsBy (regionOf row index) (.error fault) := by
  unfold regionOf
  split <;> simp

/-! ## Rows with their regions -/

/-- The region and the bracket of a row. -/
def entry (e : Row × ℕ) : Reading (Region × Bracket) := do
  let region ← regionOf e.1 e.2
  let b ← e.1.bracket e.2 (fallbackKey region) .fallback
  return (region, b)

theorem comesTo_entry_iff {e : Row × ℕ} {l : Region × Bracket} : ComesTo (entry e) l ↔
    region? e.1 = some l.1 ∧ ComesTo (e.1.bracket e.2 (fallbackKey l.1) .fallback) l.2 := by
  obtain ⟨region, b⟩ := l
  unfold entry
  simp only [comesTo_bind_iff, comesTo_regionOf_iff, comesTo_pure_iff, Prod.mk.injEq]
  constructor
  · rintro ⟨_, hregion, _, hb, rfl, rfl⟩
    exact ⟨hregion, hb⟩
  · rintro ⟨hregion, hb⟩
    exact ⟨_, hregion, _, hb, rfl, rfl⟩

theorem entry_fault_iff {e : Row × ℕ} : StopsBy (entry e) (.error fault) ↔
    fault = .magnitudeOverflow ∧ (∃ r, region? e.1 = some r) ∧ e.1.Overflows := by
  unfold entry
  simp only [stopsBy_bind_iff, regionOf_no_fault, comesTo_regionOf_iff, Row.bracket_fault_iff,
    not_stopsBy_pure, and_false, exists_false, or_false, false_or]
  constructor
  · rintro ⟨r, hregion, hfault, hrow⟩
    exact ⟨hfault, ⟨r, hregion⟩, hrow⟩
  · rintro ⟨hfault, ⟨r, hregion⟩, hrow⟩
    exact ⟨r, hregion, hfault, hrow⟩

/-- Groups with a bracket behind those of its region. -/
def gather (groups : KeyMap Region (List Bracket)) (l : Region × Bracket) :
    KeyMap Region (List Bracket) :=
  groups.put l.1 ((groups.get? l.1).getD [] ++ [l.2])

/-- Gathering while reading is gathering after everything has been read. -/
theorem group_eq (rows : List Row) :
    group rows = do return (← rows.zipIdx.mapM entry).foldl gather .empty := by
  have hfold : ∀ (es : List (Row × ℕ)) (groups : KeyMap Region (List Bracket)),
      (es.foldlM (fun groups e => do
        let region ← regionOf e.1 e.2
        let b ← e.1.bracket e.2 (fallbackKey region) .fallback
        return gather groups (region, b)) groups : Reading _)
      = do return (← es.mapM entry).foldl gather groups := by
    intro es
    induction es with
    | nil =>
      intro groups
      simp
    | cons e es ih =>
      intro groups
      simp only [List.foldlM_cons, List.mapM_cons, entry, bind_assoc, pure_bind, ih,
        List.foldl_cons]
  exact hfold rows.zipIdx .empty

/-- What is gathered for a region stands in the order of the list. -/
theorem get?_foldl_gather (ls : List (Region × Bracket)) (groups : KeyMap Region (List Bracket)) :
    (ls.foldl gather groups).get? r =
      if r ∈ ls.map Prod.fst then
        some ((groups.get? r).getD [] ++ (ls.filter fun l => l.1 = r).map Prod.snd)
      else groups.get? r := by
  induction ls generalizing groups with
  | nil => simp
  | cons l ls ih =>
    rw [List.foldl_cons, ih, gather, KeyMap.get?_put]
    by_cases hr : l.1 = r
    · subst hr
      by_cases hmem : l.1 ∈ ls.map Prod.fst
      · simp [hmem]
      · have hnone : (ls.filter fun l' => l'.1 = l.1) = [] := by
          refine List.filter_eq_nil_iff.mpr fun l' hl' heq => hmem ?_
          exact of_decide_eq_true heq ▸ List.mem_map_of_mem hl'
        simp [hmem, hnone]
    · have hmem : r ∈ (l :: ls).map Prod.fst ↔ r ∈ ls.map Prod.fst := by
        rw [List.map_cons, List.mem_cons, or_iff_right fun h => hr h.symm]
      rw [if_neg hr, List.filter_cons_of_neg (by simpa using hr)]
      simp only [hmem]

/-! ## Regions -/

/-- A fallback with a schedule for exactly the regions that rows name, each of which holds the
brackets of the rows of its region. -/
structure SplitsByRegion (f : Fallback) (rows : List Row) : Prop where
  has : ∀ r, (∃ s, f.get? r = some s) ↔ ∃ row ∈ rows, region? row = some r
  holds : ∀ r s, f.get? r = some s → s.Arranges (fallbackKey r) .fallback
    (rows.zipIdx.filter fun e => region? e.1 = some r)

/-- Rows that all name a region and make a bracket, and among which all required regions are
named. -/
structure Usable (rows : List Row) : Prop where
  reads : ∀ e ∈ rows.zipIdx, ∃ r b, region? e.1 = some r ∧
    ComesTo (e.1.bracket e.2 (fallbackKey r) .fallback) b
  covers : ∀ name ∈ requiredRegions, ∃ row ∈ rows, region? row = some (.ofText name)

/-- Rows of which the first that makes no entry is one of a region, with the least exponent. -/
def Overflow (rows : List Row) : Prop :=
  ∃ before e after, rows.zipIdx = before ++ e :: after ∧
    (∀ e' ∈ before, ∃ l, ComesTo (entry e') l) ∧
    (∃ r, region? e.1 = some r) ∧ e.1.Overflows

theorem Overflow.nonempty (h : Overflow rows) : rows ≠ [] := by
  rintro rfl
  obtain ⟨before, e, after, heq, _⟩ := h
  simp at heq

theorem exists_mem_zipIdx_iff {P : Row → Prop} :
    (∃ e ∈ rows.zipIdx, P e.1) ↔ ∃ row ∈ rows, P row := by
  have hrows : rows.zipIdx.map Prod.fst = rows := List.zipIdx_map_fst 0 rows
  conv_rhs => rw [← hrows]
  simp only [List.mem_map, exists_exists_and_eq_and]

section

variable {es : List (Row × ℕ)} {ls : List (Region × Bracket)}

/-- The regions of what is read are those of the rows. -/
theorem mem_regions_iff (h : List.Forall₂ (fun e l => ComesTo (entry e) l) es ls) :
    r ∈ ls.map Prod.fst ↔ ∃ e ∈ es, region? e.1 = some r := by
  induction h with
  | nil => simp
  | cons hread _ ih =>
    have hregion := (comesTo_entry_iff.mp hread).1
    rw [List.map_cons, List.mem_cons, ih, List.exists_mem_cons_iff, hregion, Option.some.injEq,
      eq_comm]

/-- The brackets of a region are those of its rows. -/
theorem forall₂_region (h : List.Forall₂ (fun e l => ComesTo (entry e) l) es ls) :
    List.Forall₂ (fun e b => ComesTo (e.1.bracket e.2 (fallbackKey r) .fallback) b)
      (es.filter fun e => region? e.1 = some r)
      ((ls.filter fun l => l.1 = r).map Prod.snd) := by
  induction h with
  | nil => exact .nil
  | @cons e l es ls hread _ ih =>
    obtain ⟨hregion, hb⟩ := comesTo_entry_iff.mp hread
    rw [List.filter_cons, List.filter_cons, hregion]
    by_cases hr : l.1 = r
    · subst hr
      rw [if_pos (decide_eq_true rfl), if_pos (decide_eq_true rfl)]
      exact .cons hb ih
    · rw [if_neg (by simpa using hr), if_neg (by simpa using hr)]
      exact ih

end

theorem comesTo_ofRows_iff {f : Fallback} : ComesTo (ofRows rows) f ↔
    ∃ ls, List.Forall₂ (fun e l => ComesTo (entry e) l) rows.zipIdx ls ∧
      (∀ name ∈ requiredRegions, Region.ofText name ∈ ls.map Prod.fst) ∧
      f = (ls.foldl gather .empty).mapValues
        fun region bs => .ofBrackets (fallbackKey region) bs := by
  unfold ofRows
  rw [group_eq]
  simp only [bind_assoc, pure_bind, comesTo_bind_iff, comesTo_mapM_iff]
  refine exists_congr fun ls => and_congr_right fun _ => ?_
  have hmissing : ((requiredRegions.filter fun name =>
      ((ls.foldl gather .empty).get? (.ofText name)).isNone).isEmpty = true) ↔
      ∀ name ∈ requiredRegions, Region.ofText name ∈ ls.map Prod.fst := by
    rw [List.isEmpty_iff, List.filter_eq_nil_iff]
    refine forall₂_congr fun name _ => ?_
    rw [get?_foldl_gather, KeyMap.get?_empty]
    by_cases hname : Region.ofText name ∈ ls.map Prod.fst
    · rw [if_pos hname]
      simp [hname]
    · rw [if_neg hname]
      simp [hname]
  split
  next hempty =>
    rw [comesTo_pure_iff]
    exact ⟨fun h => ⟨hmissing.mp hempty, h.symm⟩, fun h => h.2.symm⟩
  next hempty =>
    refine ⟨fun h => absurd h (not_comesTo_throw _ _), fun h => ?_⟩
    exact absurd (hmissing.mpr h.1) hempty

/-- A table makes a fallback exactly when it is usable. -/
theorem exists_ofRows_iff : (∃ f, ComesTo (ofRows rows) f) ↔ Usable rows := by
  constructor
  · rintro ⟨f, hf⟩
    obtain ⟨ls, hls, hcovers, rfl⟩ := comesTo_ofRows_iff.mp hf
    have hreads := exists_comesTo_mapM_iff.mp ⟨ls, comesTo_mapM_iff.mpr hls⟩
    refine ⟨fun e he => ?_, fun name hname => ?_⟩
    · obtain ⟨l, hl⟩ := hreads e he
      obtain ⟨hregion, hb⟩ := comesTo_entry_iff.mp hl
      exact ⟨_, _, hregion, hb⟩
    · exact exists_mem_zipIdx_iff.mp ((mem_regions_iff hls).mp (hcovers name hname))
  · intro h
    obtain ⟨ls, hls⟩ : ∃ ls, ComesTo (rows.zipIdx.mapM entry) ls := by
      rw [exists_comesTo_mapM_iff]
      intro e he
      obtain ⟨r, b, hregion, hb⟩ := h.reads e he
      refine ⟨(r, b), ?_⟩
      rw [comesTo_entry_iff]
      exact ⟨hregion, hb⟩
    rw [comesTo_mapM_iff] at hls
    refine ⟨_, comesTo_ofRows_iff.mpr ⟨ls, hls, fun name hname => ?_, rfl⟩⟩
    exact (mem_regions_iff hls).mpr (exists_mem_zipIdx_iff.mpr (h.covers name hname))

theorem splitsByRegion_of_comesTo {f : Fallback} (h : ComesTo (ofRows rows) f) :
    SplitsByRegion f rows := by
  obtain ⟨ls, hls, _, rfl⟩ := comesTo_ofRows_iff.mp h
  have hget : ∀ r, ((ls.foldl gather .empty).mapValues fun region bs =>
      Schedule.ofBrackets (fallbackKey region) bs).get? r =
        if r ∈ ls.map Prod.fst then some (.ofBrackets (fallbackKey r)
          ((ls.filter fun l => l.1 = r).map Prod.snd)) else none := by
    intro r
    rw [KeyMap.get?_mapValues, get?_foldl_gather, KeyMap.get?_empty]
    split <;> rfl
  refine ⟨fun r => ?_, fun r s hs => ?_⟩
  · rw [hget, ← exists_mem_zipIdx_iff, ← mem_regions_iff hls]
    by_cases hr : r ∈ ls.map Prod.fst
    · rw [if_pos hr]
      exact ⟨fun _ => hr, fun _ => ⟨_, rfl⟩⟩
    · rw [if_neg hr]
      exact ⟨fun ⟨_, h⟩ => (by cases h), fun h => absurd h hr⟩
  · rw [hget] at hs
    split at hs
    next =>
      obtain rfl := Option.some.inj hs
      exact ⟨rfl, _, forall₂_region hls, stablySorted_ofBrackets _ _⟩
    next => cases hs

/-- Only an exponent can stop the reading of the rows by a fault. -/
theorem ofRows_fault_iff : StopsBy (ofRows rows) (.error fault) ↔
    fault = .magnitudeOverflow ∧ Overflow rows := by
  unfold ofRows Overflow
  rw [group_eq]
  simp only [bind_assoc, pure_bind, stopsBy_bind_iff, stopsBy_mapM_iff, entry_fault_iff]
  constructor
  · rintro (⟨before, e, after, heq, hbefore, hfault, hregion, hrow⟩ | ⟨ls, _, hstop⟩)
    · exact ⟨hfault, before, e, after, heq, hbefore, hregion, hrow⟩
    · split at hstop <;> simp at hstop
  · rintro ⟨hfault, before, e, after, heq, hbefore, hregion, hrow⟩
    exact .inl ⟨before, e, after, heq, hbefore, hfault, hregion, hrow⟩

end RegionPricing.Fee.Fallback
