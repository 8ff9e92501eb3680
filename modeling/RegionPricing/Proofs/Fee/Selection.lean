import RegionPricing.Proofs.Fee.Unbounded

/-!
# Selection from a list of brackets

A schedule is made of a list of brackets in any order, in which one limit can stand several
times. `select_least` tells what the schedule selects from the list alone: the least limit that
the weight does not exceed, and of the brackets with that limit the first in the list
(`LeastCovering`).

The schedule itself is the list sorted by limits, cut where the brackets stop being below the
weight (`Schedule.Splits`): wherever a search finds that place, the bracket behind it is the
selected one. Sorting keeps the order of brackets with one limit and forgets all else about the
order of the list: `ofBrackets_eq_iff` says that two lists make the same schedule exactly when
they agree limit by limit.
-/

namespace RegionPricing.Fee

/-- A bracket of a list with the least limit that a weight does not exceed, the first of the
list with that limit. -/
structure LeastCovering (bs : List Bracket) (weight : Int64) (b : Bracket) : Prop where
  covers : weight ≤ b.weightLimit
  least : ∀ b' ∈ bs, weight ≤ b'.weightLimit → b.weightLimit ≤ b'.weightLimit
  first : ∃ before after, bs = before ++ b :: after ∧
    ∀ b' ∈ before, b'.weightLimit ≠ b.weightLimit

/-- A cut of a schedule: the brackets before it are below a weight, those behind it are not. -/
structure Schedule.Splits (s : Schedule) (weight : Int64) (i : ℕ) : Prop where
  le_length : i ≤ s.brackets.length
  below : ∀ b ∈ s.brackets.take i, b.weightLimit < weight
  covering : ∀ b ∈ s.brackets.drop i, weight ≤ b.weightLimit

/-- Lists that agree limit by limit: the brackets with that limit are the same, in the same
order. -/
def AgreeByLimit (bs bs' : List Bracket) : Prop :=
  ∀ limit, (bs.filter fun b => b.weightLimit = limit) = bs'.filter fun b => b.weightLimit = limit

section

variable {s : Schedule} {key : String} {bs bs' sorted : List Bracket} {weight weight' : Int64}
  {b b' : Bracket} {i : ℕ}

/-! ## The first bracket of a limit -/

theorem find?_limit_eq_some_iff :
    (bs.find? fun b' => b'.weightLimit = b.weightLimit) = some b ↔
      ∃ before after, bs = before ++ b :: after ∧
        ∀ b' ∈ before, b'.weightLimit ≠ b.weightLimit := by
  simp [List.find?_eq_some_iff_append]

/-- Sorting does not change which bracket with a limit comes first. -/
theorem StablySorted.find?_limit (h : StablySorted bs sorted) (limit : Int64) :
    (sorted.find? fun b => b.weightLimit = limit) = bs.find? fun b => b.weightLimit = limit := by
  rw [← List.head?_filter, h.stable, List.head?_filter]

namespace LeastCovering

theorem mem (h : LeastCovering bs weight b) : b ∈ bs := by
  obtain ⟨before, after, rfl, _⟩ := h.first
  simp

theorem unique (h : LeastCovering bs weight b) (h' : LeastCovering bs weight b') : b = b' := by
  have hlimit : b.weightLimit = b'.weightLimit :=
    Int64.le_antisymm (h.least b' h'.mem h'.covers) (h'.least b h.mem h.covers)
  have hfirst := find?_limit_eq_some_iff.mpr h.first
  rw [hlimit, find?_limit_eq_some_iff.mpr h'.first] at hfirst
  exact (Option.some.inj hfirst).symm

/-- A lighter parcel needs no greater limit. -/
theorem limit_le (h : LeastCovering bs weight b) (h' : LeastCovering bs weight' b')
    (hle : weight ≤ weight') : b.weightLimit ≤ b'.weightLimit :=
  h.least b' h'.mem (Int64.le_trans hle h'.covers)

end LeastCovering

/-! ## What is selected -/

theorem leastCovering_of_select (hs : StablySorted bs s.brackets)
    (h : s.select weight = some b) : LeastCovering bs weight b := by
  obtain ⟨_, hcovers, hleast⟩ := least_of_select h
  refine ⟨hcovers, fun b' hb' => hleast b' (hs.perm.mem_iff.mpr hb'), ?_⟩
  rw [← find?_limit_eq_some_iff, ← hs.find?_limit, find?_limit_eq_some_iff]
  obtain ⟨before, after, heq, _, hbefore⟩ := select_eq_some_iff.mp h
  refine ⟨before, after, heq, fun b' hb' hlimit => ?_⟩
  -- a bracket before it is below the weight
  exact absurd hcovers (Int64.not_le.mpr (hlimit ▸ hbefore b' hb'))

theorem select_eq_some_iff_leastCovering (hs : StablySorted bs s.brackets) :
    s.select weight = some b ↔ LeastCovering bs weight b := by
  refine ⟨leastCovering_of_select hs, fun h => ?_⟩
  obtain ⟨b', hb'⟩ := exists_select_iff.mpr ⟨b, hs.perm.mem_iff.mpr h.mem, h.covers⟩
  rw [hb', h.unique (leastCovering_of_select hs hb')]

theorem select_eq_none_iff (hs : StablySorted bs s.brackets) :
    s.select weight = none ↔ ∀ b ∈ bs, b.weightLimit < weight := by
  unfold Schedule.select
  simp only [List.find?_eq_none, decide_eq_true_eq, Int64.not_le, hs.perm.mem_iff]

/-! ## The cut -/

theorem Schedule.exists_splits (s : Schedule) (weight : Int64) : ∃ i, s.Splits weight i := by
  cases h : s.select weight with
  | none =>
    -- all brackets are below the weight
    have hbelow := List.find?_eq_none.mp h
    simp only [decide_eq_true_eq, Int64.not_le] at hbelow
    exact ⟨s.brackets.length, le_rfl, by rwa [List.take_length], by simp⟩
  | some b =>
    obtain ⟨before, after, heq, hcovers, hbefore⟩ := select_eq_some_iff.mp h
    have hordered := s.ordered
    rw [heq] at hordered
    have hafter := List.pairwise_cons.mp (List.pairwise_append.mp hordered).2.1
    refine ⟨before.length, by simp [heq], ?_, fun b' hb' => ?_⟩
    · rwa [heq, List.take_left]
    · rw [heq, List.drop_left] at hb'
      rcases List.mem_cons.mp hb' with rfl | hb'
      · exact hcovers
      · exact Int64.le_trans hcovers (of_decide_eq_true (hafter.1 b' hb'))

/-- Wherever a search finds the cut, the bracket behind it is the selected one. -/
theorem Schedule.Splits.select_eq (h : s.Splits weight i) : s.select weight = s.brackets[i]? := by
  have hbelow : ((s.brackets.take i).find? fun b => weight ≤ b.weightLimit) = none := by
    rw [List.find?_eq_none]
    intro b hb
    rw [decide_eq_true_eq, Int64.not_le]
    exact h.below b hb
  unfold Schedule.select
  rw [← List.take_append_drop i s.brackets, List.find?_append, hbelow, Option.none_or,
    List.take_append_drop, ← List.head?_drop]
  have hcovering := h.covering
  cases hrest : s.brackets.drop i with
  | nil => rfl
  | cons b rest =>
    rw [hrest] at hcovering
    exact List.find?_cons_of_pos (decide_eq_true (hcovering b List.mem_cons_self))

/-! ## The order of the list -/

theorem AgreeByLimit.symm (h : AgreeByLimit bs bs') : AgreeByLimit bs' bs :=
  fun limit => (h limit).symm

theorem AgreeByLimit.mem (h : AgreeByLimit bs bs') (hb : b ∈ bs) : b ∈ bs' := by
  have hfilter : b ∈ bs.filter fun b' => b'.weightLimit = b.weightLimit :=
    List.mem_filter.mpr ⟨hb, decide_eq_true rfl⟩
  rw [h b.weightLimit] at hfilter
  exact (List.mem_filter.mp hfilter).1

/-- The head of a sorted list has the least limit of every list that agrees with it. -/
theorem AgreeByLimit.head_le {bs : List Bracket} (h : AgreeByLimit bs' (b :: bs))
    (hb : ∀ b' ∈ bs, b.weightLimit ≤ b'.weightLimit) (hb' : b' ∈ bs') :
    b.weightLimit ≤ b'.weightLimit := by
  rcases List.mem_cons.mp (h.mem hb') with rfl | hmem
  · exact Int64.le_refl _
  · exact hb b' hmem

theorem AgreeByLimit.of_cons {bs bs' : List Bracket} (h : AgreeByLimit (b :: bs) (b :: bs')) :
    AgreeByLimit bs bs' := by
  intro limit
  have hcons := h limit
  by_cases hb : b.weightLimit = limit
  · rw [List.filter_cons_of_pos (by simpa using hb), List.filter_cons_of_pos (by simpa using hb)]
      at hcons
    exact (List.cons.inj hcons).2
  · rwa [List.filter_cons_of_neg (by simpa using hb), List.filter_cons_of_neg (by simpa using hb)]
      at hcons

/-- Sorted lists that agree limit by limit are the same list. -/
theorem AgreeByLimit.eq {bs bs' : List Bracket} (h : AgreeByLimit bs bs')
    (hbs : bs.Pairwise fun a b => a.weightLimit ≤ b.weightLimit)
    (hbs' : bs'.Pairwise fun a b => a.weightLimit ≤ b.weightLimit) : bs = bs' := by
  induction bs generalizing bs' with
  | nil =>
    cases bs' with
    | nil => rfl
    | cons b' bs' => exact absurd (h.symm.mem List.mem_cons_self) List.not_mem_nil
  | cons b bs ih =>
    cases bs' with
    | nil => exact absurd (h.mem List.mem_cons_self) List.not_mem_nil
    | cons b' bs' =>
      obtain ⟨hb, hrest⟩ := List.pairwise_cons.mp hbs
      obtain ⟨hb', hrest'⟩ := List.pairwise_cons.mp hbs'
      have hlimit : b'.weightLimit = b.weightLimit :=
        Int64.le_antisymm (h.head_le hb' List.mem_cons_self)
          (h.symm.head_le hb List.mem_cons_self)
      -- so each head is the first of its list with that limit
      have hheads := h b.weightLimit
      rw [List.filter_cons_of_pos (by simp),
        List.filter_cons_of_pos (by simpa using hlimit)] at hheads
      obtain rfl := (List.cons.inj hheads).1
      rw [ih h.of_cons hrest hrest']

theorem ofBrackets_eq_iff :
    Schedule.ofBrackets key bs = .ofBrackets key bs' ↔ AgreeByLimit bs bs' := by
  have hbs := stablySorted_ofBrackets key bs
  have hbs' := stablySorted_ofBrackets key bs'
  constructor
  · intro h limit
    rw [← hbs.stable, h, hbs'.stable]
  · intro h
    have hsorted : AgreeByLimit (bs.mergeSort Bracket.limitLe) (bs'.mergeSort Bracket.limitLe) :=
      fun limit => (hbs.stable limit).trans ((h limit).trans (hbs'.stable limit).symm)
    unfold Schedule.ofBrackets
    simp only [hsorted.eq hbs.ordered hbs'.ordered]

/-- Where no limit stands twice, the order of the list says nothing. -/
theorem agreeByLimit_of_perm (h : bs.Perm bs') (hbs : (bs.map Bracket.weightLimit).Nodup) :
    AgreeByLimit bs bs' := by
  intro limit
  refine @List.Perm.eq_of_pairwise _ (fun _ _ => True) _ _ (fun b b' hb hb' _ _ => ?_)
    (List.pairwise_of_forall fun _ _ => trivial) (List.pairwise_of_forall fun _ _ => trivial)
    (h.filter _)
  simp only [List.mem_filter, decide_eq_true_eq] at hb hb'
  exact List.inj_on_of_nodup_map hbs hb.1 (h.mem_iff.mpr hb'.1) (hb.2.trans hb'.2.symm)

end

/-- From a list in any order, a schedule selects the bracket with the least limit that the weight
does not exceed, the first of the list with that limit, and none exactly when the weight exceeds
all limits; it stands behind the cut at the weight. A lighter parcel is selected for too, at
no greater limit. The order of the list matters only between brackets with one limit. -/
theorem select_least (key : String) (bs : List Bracket) (weight : Int64) :
    (∀ b, (Schedule.ofBrackets key bs).select weight = some b ↔ LeastCovering bs weight b) ∧
    ((Schedule.ofBrackets key bs).select weight = none ↔ ∀ b ∈ bs, b.weightLimit < weight) ∧
    (∃ i, (Schedule.ofBrackets key bs).Splits weight i) ∧
    (∀ i, (Schedule.ofBrackets key bs).Splits weight i →
      (Schedule.ofBrackets key bs).select weight = (Schedule.ofBrackets key bs).brackets[i]?) ∧
    (∀ weight' b', weight ≤ weight' → (Schedule.ofBrackets key bs).select weight' = some b' →
      ∃ b, (Schedule.ofBrackets key bs).select weight = some b ∧
        b.weightLimit ≤ b'.weightLimit) ∧
    (∀ bs', Schedule.ofBrackets key bs = .ofBrackets key bs' ↔ AgreeByLimit bs bs') ∧
    ∀ bs', bs.Perm bs' → (bs.map Bracket.weightLimit).Nodup →
      Schedule.ofBrackets key bs = .ofBrackets key bs' := by
  have hs := stablySorted_ofBrackets key bs
  refine ⟨fun b => select_eq_some_iff_leastCovering hs, select_eq_none_iff hs,
    Schedule.exists_splits _ weight, fun i hi => hi.select_eq, fun weight' b' hle h => ?_,
    fun bs' => ofBrackets_eq_iff, fun bs' hperm hbs => ?_⟩
  · have h' := leastCovering_of_select hs h
    obtain ⟨b, hb⟩ := exists_select_iff.mpr
      ⟨b', hs.perm.mem_iff.mpr h'.mem, Int64.le_trans hle h'.covers⟩
    exact ⟨b, hb, (leastCovering_of_select hs hb).limit_le h' hle⟩
  · exact ofBrackets_eq_iff.mpr (agreeByLimit_of_perm hperm hbs)

/-! Limits out of order, and one of them twice. -/

/-- A bracket up to a limit with a start price. -/
def bracketUpTo (limit price : Int64) : Bracket where
  weightLimit := limit
  startPrice := .ofInt64 price
  startWeight := .zero
  roundExponent := 0
  stepPrice := .zero
  weightStep := .zero
  adjustment := .zero
  tableKey := "t"
  level := .table

/-- Brackets up to 3000, 1000, 2000 and 1000. -/
def outOfOrder : List Bracket :=
  [bracketUpTo 3000 7, bracketUpTo 1000 2, bracketUpTo 2000 5, bracketUpTo 1000 4]

theorem outOfOrder_leastCovering :
    LeastCovering outOfOrder 1000 (bracketUpTo 1000 2) ∧
      LeastCovering outOfOrder 1001 (bracketUpTo 2000 5) := by
  refine ⟨⟨by decide, by decide, [bracketUpTo 3000 7], _, rfl, by decide⟩,
    ⟨by decide, by decide, [bracketUpTo 3000 7, bracketUpTo 1000 2], _, rfl, by decide⟩⟩

/-- A weight equal to a limit gets the first bracket with that limit, one more gets the next
limit, and beyond the last limit there is none. -/
theorem select_least_outOfOrder :
    (Schedule.ofBrackets "t" outOfOrder).select 1000 = some (bracketUpTo 1000 2) ∧
    (Schedule.ofBrackets "t" outOfOrder).select 1001 = some (bracketUpTo 2000 5) ∧
    (Schedule.ofBrackets "t" outOfOrder).select 3001 = none ∧
    (Schedule.ofBrackets "t" outOfOrder).select 1000
      = (Schedule.ofBrackets "t" outOfOrder).brackets[0]? ∧
    (∃ b, (Schedule.ofBrackets "t" outOfOrder).select 1000 = some b ∧
      b.weightLimit ≤ (bracketUpTo 2000 5).weightLimit) ∧
    Schedule.ofBrackets "t" (outOfOrder.take 3)
      = .ofBrackets "t" [bracketUpTo 2000 5, bracketUpTo 3000 7, bracketUpTo 1000 2] := by
  obtain ⟨hsome, _, _, hcut, horder, _, _⟩ := select_least "t" outOfOrder 1000
  obtain ⟨hsome', _⟩ := select_least "t" outOfOrder 1001
  obtain ⟨_, hnone, _⟩ := select_least "t" outOfOrder 3001
  obtain ⟨_, _, _, _, _, _, hperm⟩ := select_least "t" (outOfOrder.take 3) 0
  obtain ⟨hleast, hleast'⟩ := outOfOrder_leastCovering
  have hnext := (hsome' _).mpr hleast'
  have hsplits : (Schedule.ofBrackets "t" outOfOrder).Splits 1000 0 := by
    refine ⟨Nat.zero_le _, by simp, fun b hb => ?_⟩
    rw [List.drop_zero, mem_ofBrackets] at hb
    revert b
    decide
  have hrotated : (outOfOrder.take 3).Perm
      [bracketUpTo 2000 5, bracketUpTo 3000 7, bracketUpTo 1000 2] :=
    @List.perm_append_comm _ [bracketUpTo 3000 7, bracketUpTo 1000 2] [bracketUpTo 2000 5]
  exact ⟨(hsome _).mpr hleast, hnext, hnone.mpr (by decide), hcut 0 hsplits,
    horder 1001 _ (by decide) hnext, hperm _ hrotated (by decide)⟩

end RegionPricing.Fee
