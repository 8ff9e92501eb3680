import RegionPricing.Proofs.Fee.Values
import RegionPricing.Proofs.Store.Brackets

/-!
# What the precision of the store leaves of a bracket

The decimals of a bracket are stored as whole numbers of units of `10 ^ -5`. A decimal that is
such a number of units comes back with its value, whatever its sign, with one exception: the
unit below zero is stored as the number that means "no value", and comes back as -1
(`value_storedImage`). So a bracket that has no such decimal keeps its terms, and with them its
fee for every parcel (`bracket_keeps_terms`); one that has it may ask another fee
(`adjustment_lost`).
-/

namespace RegionPricing.Store

open Fee Decimal FixedPoint

/-- A decimal after it has been stored. -/
def storedImage (d : Decimal) : Decimal := priceOfRaw (rawOfPrice d)

/-- A whole number of units that can be stored. -/
def OnGrid (d : Decimal) : Prop := ∃ n : Int64, d.value = n.toInt / 10 ^ 5

/-- The unit below zero, whose stored number means "no value". -/
def lostAmount : ℚ := -1 / 10 ^ 5

/-- What the store makes of an amount on the grid. -/
def keptAmount (x : ℚ) : ℚ := if x = lostAmount then -1 else x

theorem amountOf_rawOf_div {k : ℕ} (n : Int64) :
    amountOf k (rawOf k (n.toInt / 10 ^ k))
      = if n = unset then (-1 : ℚ) else (n.toInt : ℚ) / 10 ^ k := by
  have hpow : (0 : ℚ) < 10 ^ k := by positivity
  have hclamp : clamp (halfAway ((n.toInt : ℚ) / 10 ^ k * 10 ^ k)) = n.toInt := by
    rw [div_mul_cancel₀ _ hpow.ne', halfAway_intCast, clamp_toInt]
  rw [rawOf, hclamp]
  by_cases hone : (n.toInt : ℚ) / 10 ^ k = -1
  · -- an amount of -1 is "no value" on both sides
    rw [if_pos hone, hone, ite_self]
    rfl
  · rw [if_neg hone, Int64.ofInt_toInt]
    rfl

theorem div_eq_lostAmount_iff (n : Int64) : (n.toInt : ℚ) / 10 ^ 5 = lostAmount ↔ n = unset := by
  have hunset : unset.toInt = -1 := by decide
  rw [lostAmount, div_left_inj' (by norm_num), ← Int64.toInt_inj, hunset]
  exact_mod_cast Iff.rfl

theorem value_storedImage {d : Decimal} (h : OnGrid d) :
    (storedImage d).value = keptAmount d.value := by
  obtain ⟨n, hn⟩ := h
  rw [storedImage, value_priceOfRaw, rawOfPrice_eq, hn, amountOf_rawOf_div, keptAmount]
  simp only [div_eq_lostAmount_iff]

theorem decimals_asStored (table : FeeTable) (c : Corridor) (b : Bracket) :
    (asStored table c b).decimals = b.decimals.map storedImage := rfl

variable {table : FeeTable} {c : Corridor} {b : Bracket}

theorem values_asStored (h : ∀ d ∈ b.decimals, OnGrid d) :
    (asStored table c b).decimals.map value = (b.decimals.map value).map keptAmount := by
  rw [decimals_asStored, List.map_map, List.map_map]
  exact List.map_congr_left fun d hd => value_storedImage (h d hd)

theorem sameTerms_asStored (h : ∀ d ∈ b.decimals, OnGrid d)
    (hkept : ∀ d ∈ b.decimals, d.value ≠ lostAmount) : SameTerms (asStored table c b) b := by
  refine ⟨rfl, rfl, ?_⟩
  rw [values_asStored h, List.map_map]
  exact List.map_congr_left fun d hd => if_neg (hkept d hd)

/-- A bracket that is stored is found where it has the least limit that covers the weight. Its
limit and rounding are as they were, and so are the values of its decimals, but for the unit
below zero. Without such a decimal it asks the same fee for every parcel; where no decimal
holds the fee, the failure names the table. -/
theorem bracket_keeps_terms {s : Store} (hopen : s.isOpen = true) (table : FeeTable) (c : Corridor)
    {b : Bracket} (hgrid : ∀ d ∈ b.decimals, OnGrid d) :
    ∃ s', s.putBracket table c b = .ok s' ∧ ∀ weight, weight ≤ b.weightLimit →
      (∀ limit terms, (s'.brackets table).get? (c, limit) = some terms → weight ≤ limit →
        b.weightLimit ≤ limit) →
      ∃ r, s'.bracket? table c weight = .ok (some r) ∧ r.weightLimit = b.weightLimit ∧
        r.roundExponent = b.roundExponent ∧
        r.decimals.map value = (b.decimals.map value).map keptAmount ∧
        ((∀ d ∈ b.decimals, d.value ≠ lostAmount) → r.decimals.map value = b.decimals.map value ∧
          ∀ grams, (r.fee grams).map value
            = ({ b with tableKey := tableKey table c }.fee grams).map value) := by
  obtain ⟨s', hput, hopen', htables⟩ := putBracket_eq hopen table c b
  refine ⟨s', hput, fun weight hcovers hleast => ?_⟩
  have hcovering : covering (s'.brackets table) c weight
      = some (b.weightLimit, StoredTerms.ofBracket b) := by
    refine covering_eq_some_iff.mpr ⟨?_, hcovers, hleast⟩
    rw [htables, if_pos rfl, KeyMap.get?_put, if_pos rfl]
  refine ⟨asStored table c b, ?_, rfl, rfl, values_asStored hgrid, fun hkept => ?_⟩
  · rw [bracket?_eq hopen', hcovering]
    rfl
  · have hterms : SameTerms (asStored table c b) b := sameTerms_asStored hgrid hkept
    exact ⟨hterms.decimals, fee_of_sameTerms hterms⟩

/-! A bracket with a discount in its adjustment, beside one with a lesser limit. -/

/-- Two, and 0.375 for each eighth of a gram above the first, less 1.625. -/
def discounted : Bracket where
  weightLimit := 500000
  startPrice := .ofInt64 2
  startWeight := .ofCoeff 125 3 (by decide) (by decide)
  roundExponent := 1
  stepPrice := .ofCoeff 375 3 (by decide) (by decide)
  weightStep := .ofCoeff 125 3 (by decide) (by decide)
  adjustment := .ofCoeff (-1625) 3 (by decide) (by decide)
  tableKey := ""
  level := .table

/-- A store with a bracket for parcels of up to a gram. -/
def lightOnly : Store :=
  { empty with
    hiddenPrice := .ofList
      [((malaysian, 100000), StoredTerms.ofBracket { discounted with weightLimit := 100000 })] }

theorem onGrid_of_value {d : Decimal} {n : Int64} {m : ℤ} (hn : n.toInt = m)
    (h : d.value = m / 10 ^ 5) : OnGrid d := ⟨n, by rw [h, hn]⟩

theorem values_discounted :
    discounted.decimals.map value = [2, 125 / 1000, 375 / 1000, 125 / 1000, -1625 / 1000] := by
  have htwo : (2 : Int64).toInt = 2 := by decide
  simp only [discounted, Bracket.decimals, List.map_cons, List.map_nil, value_ofInt64,
    value_ofCoeff, htwo]
  norm_num

theorem discounted_onGrid : ∀ d ∈ discounted.decimals, OnGrid d := by
  have hvalues := values_discounted
  simp only [Bracket.decimals, List.map_cons, List.map_nil, List.cons.injEq, and_true] at hvalues
  obtain ⟨hstart, hweight, hprice, hstep, hadjustment⟩ := hvalues
  simp only [Bracket.decimals, List.forall_mem_cons]
  refine ⟨?_, ?_, ?_, ?_, ?_, by simp⟩
  · exact onGrid_of_value (n := 200000) (m := 200000) (by decide) (by rw [hstart]; norm_num)
  · exact onGrid_of_value (n := 12500) (m := 12500) (by decide) (by rw [hweight]; norm_num)
  · exact onGrid_of_value (n := 37500) (m := 37500) (by decide) (by rw [hprice]; norm_num)
  · exact onGrid_of_value (n := 12500) (m := 12500) (by decide) (by rw [hstep]; norm_num)
  · exact onGrid_of_value (n := -162500) (m := -162500) (by decide)
      (by rw [hadjustment]; norm_num)

theorem discounted_kept : ∀ d ∈ discounted.decimals, d.value ≠ lostAmount := by
  intro d hd
  have hvalue := List.mem_map_of_mem (f := value) hd
  rw [values_discounted] at hvalue
  intro hlost
  rw [hlost, lostAmount] at hvalue
  norm_num at hvalue

/-- The discount comes back, and with it the fee of every parcel. -/
theorem bracket_keeps_terms_discounted :
    ∃ s r, lightOnly.putBracket .hiddenPrice malaysian discounted = .ok s ∧
      s.bracket? .hiddenPrice malaysian 200000 = .ok (some r) ∧ r.weightLimit = 500000 ∧
      r.decimals.map value = [2, 125 / 1000, 375 / 1000, 125 / 1000, -1625 / 1000] ∧
      ∀ grams, (r.fee grams).map value
        = ({ discounted with tableKey := "hidden_price_configs:SG:MY" }.fee grams).map value := by
  obtain ⟨s, hput, hlookup⟩ :=
    bracket_keeps_terms (s := lightOnly) rfl .hiddenPrice malaysian discounted_onGrid
  have hs : s.brackets .hiddenPrice = lightOnly.hiddenPrice.put (malaysian, 500000)
      (StoredTerms.ofBracket discounted) := by
    rw [← Except.ok.inj hput]
    rfl
  obtain ⟨r, hr, hlimit, _, _, hsame⟩ := hlookup 200000 (by decide) (by
    intro limit terms hget hweight
    rw [hs, KeyMap.get?_put] at hget
    split at hget
    next hkey =>
      rw [← (Prod.mk.inj hkey).2]
      exact Int64.le_refl _
    next =>
      -- the other bracket does not cover the weight
      have hentry := List.eq_of_mem_singleton (KeyMap.mem_of_get? hget)
      rw [(Prod.mk.inj (Prod.mk.inj hentry).1).2] at hweight
      exact absurd hweight (by decide))
  obtain ⟨hvalues, hfee⟩ := hsame discounted_kept
  exact ⟨s, r, hput, hr, hlimit, hvalues.trans values_discounted, hfee⟩

/-! A bracket whose adjustment is the unit below zero. -/

/-- Two less a unit, for every parcel. -/
def lessAUnit : Bracket where
  weightLimit := unboundedWeight
  startPrice := .ofInt64 2
  startWeight := .zero
  roundExponent := 0
  stepPrice := .zero
  weightStep := .zero
  adjustment := .ofCoeff (-1) 5 (by decide) (by decide)
  tableKey := ""
  level := .table

/-- An adjustment of -0.00001 comes back as -1, and the fee with it. -/
theorem adjustment_lost :
    ∃ s r, empty.putBracket .hiddenPrice malaysian lessAUnit = .ok s ∧
      s.bracket? .hiddenPrice malaysian 0 = .ok (some r) ∧
      lessAUnit.adjustment.value = -1 / 10 ^ 5 ∧ r.adjustment.value = -1 ∧
      (lessAUnit.fee .zero).map value = .ok (199999 / 100000) ∧
      (r.fee .zero).map value = .ok 1 := by
  have hunit : lessAUnit.adjustment.value = -1 / 10 ^ 5 := by
    rw [lessAUnit, value_ofCoeff]
    norm_num
  have hgrid : OnGrid lessAUnit.adjustment :=
    onGrid_of_value (n := -1) (m := -1) (by decide) (by rw [hunit]; norm_num)
  have hback : (asStored .hiddenPrice malaysian lessAUnit).adjustment.value = -1 := by
    show (storedImage lessAUnit.adjustment).value = -1
    rw [value_storedImage hgrid, keptAmount]
    exact if_pos hunit
  have hfee : lessAUnit.fee .zero = .ok (.ofCoeff 199999 5 (by decide) (by decide)) := by
    decide +kernel
  have hfee' : (asStored .hiddenPrice malaysian lessAUnit).fee .zero
      = .ok (.ofCoeff 10000000000000000000000000000 28 (by decide) (by decide)) := by
    decide +kernel
  refine ⟨_, asStored .hiddenPrice malaysian lessAUnit, rfl, rfl, hunit, hback, ?_, ?_⟩
  · rw [hfee]
    refine congrArg Except.ok ?_
    rw [value_ofCoeff]
    norm_num
  · rw [hfee']
    refine congrArg Except.ok ?_
    rw [value_ofCoeff]
    norm_num

end RegionPricing.Store
