import RegionPricing.Pricing.Warehouses
import RegionPricing.Market.Shop
import RegionPricing.Proofs.Decimal.Operations
import RegionPricing.Proofs.FixedPoint
import RegionPricing.Proofs.KeyMap
import RegionPricing.Proofs.Pricing.Session

/-!
# The mean over warehouses exists

The fees of several warehouses are added up outside any job, so an overflow there would
fail the whole batch. It cannot happen: a stored fee is below `10 ^ 14`, there are no
more fees than warehouses, and a list in memory is too short for such fees to add up to
what no decimal holds (`exists_mean`).
-/

namespace RegionPricing.Pricing

open RegionPricing.Decimal RegionPricing.Market

/-! ## What is collected -/

/-- More than any stored fee. -/
def feeBound : ℚ := 93 * 10 ^ 12

theorem abs_priceOfRaw_le (raw : Int64) : |(FixedPoint.priceOfRaw raw).value| ≤ feeBound := by
  rw [FixedPoint.value_priceOfRaw, FixedPoint.amountOf, feeBound]
  split
  · norm_num
  · have h := FixedPoint.abs_toInt_le raw
    rw [abs_div, abs_of_pos (by positivity : (0 : ℚ) < 10 ^ 5), div_le_iff₀ (by positivity)]
    linarith

/-- Fees of some sellers, none greater than a stored fee. -/
def Modest (sellers : List String) (fees : KeyMap String Decimal) : Prop :=
  ∀ e ∈ fees.entries, e.1 ∈ sellers ∧ |e.2.value| ≤ feeBound

theorem Modest.put {sellers : List String} {fees : KeyMap String Decimal} {seller : String}
    {fee : Decimal} (h : Modest sellers fees) (hs : seller ∈ sellers)
    (hf : |fee.value| ≤ feeBound) :
    Modest sellers (fees.put seller fee) := by
  intro e he
  rcases KeyMap.mem_putEntry he with rfl | he
  · exact ⟨hs, hf⟩
  · exact h e he

theorem Modest.raise {sellers : List String} {fees : KeyMap String Decimal} {seller : String}
    {fee : Decimal} (h : Modest sellers fees) (hs : seller ∈ sellers)
    (hf : |fee.value| ≤ feeBound) :
    Modest sellers (raise fees seller fee) := by
  refine h.put hs ?_
  split
  next old hold =>
    have hmem := (h _ (KeyMap.mem_of_get? hold)).2
    rw [Decimal.value_max]
    rcases max_choice old.value fee.value with hmax | hmax <;> rw [hmax]
    · exact hmem
    · exact hf
  next => exact hf

theorem dearest_modest {sellers : List String} {rs : List LocationFeeRequest}
    (hrs : ∀ r ∈ rs, r.seller ∈ sellers) (quotes : List Quote) :
    Modest sellers (dearest rs quotes) := by
  refine List.foldlRecOn (rs.zip quotes) _ ?_ fun fees h e he => ?_
  · intro e he
    exact absurd he List.not_mem_nil
  · split
    next fee _ => exact h.raise (hrs e.1 (List.of_mem_zip he).1) (abs_priceOfRaw_le fee)
    next => exact h

/-- No more fees than sellers. -/
theorem Modest.length_le {sellers : List String} {fees : KeyMap String Decimal}
    (h : Modest sellers fees) : fees.entries.length ≤ sellers.length := by
  rw [← List.length_map Prod.fst]
  refine (fees.nodup.subperm ?_).length_le
  intro k hk
  obtain ⟨e, he, rfl⟩ := List.mem_map.mp hk
  exact (h e he).1

/-! ## Adding up -/

/-- What one fee can add to a sum, with what is lost by rounding. -/
def growth : ℚ := feeBound + 3

theorem exists_sum {fees : List Decimal} (hfees : ∀ d ∈ fees, |d.value| ≤ feeBound) :
    ∀ (n : ℕ) (acc : Decimal), |acc.value| ≤ n * growth → n + fees.length ≤ memoryLimit →
      ∃ total, fees.foldlM Decimal.add acc = .ok total ∧
        |total.value| ≤ (n + fees.length : ℕ) * growth := by
  induction fees with
  | nil =>
    intro n acc hacc _
    exact ⟨acc, rfl, hacc⟩
  | cons d r ih =>
    intro n acc hacc hn
    have hd := hfees d List.mem_cons_self
    rw [List.length_cons] at hn
    have hcount : ((n + 1 : ℕ) : ℚ) ≤ memoryLimit := by exact_mod_cast (by omega)
    have hsum : |acc.value + d.value| ≤ n * growth + feeBound :=
      (abs_add_le _ _).trans (add_le_add hacc hd)
    -- Memory ends before the sum reaches half of what a decimal holds.
    have hroom : n * growth + feeBound ≤ 27 * 10 ^ 27 := by
      push_cast [memoryLimit] at hcount
      unfold growth feeBound
      linarith
    have hfits : Fits (acc.value + d.value) := by
      unfold Fits limit
      norm_num at hroom ⊢
      linarith
    obtain ⟨next, hnext, hnear⟩ := exists_add_near hfits
    have hgrown : |next.value| ≤ (n + 1 : ℕ) * growth := by
      have hdiff := abs_sub_abs_le_abs_sub next.value (acc.value + d.value)
      have hlost : epsilon * (1 + |acc.value + d.value|) ≤ 3 := by
        unfold epsilon
        linarith
      push_cast
      have hg : growth = feeBound + 3 := rfl
      linarith
    obtain ⟨total, htotal, hsize⟩ :=
      ih (fun d' hd' => hfees d' (List.mem_cons_of_mem d hd')) (n + 1) next hgrown (by omega)
    refine ⟨total, ?_, ?_⟩
    · rw [List.foldlM_cons, hnext]
      exact htotal
    · rw [List.length_cons, ← Nat.add_assoc, Nat.add_right_comm]
      exact hsize

/-- The mean of some stored fees exists. -/
theorem exists_mean {fees : List Decimal} (hne : fees ≠ [])
    (hfees : ∀ d ∈ fees, |d.value| ≤ feeBound) (hlen : fees.length < memoryLimit) :
    ∃ m, mean fees = .ok m := by
  obtain ⟨total, htotal, hsize⟩ := exists_sum hfees 0 .zero (by simp) (by omega)
  have hpos : (1 : ℚ) ≤ fees.length := by exact_mod_cast List.length_pos_iff.mpr hne
  have hcount : (Decimal.ofInt64 (Int64.ofNat fees.length)).value = fees.length := by
    unfold memoryLimit at hlen
    rw [value_ofInt64, Int64.toInt_ofNat_of_lt (by omega)]
    rfl
  -- The mean is no larger than the sum.
  have hfits : Fits (total.value / (Decimal.ofInt64 (Int64.ofNat fees.length)).value) := by
    have hle : ((0 + fees.length : ℕ) : ℚ) ≤ memoryLimit := by exact_mod_cast (by omega)
    have htop : |total.value| ≤ 27 * 10 ^ 27 := by
      push_cast [memoryLimit] at hle hsize
      unfold growth feeBound at hsize
      linarith
    rw [hcount]
    unfold Fits limit
    rw [abs_div, abs_of_pos (by linarith : (0 : ℚ) < fees.length)]
    have := div_le_self (abs_nonneg total.value) hpos
    norm_num at htop ⊢
    linarith
  obtain ⟨m, hm, _⟩ := exists_div_near (by rw [hcount]; linarith) hfits
  refine ⟨m, ?_⟩
  have hsum : Decimal.sum fees = .ok total := htotal
  rw [mean, hsum]
  exact hm

/-! ## The fee of a listing -/

theorem seller_of_mem_locationRequests {region : Region} {sellers : List String} {buyer : String}
    {channels : List Id} {weight : Int64} {r : LocationFeeRequest}
    (h : r ∈ locationRequests region sellers buyer channels weight) : r.seller ∈ sellers := by
  obtain ⟨seller, hs, hr⟩ := List.mem_flatMap.mp h
  obtain ⟨_, _, rfl⟩ := List.mem_map.mp hr
  exact hs

/-- Arithmetic does not fail, whatever logistics answers. -/
theorem exists_warehouseFeeOf {sellers : List String} (hlen : sellers.length < memoryLimit)
    (buyer : String) {rs : List LocationFeeRequest} (hrs : ∀ r ∈ rs, r.seller ∈ sellers)
    (answer : Except ServiceError (List Quote)) :
    ∃ fee, warehouseFeeOf sellers.length buyer rs answer = ofExcept fee := by
  unfold warehouseFeeOf
  split
  next e => exact ⟨.error _, rfl⟩
  next quotes =>
    split
    next =>
      unfold meanFee
      split
      next => exact ⟨.error _, rfl⟩
      next hne =>
        have hmodest := dearest_modest hrs quotes
        have hfees : ∀ d ∈ (dearest rs quotes).entries.map Prod.snd, |d.value| ≤ feeBound := by
          intro d hd
          obtain ⟨e, he, rfl⟩ := List.mem_map.mp hd
          exact (hmodest e he).2
        have hcount : ((dearest rs quotes).entries.map Prod.snd).length < memoryLimit := by
          rw [List.length_map]
          exact lt_of_le_of_lt hmodest.length_le hlen
        obtain ⟨m, hm⟩ := exists_mean (by simpa using hne) hfees hcount
        refine ⟨.ok m, ?_⟩
        rw [hm]
        rfl
    next => exact ⟨.error _, rfl⟩

theorem exists_warehouseFee {σ : Type} (call : List LocationFeeRequest → Call σ (List Quote))
    (hcall : ∀ rs, ∃ answer, Gives (call rs) answer) (region : Region) {sellers : List String}
    (hlen : sellers.length < memoryLimit) (buyer : String) (channels : List Id) (weight : Int64) :
    ∃ fee : Outcome Decimal,
      Gives (warehouseFee call region sellers buyer channels weight) (ofExcept fee) := by
  unfold warehouseFee
  simp only
  split
  next => exact ⟨.error _, .pure _⟩
  next =>
    obtain ⟨answer, hanswer⟩ := hcall (locationRequests region sellers buyer channels weight)
    obtain ⟨fee, hfee⟩ := exists_warehouseFeeOf hlen buyer
      (fun r hr => seller_of_mem_locationRequests hr) answer
    refine ⟨fee, ?_⟩
    rw [← hfee]
    exact hanswer.map _

end RegionPricing.Pricing
