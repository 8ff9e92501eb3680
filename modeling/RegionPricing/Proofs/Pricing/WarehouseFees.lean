import Mathlib.Algebra.BigOperators.Group.Finset.Basic
import Mathlib.Order.Bounds.Basic
import RegionPricing.Proofs.Decimal.ByValue
import RegionPricing.Proofs.Pricing.Warehouses

/-!
# The mean over the locations that have a price

The requests for every location over every channel are answered one by one, and of the fees of
a location the greatest stays. `Raised` says so of the fees that some answered requests leave,
and one more answer keeps it (`Raised.answered`), so it holds of all of them (`raised_dearest`).
Stored fees have five places, so that fewer than `2 ^ 32` of them are added up without any
rounding (`exists_sum_eq`), and only their quotient is rounded (`warehouseFee_mean`). It depends
on nothing but the locations that have a price and the greatest fee of each, wherever and
however often they stand in the list.
-/

namespace RegionPricing.Pricing

open RegionPricing.Decimal RegionPricing.Market

/-! ## Fees of a location -/

/-- The amount that an answer of logistics offers, if it does. -/
def offered (q : Quote) : Option ℚ := q.outcome.toOption.map (FixedPoint.amountOf 5)

/-- The amounts that are offered for a location, in answer to some requests. -/
def offers (answer : LocationFeeRequest → Quote) (rs : List LocationFeeRequest) (seller : String) :
    Set ℚ :=
  {x | ∃ r ∈ rs, r.seller = seller ∧ offered (answer r) = some x}

/-- The fees that some answered requests leave: of each location the greatest. -/
structure Raised (answer : LocationFeeRequest → Quote) (rs : List LocationFeeRequest)
    (fees : KeyMap String Decimal) : Prop where
  greatest : ∀ {seller fee}, fees.get? seller = some fee →
    IsGreatest (offers answer rs seller) fee.value
  missing : ∀ {seller}, fees.get? seller = none → offers answer rs seller = ∅

variable {answer : LocationFeeRequest → Quote} {rs : List LocationFeeRequest}
  {fees : KeyMap String Decimal} {r : LocationFeeRequest}

theorem offers_append_of_ne {seller : String} (h : r.seller ≠ seller ∨ offered (answer r) = none) :
    offers answer (rs ++ [r]) seller = offers answer rs seller := by
  ext x
  simp only [offers, Set.mem_ofPred_eq, List.mem_append, List.mem_singleton, or_and_right,
    exists_or, exists_eq_left]
  refine or_iff_left ?_
  rintro ⟨hseller, hx⟩
  rcases h with hne | hnone
  · exact hne hseller
  · rw [hnone] at hx
    cases hx

theorem offers_append_of_some {x : ℚ} (h : offered (answer r) = some x) :
    offers answer (rs ++ [r]) r.seller = insert x (offers answer rs r.seller) := by
  ext y
  simp only [offers, Set.mem_ofPred_eq, Set.mem_insert_iff, List.mem_append, List.mem_singleton,
    or_and_right, exists_or, exists_eq_left, h, Option.some.injEq, true_and]
  exact or_comm.trans (or_congr_left eq_comm)

theorem offered_of_ok {q : Quote} {raw : Int64} (h : q.outcome = .ok raw) :
    offered q = some (FixedPoint.priceOfRaw raw).value := by
  rw [offered, h, FixedPoint.value_priceOfRaw]
  rfl

theorem offered_of_error {q : Quote} {detail : String} (h : q.outcome = .error detail) :
    offered q = none := by
  rw [offered, h]
  rfl

/-- An answer that offers a fee. -/
theorem Raised.raise (h : Raised answer rs fees) {fee : Decimal}
    (hfee : offered (answer r) = some fee.value) :
    Raised answer (rs ++ [r]) (raise fees r.seller fee) := by
  have hother : ∀ {seller : String}, r.seller ≠ seller →
      (Pricing.raise fees r.seller fee).get? seller = fees.get? seller := fun hne => by
    rw [Pricing.raise, KeyMap.get?_put, if_neg hne]
  constructor
  · intro seller d hd
    by_cases hseller : r.seller = seller
    · subst hseller
      rw [Pricing.raise, KeyMap.get?_put, if_pos rfl, Option.some.injEq] at hd
      rw [offers_append_of_some hfee, ← hd]
      cases hold : fees.get? r.seller with
      | none =>
        rw [h.missing hold]
        rw [insert_empty_eq]
        exact isGreatest_singleton
      | some old =>
        rw [Decimal.value_max, max_comm]
        exact (h.greatest hold).insert fee.value
    · rw [hother hseller] at hd
      rw [offers_append_of_ne (.inl hseller)]
      exact h.greatest hd
  · intro seller hnone
    by_cases hseller : r.seller = seller
    · subst hseller
      rw [Pricing.raise, KeyMap.get?_put, if_pos rfl] at hnone
      cases hnone
    · rw [hother hseller] at hnone
      rw [offers_append_of_ne (.inl hseller)]
      exact h.missing hnone

/-- An answer that offers none. -/
theorem Raised.refused (h : Raised answer rs fees) (hnone : offered (answer r) = none) :
    Raised answer (rs ++ [r]) fees where
  greatest hd := by
    rw [offers_append_of_ne (.inr hnone)]
    exact h.greatest hd
  missing hd := by
    rw [offers_append_of_ne (.inr hnone)]
    exact h.missing hd

/-- The fees that are left when all requests are answered. -/
theorem raised_dearest (answer : LocationFeeRequest → Quote) (rs : List LocationFeeRequest) :
    Raised answer rs (dearest rs (rs.map answer)) := by
  induction rs using List.reverseRecOn with
  | nil =>
    constructor
    · intro seller fee hd
      cases hd
    · intro seller _
      refine Set.eq_empty_iff_forall_notMem.mpr ?_
      rintro x ⟨r, hr, _⟩
      exact absurd hr List.not_mem_nil
  | append_singleton rs r ih =>
    have hzip : (rs ++ [r]).zip ((rs ++ [r]).map answer)
        = rs.zip (rs.map answer) ++ [(r, answer r)] := by
      rw [List.map_append, List.zip_append (by rw [List.length_map])]
      rfl
    rw [dearest, hzip, List.foldl_append, List.foldl_cons, List.foldl_nil]
    cases hq : (answer r).outcome with
    | ok raw => exact ih.raise (offered_of_ok hq)
    | error detail => exact ih.refused (offered_of_error hq)

theorem offered_stored {q : Quote} {x : ℚ} (h : offered q = some x) :
    HasPlaces 5 x ∧ |x| ≤ feeBound := by
  obtain ⟨raw, _, rfl⟩ := Option.map_eq_some_iff.mp h
  exact ⟨FixedPoint.amountOf_hasPlaces 5 raw, FixedPoint.value_priceOfRaw raw ▸
    abs_priceOfRaw_le raw⟩

/-! ## Adding up stored fees -/

/-- Stored fees, few enough to be added up without rounding. -/
structure Addable (fees : List Decimal) : Prop where
  places : ∀ d ∈ fees, HasPlaces 5 d.value
  size : ∀ d ∈ fees, |d.value| ≤ feeBound
  few : fees.length < 2 ^ 32

theorem exists_foldlM_add {fees : List Decimal} (hplaces : ∀ d ∈ fees, HasPlaces 5 d.value)
    (hsize : ∀ d ∈ fees, |d.value| ≤ feeBound) (n : ℕ) (acc : Decimal)
    (hacc : HasPlaces 5 acc.value) (hbound : |acc.value| ≤ n * feeBound)
    (hfew : n + fees.length < 2 ^ 32) :
    ∃ total, fees.foldlM Decimal.add acc = .ok total ∧
      total.value = acc.value + (fees.map Decimal.value).sum := by
  induction fees generalizing n acc with
  | nil => exact ⟨acc, rfl, by simp⟩
  | cons d fees ih =>
    rw [List.length_cons] at hfew
    have hd := hplaces d List.mem_cons_self
    have hgrown : |acc.value + d.value| ≤ (n + 1 : ℕ) * feeBound := by
      have := (abs_add_le acc.value d.value).trans (add_le_add hbound (hsize d List.mem_cons_self))
      push_cast
      linarith
    have hroom : |acc.value + d.value| * 10 ^ 5 < limit := by
      have hcount : ((n + 1 : ℕ) : ℚ) ≤ 2 ^ 32 := by exact_mod_cast (by omega)
      refine abs_mul_pow_lt_limit hgrown ?_
      unfold feeBound
      linarith
    obtain ⟨next, hnext, hvalue⟩ := exists_add_eq (hacc.add hd) (by omega) hroom
    obtain ⟨total, htotal, hsum⟩ := ih (fun d' hd' => hplaces d' (List.mem_cons_of_mem d hd'))
      (fun d' hd' => hsize d' (List.mem_cons_of_mem d hd')) (n + 1) next
      (hvalue ▸ hacc.add hd) (hvalue ▸ hgrown) (by omega)
    refine ⟨total, ?_, ?_⟩
    · rw [List.foldlM_cons, hnext]
      exact htotal
    · rw [hsum, hvalue, List.map_cons, List.sum_cons, add_assoc]

theorem mean_eq {fees : List Decimal} {total : Decimal} (h : Decimal.sum fees = .ok total) :
    mean fees = total.div (.ofInt64 (Int64.ofNat fees.length)) := by
  rw [mean, h]
  rfl

namespace Addable

variable {fees fees' : List Decimal}

theorem exists_sum_eq (h : Addable fees) :
    ∃ total, Decimal.sum fees = .ok total ∧ total.value = (fees.map Decimal.value).sum := by
  obtain ⟨total, htotal, hsum⟩ := exists_foldlM_add h.places h.size 0 .zero
    (by rw [value_zero]; exact .zero) (by simp) (by rw [Nat.zero_add]; exact h.few)
  exact ⟨total, htotal, by rw [hsum, value_zero, zero_add]⟩

theorem value_count (h : Addable fees) :
    (Decimal.ofInt64 (Int64.ofNat fees.length)).value = fees.length := by
  have hfew := h.few
  rw [value_ofInt64, Int64.toInt_ofNat_of_lt (by omega)]
  rfl

/-- The mean is the exact one, rounded once. -/
theorem mean_settles (h : Addable fees) (hne : fees ≠ []) : ∃ m, mean fees = .ok m ∧
    Settles ((fees.map Decimal.value).sum / fees.length) 28 m.coeff m.scale := by
  obtain ⟨m, hm⟩ := exists_mean hne h.size (lt_trans h.few (by unfold memoryLimit; norm_num))
  obtain ⟨total, htotal, hvalue⟩ := h.exists_sum_eq
  have hcount : (fees.length : ℚ) ≠ 0 := by
    exact_mod_cast (List.length_pos_iff.mpr hne).ne'
  have hquot := mean_eq htotal
  rw [hm] at hquot
  have hsettles := settles_of_div (h.value_count ▸ hcount) hquot.symm
  rw [hvalue, h.value_count] at hsettles
  exact ⟨m, hm, hsettles⟩

theorem of_perm (h : Addable fees) (hperm : fees'.Perm fees) : Addable fees' where
  places d hd := h.places d (hperm.mem_iff.mp hd)
  size d hd := h.size d (hperm.mem_iff.mp hd)
  few := hperm.length_eq ▸ h.few

/-- It depends on the sum and the number of fees alone. -/
theorem mean_congr (h : Addable fees) (h' : Addable fees') (hne : fees ≠ [])
    (hsum : (fees.map Decimal.value).sum = (fees'.map Decimal.value).sum)
    (hlength : fees.length = fees'.length) : mean fees = mean fees' := by
  obtain ⟨total, htotal, hvalue⟩ := h.exists_sum_eq
  obtain ⟨total', htotal', hvalue'⟩ := h'.exists_sum_eq
  have hcount : (Decimal.ofInt64 (Int64.ofNat fees.length)).value ≠ 0 := by
    rw [h.value_count]
    exact_mod_cast (List.length_pos_iff.mpr hne).ne'
  rw [mean_eq htotal, mean_eq htotal', ← hlength]
  exact div_congr (hvalue.trans (hsum.trans hvalue'.symm)) (.refl _) hcount

/-- In any order the fees have one mean. -/
theorem mean_perm (h : Addable fees) (hne : fees ≠ []) (hperm : fees'.Perm fees) :
    mean fees' = mean fees :=
  (h.mean_congr (h.of_perm hperm) hne (hperm.map Decimal.value).sum_eq.symm
    hperm.length_eq.symm).symm

end Addable

/-! ## Locations that have a price -/

/-- The amounts that are offered for a location over some channels. -/
def routeFees (quote : String → Id → Quote) (channels : List Id) (seller : String) : Set ℚ :=
  {x | ∃ c ∈ channels, offered (quote seller c) = some x}

/-- The locations for which an amount is offered over some channel. -/
def pricedSellers (quote : String → Id → Quote) (sellers : List String) (channels : List Id) :
    Finset String :=
  sellers.toFinset.filter fun s => ∃ c ∈ channels, (offered (quote s c)).isSome = true

section

variable {quote : String → Id → Quote} {sellers sellers' : List String}
  {channels channels' : List Id} {seller : String}

theorem mem_pricedSellers : seller ∈ pricedSellers quote sellers channels ↔
    seller ∈ sellers ∧ (routeFees quote channels seller).Nonempty := by
  rw [pricedSellers, Finset.mem_filter, List.mem_toFinset]
  refine and_congr_right fun _ => ⟨?_, ?_⟩
  · rintro ⟨c, hc, hsome⟩
    obtain ⟨x, hx⟩ := Option.isSome_iff_exists.mp hsome
    exact ⟨x, c, hc, hx⟩
  · rintro ⟨x, c, hc, hx⟩
    exact ⟨c, hc, Option.isSome_of_mem hx⟩

theorem card_pricedSellers_le : (pricedSellers quote sellers channels).card ≤ sellers.length :=
  (Finset.card_filter_le _ _).trans sellers.toFinset_card_le

theorem routeFees_congr (h : ∀ c, c ∈ channels' ↔ c ∈ channels) :
    routeFees quote channels' seller = routeFees quote channels seller := by
  ext x
  exact exists_congr fun c => and_congr_left' (h c)

/-- Locations without a price do not count, nor does how often a location stands in the list. -/
theorem pricedSellers_congr (hchannels : ∀ c, c ∈ channels' ↔ c ∈ channels)
    (hsellers : ∀ s, (routeFees quote channels s).Nonempty → (s ∈ sellers' ↔ s ∈ sellers)) :
    pricedSellers quote sellers' channels' = pricedSellers quote sellers channels := by
  ext s
  rw [mem_pricedSellers, mem_pricedSellers, routeFees_congr hchannels]
  exact and_congr_left (hsellers s)

/-- A location is asked for over every channel. -/
theorem offers_locationRequests (answer : LocationFeeRequest → Quote) (region : Region)
    (buyer : String) (weight : Int64) :
    offers answer (locationRequests region sellers buyer channels weight) seller =
      {x | seller ∈ sellers ∧ x ∈ routeFees
        (fun s c => answer ⟨region, s, buyer, c, weight⟩) channels seller} := by
  ext x
  constructor
  · rintro ⟨r, hr, rfl, hx⟩
    obtain ⟨s, hs, hmap⟩ := List.mem_flatMap.mp hr
    obtain ⟨c, hc, rfl⟩ := List.mem_map.mp hmap
    exact ⟨hs, c, hc, hx⟩
  · rintro ⟨hs, c, hc, hx⟩
    exact ⟨_, List.mem_flatMap.mpr ⟨seller, hs, List.mem_map.mpr ⟨c, hc, rfl⟩⟩, rfl, hx⟩

end

/-! ## The mean -/

section

/-- What the fees of locations have to do with what was offered. -/
structure Collected (quote : String → Id → Quote) (sellers : List String) (channels : List Id)
    (fees : KeyMap String Decimal) : Prop where
  keys : fees.keys.toFinset = pricedSellers quote sellers channels
  greatest : ∀ {seller fee}, fees.get? seller = some fee →
    IsGreatest (routeFees quote channels seller) fee.value

theorem collected_dearest (answer : LocationFeeRequest → Quote) (region : Region)
    (sellers : List String) (buyer : String) (channels : List Id) (weight : Int64) :
    let rs := locationRequests region sellers buyer channels weight
    Collected (fun s c => answer ⟨region, s, buyer, c, weight⟩) sellers channels
      (dearest rs (rs.map answer)) := by
  intro rs
  have hraised := raised_dearest answer rs
  have hoffers : ∀ {seller : String} {fee : Decimal},
      (dearest rs (rs.map answer)).get? seller = some fee → seller ∈ sellers ∧
        IsGreatest (routeFees (fun s c => answer ⟨region, s, buyer, c, weight⟩) channels seller)
          fee.value := by
    intro seller fee hfee
    have hgreatest := hraised.greatest hfee
    rw [offers_locationRequests] at hgreatest
    obtain ⟨⟨hseller, hmem⟩, hupper⟩ := hgreatest
    exact ⟨hseller, hmem, fun x hx => hupper ⟨hseller, hx⟩⟩
  refine ⟨?_, fun hfee => (hoffers hfee).2⟩
  ext seller
  rw [List.mem_toFinset, mem_pricedSellers]
  cases hfee : (dearest rs (rs.map answer)).get? seller with
  | some fee =>
    obtain ⟨hseller, hmem, _⟩ := hoffers hfee
    refine iff_of_true ?_ ⟨hseller, _, hmem⟩
    by_contra hnot
    rw [KeyMap.get?_eq_none_iff.mpr hnot] at hfee
    cases hfee
  | none =>
    refine iff_of_false (KeyMap.get?_eq_none_iff.mp hfee) ?_
    rintro ⟨hseller, x, hx⟩
    have hnone := hraised.missing hfee
    rw [offers_locationRequests] at hnone
    exact Set.eq_empty_iff_forall_notMem.mp hnone x ⟨hseller, hx⟩

namespace Collected

variable {quote : String → Id → Quote} {sellers : List String} {channels : List Id}
  {fees : KeyMap String Decimal} (h : Collected quote sellers channels fees)

include h

theorem length_eq :
    (fees.entries.map Prod.snd).length = (pricedSellers quote sellers channels).card := by
  have hnodup : fees.keys.Nodup := fees.nodup
  rw [← h.keys, List.toFinset_card_of_nodup hnodup, KeyMap.keys, List.length_map, List.length_map]

theorem addable (hfew : sellers.length < 2 ^ 32) : Addable (fees.entries.map Prod.snd) := by
  have hstored : ∀ d ∈ fees.entries.map Prod.snd, HasPlaces 5 d.value ∧ |d.value| ≤ feeBound := by
    intro d hd
    obtain ⟨e, he, rfl⟩ := List.mem_map.mp hd
    obtain ⟨c, _, hx⟩ := (h.greatest (KeyMap.get?_of_mem he)).1
    exact offered_stored hx
  refine ⟨fun d hd => (hstored d hd).1, fun d hd => (hstored d hd).2, ?_⟩
  rw [h.length_eq]
  exact lt_of_le_of_lt card_pricedSellers_le hfew

/-- Every location that has a price has a greatest one. -/
theorem exists_greatest : ∃ top : String → ℚ, ∀ s ∈ pricedSellers quote sellers channels,
    IsGreatest (routeFees quote channels s) (top s) := by
  refine ⟨fun s => ((fees.get? s).map Decimal.value).getD 0, fun s hs => ?_⟩
  rw [← h.keys, List.mem_toFinset] at hs
  obtain ⟨fee, hfee⟩ := Option.ne_none_iff_exists'.mp
    fun hnone => KeyMap.get?_eq_none_iff.mp hnone hs
  show IsGreatest _ (((fees.get? s).map Decimal.value).getD 0)
  rw [hfee]
  exact h.greatest hfee

theorem sum_eq {top : String → ℚ} (htop : ∀ s ∈ pricedSellers quote sellers channels,
    IsGreatest (routeFees quote channels s) (top s)) :
    ((fees.entries.map Prod.snd).map Decimal.value).sum
      = ∑ s ∈ pricedSellers quote sellers channels, top s := by
  have hnodup : fees.keys.Nodup := fees.nodup
  rw [← h.keys] at htop ⊢
  rw [List.sum_toFinset _ hnodup, KeyMap.keys, List.map_map, List.map_map]
  congr 1
  refine List.map_congr_left fun e he => ?_
  exact (h.greatest (KeyMap.get?_of_mem he)).unique
    (htop e.1 (List.mem_toFinset.mpr (List.mem_map_of_mem he)))

theorem isEmpty_iff :
    fees.entries.isEmpty = true ↔ pricedSellers quote sellers channels = ∅ := by
  rw [← h.keys, List.toFinset_eq_empty_iff, KeyMap.keys, List.map_eq_nil_iff, List.isEmpty_iff]

theorem ne_nil (hsome : pricedSellers quote sellers channels ≠ ∅) :
    fees.entries.map Prod.snd ≠ [] := by
  rw [ne_eq, List.map_eq_nil_iff, ← List.isEmpty_iff, h.isEmpty_iff]
  exact hsome

theorem meanFee_eq (hsome : pricedSellers quote sellers channels ≠ ∅) (count : ℕ)
    (buyer : String) : meanFee count buyer fees = mean (fees.entries.map Prod.snd) :=
  if_neg (mt h.isEmpty_iff.mp hsome)

end Collected

variable {σ : Type} {call : List LocationFeeRequest → Call σ (List Quote)}
  {answer : LocationFeeRequest → Quote}

/-- Where logistics answers request by request, the fee is the mean over what is left. -/
theorem warehouseFee_eq (hcall : ∀ rs c, (call rs c).1 = .ok (rs.map answer)) (region : Region)
    {sellers : List String} (buyer : String) {channels : List Id} (weight : Int64)
    (hsellers : sellers ≠ []) (hchannels : channels ≠ []) (c : σ) :
    (warehouseFee call region sellers buyer channels weight c).1 =
      meanFee sellers.length buyer (dearest (locationRequests region sellers buyer channels weight)
        ((locationRequests region sellers buyer channels weight).map answer)) := by
  generalize hrs : locationRequests region sellers buyer channels weight = rs
  have hne : rs.isEmpty = false := by
    obtain ⟨seller, hseller⟩ := List.exists_mem_of_ne_nil sellers hsellers
    obtain ⟨channel, hchannel⟩ := List.exists_mem_of_ne_nil channels hchannels
    rw [List.isEmpty_eq_false_iff, ← hrs]
    exact List.ne_nil_of_mem (List.mem_flatMap.mpr ⟨seller, hseller,
      List.mem_map.mpr ⟨channel, hchannel, rfl⟩⟩)
  unfold warehouseFee
  simp only [hrs, hne]
  show warehouseFeeOf sellers.length buyer rs (call rs c).1 = _
  rw [hcall, warehouseFeeOf, if_pos (List.length_map _)]

/-- The fee for parcels that leave from several locations, where logistics answers each request
by itself. Without any offer there is none. Else it is the exact mean, rounded once, of the
greatest amounts of the locations for which any is offered, in whichever order these are added
up. The same locations with a price make the same fee, whatever their order and however often
they stand in the list, and so do the same channels; only the message that there is none counts
the locations as they stand. -/
theorem warehouseFee_mean (hcall : ∀ rs c, (call rs c).1 = .ok (rs.map answer)) (region : Region)
    (sellers : List String) (buyer : String) (channels : List Id) (weight : Int64)
    (hsellers : sellers ≠ []) (hchannels : channels ≠ []) (hfew : sellers.length < 2 ^ 32) (c : σ) :
    let quote seller channel := answer ⟨region, seller, buyer, channel, weight⟩
    let priced := pricedSellers quote sellers channels
    let rs := locationRequests region sellers buyer channels weight
    let fee := (warehouseFee call region sellers buyer channels weight c).1
    (priced = ∅ → fee = throw ⟨.calculateHiddenFee, "no route from any of " ++
      Text.numeral sellers.length ++ " seller locations to " ++ buyer⟩) ∧
    (priced ≠ ∅ → ∃ (m : Decimal) (top : String → ℚ), fee = pure m ∧
      (∀ s ∈ priced, IsGreatest (routeFees quote channels s) (top s)) ∧
      Settles ((∑ s ∈ priced, top s) / priced.card) 28 m.coeff m.scale ∧
      ∀ fees, fees.Perm ((dearest rs (rs.map answer)).entries.map Prod.snd) →
        mean fees = .ok m) ∧
    ∀ sellers' channels' c', sellers'.length < 2 ^ 32 → (∀ ch, ch ∈ channels' ↔ ch ∈ channels) →
      (∀ s, (routeFees quote channels s).Nonempty → (s ∈ sellers' ↔ s ∈ sellers)) →
      priced ≠ ∅ ∨ sellers'.length = sellers.length →
        (warehouseFee call region sellers' buyer channels' weight c').1 = fee := by
  intro quote priced rs fee
  have hcollected : Collected quote sellers channels _ :=
    collected_dearest answer region sellers buyer channels weight
  have hfee : fee = meanFee sellers.length buyer _ :=
    warehouseFee_eq hcall region buyer weight hsellers hchannels c
  refine ⟨fun hnone => ?_, fun hsome => ?_, ?_⟩
  · rw [hfee, meanFee, if_pos (hcollected.isEmpty_iff.mpr hnone)]
  · obtain ⟨top, htop⟩ := hcollected.exists_greatest
    obtain ⟨m, hm, hsettles⟩ := (hcollected.addable hfew).mean_settles (hcollected.ne_nil hsome)
    rw [hcollected.sum_eq htop, hcollected.length_eq] at hsettles
    refine ⟨m, top, ?_, htop, hsettles, fun fees hfees => ?_⟩
    · rw [hfee, hcollected.meanFee_eq hsome, hm]
      rfl
    · rw [(hcollected.addable hfew).mean_perm (hcollected.ne_nil hsome) hfees, hm]
  · intro sellers' channels' c' hfew' hchannels' hsellers' hsame
    have hpriced : pricedSellers quote sellers' channels' = pricedSellers quote sellers channels :=
      pricedSellers_congr hchannels' hsellers'
    have hcollected' : Collected quote sellers' channels' _ :=
      collected_dearest answer region sellers' buyer channels' weight
    have hnonempty : sellers' ≠ [] := by
      rcases hsame with hsome | hlength
      · rintro rfl
        exact hsome (hpriced.symm.trans rfl)
      · rintro rfl
        exact hsellers (List.length_eq_zero_iff.mp hlength.symm)
    have hnonempty' : channels' ≠ [] := by
      obtain ⟨channel, hchannel⟩ := List.exists_mem_of_ne_nil channels hchannels
      exact List.ne_nil_of_mem ((hchannels' channel).mpr hchannel)
    rw [warehouseFee_eq hcall region buyer weight hnonempty hnonempty' c', hfee]
    by_cases hsome : priced = ∅
    · have hlength := hsame.resolve_left (not_not_intro hsome)
      rw [meanFee, meanFee, if_pos (hcollected'.isEmpty_iff.mpr (hpriced.trans hsome)),
        if_pos (hcollected.isEmpty_iff.mpr hsome), hlength]
    · obtain ⟨top, htop⟩ := hcollected.exists_greatest
      have htop' : ∀ s ∈ pricedSellers quote sellers' channels',
          IsGreatest (routeFees quote channels' s) (top s) := fun s hs => by
        rw [routeFees_congr hchannels']
        exact htop s (hpriced ▸ hs)
      rw [hcollected.meanFee_eq hsome, hcollected'.meanFee_eq (hpriced ▸ hsome)]
      refine congrArg _ ((hcollected'.addable hfew').mean_congr (hcollected.addable hfew)
        (hcollected'.ne_nil (hpriced ▸ hsome)) ?_ ?_)
      · rw [hcollected'.sum_eq htop', hcollected.sum_eq htop, hpriced]
      · rw [hcollected'.length_eq, hcollected.length_eq, hpriced]

end

/-- Logistics with routes from A over all channels, and from B over one. -/
def listedRoutes (r : LocationFeeRequest) : Quote :=
  if r.seller = "A" then .priced 200000
  else if r.seller = "B" ∧ r.channelId = 2 then .priced 500000
  else .failed "no route"

/-- Three locations, one without a price, and the two others in another order, one of them
twice. -/
theorem warehouseFee_mean_listed :
    let call : List LocationFeeRequest → Call Unit (List Quote) := fun rs u =>
      (.ok (rs.map listedRoutes), u)
    let priced := pricedSellers (fun s ch => listedRoutes ⟨.ofText "MY", s, "D", ch, 100⟩)
      ["A", "B", "C"] [1, 2]
    let fee sellers channels := (warehouseFee call (.ofText "MY") sellers "D" channels 100 ()).1
    priced = {"A", "B"} ∧
      (∃ (m : Decimal) (top : String → ℚ), fee ["A", "B", "C"] [1, 2] = pure m ∧
        Settles ((∑ s ∈ priced, top s) / priced.card) 28 m.coeff m.scale) ∧
      fee ["B", "A", "B"] [2, 1, 1] = fee ["A", "B", "C"] [1, 2] := by
  intro call priced fee
  have hpriced : priced = {"A", "B"} := by decide +kernel
  have hsome : priced ≠ ∅ := by
    rw [hpriced]
    exact Finset.insert_ne_empty _ _
  have hcall : ∀ rs u, (call rs u).1 = .ok (rs.map listedRoutes) := fun _ _ => rfl
  obtain ⟨_, hmean, hsame⟩ := warehouseFee_mean hcall (.ofText "MY") ["A", "B", "C"] "D" [1, 2]
    100 (by simp) (by simp) (by decide) ()
  obtain ⟨m, top, hm, _, hsettles, _⟩ := hmean hsome
  refine ⟨hpriced, ⟨m, top, hm, hsettles⟩, hsame ["B", "A", "B"] [2, 1, 1] () (by decide) ?_ ?_
    (.inl hsome)⟩
  · intro ch
    simp only [List.mem_cons, List.not_mem_nil, or_false]
    tauto
  · rintro s ⟨x, ch, _, hx⟩
    have hlisted : s = "A" ∨ s = "B" := by
      by_contra hnot
      rw [not_or] at hnot
      simp [listedRoutes, hnot, offered, Quote.outcome, Quote.failed, Except.toOption] at hx
    simp only [List.mem_cons, List.not_mem_nil, or_false]
    tauto

theorem meanFee_empty (count : ℕ) (buyer : String) : meanFee count buyer .empty =
    throw ⟨.calculateHiddenFee, "no route from any of " ++ Text.numeral count ++
      " seller locations to " ++ buyer⟩ := rfl

/-- Without any route the message counts a location as often as it stands in the list. -/
theorem noRoute_counts_sellers :
    let call : List LocationFeeRequest → Call Unit (List Quote) := fun rs u =>
      (.ok (rs.map fun _ => .failed "no route"), u)
    let fee sellers := (warehouseFee call (.ofText "MY") sellers "B" [7] 100 ()).1
    fee ["A", "A"] = throw ⟨.calculateHiddenFee, "no route from any of 2 seller locations to B"⟩ ∧
      fee ["A"] = throw ⟨.calculateHiddenFee, "no route from any of 1 seller locations to B"⟩ := by
  intro call fee
  have htwo : Text.numeral 2 = "2" := by decide +kernel
  have hone : Text.numeral 1 = "1" := by decide +kernel
  have hfee : fee ["A", "A"] = meanFee 2 "B" .empty := rfl
  have hfee' : fee ["A"] = meanFee 1 "B" .empty := rfl
  rw [hfee, hfee', meanFee_empty, meanFee_empty, htwo, hone]
  exact ⟨rfl, rfl⟩

end RegionPricing.Pricing
