import RegionPricing.Proofs.Coherence
import RegionPricing.Proofs.Factor.Alone
import RegionPricing.Proofs.Factor.Overlap

/-!
# Profit rates that are stored while prices are converted

`rateAccess limits` is how single profit rates are read from the store and written to it,
checked against limits that were looked up before. Lookups of profit rates and updates of
them then overlap as `Traffic` says; alone, they come to what `profitRates` and
`setProfitRates` come to (`lookup_alone`, `update_alone`).

A lookup that overlaps with an update can put the old rate back into the caches: when it has
read what is stored before the update wrote (`old_rate_survives`), or when it finds the rate
in a far tier that is still to be cleared (`old_rate_copied`). Where neither happens, the new
rate is used from the end of the update on (`new_rate_used`).
-/

namespace RegionPricing.Pricing

open RegionPricing.Cache RegionPricing.Factor RegionPricing.Factor.Traffic RegionPricing.Market
open RegionPricing.Batch

variable {σ : Type} {limits : Answers Id ProfitRateLimit}

/-- How single profit rates are read and written. -/
def rateAccess (limits : Answers Id ProfitRateLimit) : Behind (Backing σ) MerchantShop Int64 where
  read b := storedProfitRate b.store
  write k rate b := do
    checkLimit limits k.merchantId rate
    let store ← b.store.putProfitRate k rate
    return { b with store }

/-! ## Lookups and updates alone -/

theorem lookup_alone (t : Traffic (Backing σ) MerchantShop Int64) {n : ℕ} {keys : List MerchantShop}
    (hl : t.lookups[n]? = some (.descending [] keys)) :
    ∃ m, Traffic.run rateSpace (rateAccess limits) t (List.replicate m (.look n)) = some { t with
      env := (profitRates.fetch keys t.env).2
      lookups := t.lookups.set n (.returning [] (profitRates.fetch keys t.env).1) } :=
  run_look t hl

/-- The key and the rate of an entry. -/
def ratePair (entry : ProfitRateEntry) : MerchantShop × Int64 :=
  (⟨entry.merchantId, entry.shopId⟩, entry.rate)

/-- Writing a rate is storing it. -/
theorem write_cases (limits : Answers Id ProfitRateLimit) (entry : ProfitRateEntry)
    (b : Backing σ) :
    (∃ store, storeOne limits entry b.store = (.ok (), store) ∧
      (rateAccess limits).write ⟨entry.merchantId, entry.shopId⟩ entry.rate b
        = .ok { b with store }) ∨
    ∃ f, storeOne limits entry b.store = (.error f, b.store) ∧
      (rateAccess limits).write ⟨entry.merchantId, entry.shopId⟩ entry.rate b = .error f := by
  simp only [storeOne, rateAccess]
  cases checkLimit limits entry.merchantId entry.rate with
  | error f => exact .inr ⟨f, rfl, rfl⟩
  | ok _ =>
    cases b.store.putProfitRate ⟨entry.merchantId, entry.shopId⟩ entry.rate with
    | ok store => exact .inl ⟨store, rfl, rfl⟩
    | error f => exact .inr ⟨f, rfl, rfl⟩

theorem writeAll_rates (es : List ProfitRateEntry) (b : Backing σ) :
    (rateAccess limits).writeAll (es.map ratePair) b
      = (storedKeys es (storeAll limits es b.store).1,
        { b with store := (storeAll limits es b.store).2 }) := by
  induction es generalizing b with
  | nil => rfl
  | cons entry es ih =>
    rw [List.map_cons, ratePair, Behind.writeAll, storeAll]
    rcases write_cases limits entry b with ⟨store, hstore, hwrite⟩ | ⟨f, hstore, hwrite⟩
    · have hrest := ih { b with store }
      rw [hwrite, hstore]
      dsimp only
      rw [hrest]
      rfl
    · rw [hwrite, hstore]
      exact ih b

/-- An update alone, after its limits have been looked up, does what `setProfitRates` does. -/
theorem update_alone (t : Traffic (Backing σ) MerchantShop Int64) {n : ℕ}
    {es : List ProfitRateEntry} {e : Env (Backing σ)}
    (hf : profitRateLimits.fetch (es.map ProfitRateEntry.merchantId).eraseDups e = (limits, t.env))
    (hu : t.updates[n]? = some (.writing (es.map ratePair) [])) :
    ∃ m, Traffic.run rateSpace (rateAccess limits) t (List.replicate m (.proceed n)) = some { t with
      env := (setProfitRates es e).2
      updates := t.updates.set n (.deleting []) } := by
  obtain ⟨m, hm⟩ := run_proceed (s := rateSpace) (b := rateAccess limits) t hu
  refine ⟨m, hm.trans ?_⟩
  -- both write one rate after the other and then delete what they have written
  rw [setProfitRates_apply es hf, writeAll_rates]
  split
  · rename_i hempty
    rw [List.isEmpty_iff.mp hempty]
    -- no tier is touched when nothing was stored
    have hnothing := forget_nil (s := rateSpace) (b := rateAccess limits) t.env.tiers.length 0
      (withStore t.env (storeAll limits es t.env.behind.store).2)
    exact congrArg (fun r : Unit × Env (Backing σ) => some { t with
      env := r.2
      updates := t.updates.set n (.deleting []) }) hnothing
  · rfl

/-! ## Rates that are written -/

theorem putProfitRate_of_write {k : MerchantShop} {rate : Int64} {b b' : Backing σ}
    (h : (rateAccess limits).write k rate b = .ok b') :
    ∃ store, b.store.putProfitRate k rate = .ok store ∧ b' = { b with store } := by
  simp only [rateAccess] at h
  cases hcheck : checkLimit limits k.merchantId rate with
  | error f =>
    rw [hcheck] at h
    cases h
  | ok _ =>
    rw [hcheck, ok_bind] at h
    cases hput : b.store.putProfitRate k rate with
    | error f =>
      rw [hput] at h
      cases h
    | ok store =>
      rw [hput] at h
      cases h
      exact ⟨store, rfl, rfl⟩

theorem rateAccess_lawful : (rateAccess limits : Behind (Backing σ) _ _).Lawful where
  written h := by
    obtain ⟨store, hput, rfl⟩ := putProfitRate_of_write h
    obtain ⟨hopen, rfl⟩ := whenOpen_ok hput
    simp only [rateAccess, storedProfitRate, fromStored, Store.profitRate?, Store.whenOpen,
      KeyMap.get?_put, hopen, if_true, id]
  other h k' hk := by
    obtain ⟨store, hput, rfl⟩ := putProfitRate_of_write h
    exact (differs_putProfitRate hput).rate k' fun hmem => hk (List.mem_singleton.mp hmem)

section

variable {store : Store} {k : MerchantShop} {rate : Int64}

theorem isOpen_has : IsOpen (Has rateSpace k rate) := by
  intro name h rest text hk
  have hkey : name ++ ":" ++ rest = "profit_rate" ++ ":" ++ keyText k := hk
  exact absurd (name_of_key h.1 (by decide) hkey) h.2.1

/-- Tiers whose entries of a key have the rate in the store give this rate. -/
theorem profitRates_has (hstored : storedProfitRate store k = .ok rate) :
    (profitRates : Source (Backing σ) MerchantShop Int64).Gives
      (Before store (Has rateSpace k rate) (Has rateSpace k rate))
      fun k' o => k' = k → o = some (.ok rate) := by
  have hfits : Fits (Has rateSpace k rate) (Has rateSpace k rate) rateSpace
      fun k' o => k' = k → o = some (.ok rate) := by
    refine ⟨fun k' raw v hraw hv hk => ?_, fun k' o ho hk => ?_, fun k' v hv heq => ?_⟩
    · subst hk
      rw [hraw rfl, decode_rate] at hv
      rw [Option.some.inj hv]
    · rw [ho hk, Option.getD_some]
    · rw [Except.ok.inj (Option.some.inj (hv (rateKey_injective heq)))]
  refine .through hfits fun keys =>
    (fromStore_gives _ _ _ keys).mono fun answers h k' hk' heq => ?_
  subst heq
  rw [h k' hk']
  exact congrArg some hstored

theorem profitRateLimits_has :
    (profitRateLimits : Source (Backing σ) Id ProfitRateLimit).Gives
      (Before store (Has rateSpace k rate) (Has rateSpace k rate)) fun _ _ => True :=
  fun keys => (safe_through (fun m _ hk => absurd hk.symm (rateKey_ne_limitKey k m))
    (safe_fetch (fromStore_gives _ _ _)) keys).mono fun _ _ _ _ => trivial

end

/-! ## A lookup and an update of one rate -/

open Engine in
/-- A stored rate behind two empty tiers. -/
def stillTraffic : Traffic (Backing Calls) MerchantShop Int64 where
  env := ⟨0, [.inMemory 100 60000 .asWritten, .inMemory 100 60000 .asWritten],
    ⟨.none, { Store.empty with
      exchangeRates := .ofList [(conversionCorridor malaysianShop, 60000)]
      profitRates := .ofList [(⟨5, 50⟩, 12000)] }⟩⟩
  lookups := []
  updates := []

/-- What is known of the limit of the merchant, which has none. -/
def unlimited : Answers Id ProfitRateLimit := (profitRateLimits.fetch [5] stillTraffic.env).1

/-- A lookup reads what is stored, an update stores another rate and clears the tiers, and
the lookup returns through the tiers and has what it queued there written. -/
def overtaken : List (Event MerchantShop Int64) :=
  [.ask [⟨5, 50⟩], .look 0, .look 0, .look 0, .look 0, .look 0,
    .change [(⟨5, 50⟩, 10000)], .proceed 0, .proceed 0, .proceed 0, .proceed 0,
    .look 0, .look 0, .land 1 0, .land 0 0]

theorem overtaken_runs :
    (Traffic.run rateSpace (rateAccess unlimited) stillTraffic overtaken).isSome := by
  decide +kernel

open Engine in
/-- The old rate is put back into both tiers, and prices are converted with it. -/
theorem old_rate_survives :
    ∃ t, Traffic.run rateSpace (rateAccess unlimited) stillTraffic overtaken = some t ∧
      t.updates = [.deleting []] ∧ t.settled = true ∧
      storedProfitRate t.env.behind.store ⟨5, 50⟩ = .ok 10000 ∧
      (∀ tier ∈ t.env.tiers, (tier.read t.env.now ["profit_rate:5:50"]).1.get? "profit_rate:5:50"
        = some "12000") ∧
      (malaysianSetup.conversionFactors [malaysianQuery] t.env).1.profitRates.get? ⟨5, 50⟩
        = some (.ok 12000) := by
  refine ⟨Option.get _ overtaken_runs, (Option.some_get overtaken_runs).symm, ?_, ?_, ?_, ?_, ?_⟩
  · decide +kernel
  · decide +kernel
  · decide +kernel
  · decide +kernel
  · decide +kernel

/-- An update begins when only the far one of two tiers has the rate. -/
def halfCached : Traffic (Backing Calls) MerchantShop Int64 :=
  { stillTraffic with
    env := { stillTraffic.env with tiers := [.inMemory 100 60000 .asWritten,
      ⟨.expiring ((Expiring.empty 100 .asWritten).set 0 60000 "profit_rate:5:50" "12000"),
        60000, []⟩] }
    updates := [.writing [(⟨5, 50⟩, 10000)] []] }

/-- A lookup begins after the rate has been stored and the near tier cleared, and before the
far one is. -/
def askedBetween : List (Event MerchantShop Int64) :=
  [.proceed 0, .proceed 0, .proceed 0, .ask [⟨5, 50⟩], .look 0, .look 0, .proceed 0, .look 0,
    .look 0, .land 0 0]

theorem askedBetween_runs :
    (Traffic.run rateSpace (rateAccess unlimited) halfCached askedBetween).isSome := by
  decide +kernel

/-- With two tiers even a lookup that begins after the rate has been stored puts the old one
back, from the far tier into the near one. -/
theorem old_rate_copied :
    ∃ t, Traffic.run rateSpace (rateAccess unlimited) halfCached askedBetween = some t ∧
      t.updates = [.deleting []] ∧ t.settled = true ∧
      (profitRates.fetch [⟨5, 50⟩] t.env).1.get? ⟨5, 50⟩ = some (.ok 12000) := by
  refine ⟨Option.get _ askedBetween_runs, (Option.some_get askedBetween_runs).symm, ?_, ?_, ?_⟩
  · decide +kernel
  · decide +kernel
  · decide +kernel

/-! ## The new rate in whole runs -/

/-- A profit rate that is stored while others look profit rates up is used from then on: no
tier has or is about to get any other rate for its key, and every lookup and every conversion
finds the new one. When the caches began to be cleared, nothing else was queued and no lookup
held another rate for a tier; and if there are several tiers, none asked them for the key
while they were cleared. All other lookups overlap in any way. -/
theorem new_rate_used {t0 t1 t2 t3 : Traffic (Backing σ) MerchantShop Int64}
    {entries : List (MerchantShop × Int64)} {written : List MerchantShop} {k : MerchantShop}
    {rate : Int64} {es0 es1 es2 : List (Event MerchantShop Int64)}
    (hreliable : ∀ tier ∈ t0.env.tiers, tier.storage.Reliable)
    (hbegun : t0.updates = [.writing entries []])
    (h0 : Traffic.run rateSpace (rateAccess limits) t0 es0 = some t1)
    (hwritten : t1.updates = [.writing [] written]) (hk : k ∈ written)
    (hstored : storedProfitRate t1.env.behind.store k = .ok rate)
    (hquiet : Quiet rateSpace k rate t1)
    (hapart : t1.env.tiers.length ≤ 1 ∨
      (∀ l ∈ t1.lookups, ¬Asks k l) ∧ ∀ event ∈ es1, NoAsk k event)
    (h1 : Traffic.run rateSpace (rateAccess limits) t1 es1 = some t2)
    (hended : t2.updates = [.deleting []])
    (h2 : Traffic.run rateSpace (rateAccess limits) t2 es2 = some t3)
    (hchange : ∀ event ∈ es0 ++ es1 ++ es2, NoChange event) :
    (k, rate) ∈ entries ∧ storedProfitRate t3.env.behind.store k = .ok rate ∧
      (∀ tier ∈ t3.env.tiers,
        (∀ text, tier.storage.Shows (rateSpace.tierKey k) text → text = rateSpace.encode rate) ∧
        ∀ items ∈ tier.queued, ∀ item ∈ items,
          item.1 = rateSpace.tierKey k → item.2 = rateSpace.encode rate) ∧
      (∀ keys es t4 answers, k ∈ keys → (∀ event ∈ es, NoChange event) →
        Traffic.run rateSpace (rateAccess limits) t3 (.ask keys :: es) = some t4 →
        t4.lookups[t3.lookups.length]? = some (.returning [] answers) →
        answers.get? k = some (.ok rate)) ∧
      ∀ (s : Setup σ) (qs : List ConversionQuery) (q : ConversionQuery), q ∈ qs → profitKey q = k →
        (s.conversionFactors qs t3.env).1.profitRates.get? k = some (.ok rate) := by
  obtain ⟨hentry, hfresh⟩ := refreshed_of_quiet rateKey_injective (decode_rate rate)
    rateAccess_lawful hreliable hbegun h0 hwritten hk hstored hquiet hapart h1 hended h2 hchange
  have hvalue : storedProfitRate t3.env.behind.store k = .ok rate := hfresh.value
  refine ⟨hentry, hvalue, fun tier htier => ?_, fun keys es t4 answers hkeys hes hrun hl => ?_,
    fun s qs q hq hkey => ?_⟩
  · obtain ⟨i, ht⟩ := List.getElem?_of_mem htier
    have hcarries := hfresh.tiers i tier ht
    exact ⟨fun text hshows => hcarries.written _ text hshows rfl,
      fun items hitems item hitem => hcarries.queued items hitems item hitem⟩
  · exact hfresh.later_answer rateKey_injective (decode_rate rate) hkeys hrun hes hl
  · have hfactors := conversionFactors_keeps s isOpen_has (profitRates_has hvalue)
      profitRateLimits_has qs t3.env ⟨hfresh.tiers, rfl⟩
    subst hkey
    exact (hfactors.2 q hq).1 rfl

/-- The traffic when an update begins. -/
def begunTraffic : Traffic (Backing Calls) MerchantShop Int64 :=
  { stillTraffic with updates := [.writing [(⟨5, 50⟩, 10000)] []] }

/-- A lookup misses the key in both tiers, and the update writes. -/
def missThenWrite : List (Event MerchantShop Int64) :=
  [.ask [⟨5, 50⟩], .look 0, .look 0, .look 0, .proceed 0]

/-- The traffic when the update has written. -/
def writtenTraffic : Traffic (Backing Calls) MerchantShop Int64 :=
  (Traffic.run rateSpace (rateAccess unlimited) begunTraffic missThenWrite).get (by decide +kernel)

/-- The lookup reads what is stored while the tiers are cleared, and another key is asked for. -/
def readThenClear : List (Event MerchantShop Int64) :=
  [.proceed 0, .proceed 0, .look 0, .ask [⟨5, 51⟩], .look 1, .look 0, .proceed 0]

/-- The traffic when the tiers have been cleared. -/
def clearedTraffic : Traffic (Backing Calls) MerchantShop Int64 :=
  (Traffic.run rateSpace (rateAccess unlimited) writtenTraffic readThenClear).get
    (by decide +kernel)

/-- The lookup returns, and what it has queued is written. -/
def comeBack : List (Event MerchantShop Int64) := [.look 0, .look 0, .land 1 0, .land 0 0]

/-- The traffic when the tiers have been filled again. -/
def refilledTraffic : Traffic (Backing Calls) MerchantShop Int64 :=
  (Traffic.run rateSpace (rateAccess unlimited) clearedTraffic comeBack).get (by decide +kernel)

theorem writtenTraffic_quiet : Quiet rateSpace ⟨5, 50⟩ 10000 writtenTraffic where
  lookups := by decide +kernel
  queued := by decide +kernel

open Engine in
/-- The new rate is in both tiers, and prices are converted with it. -/
theorem new_rate_used_malaysian :
    storedProfitRate refilledTraffic.env.behind.store ⟨5, 50⟩ = .ok 10000 ∧
      (∀ tier ∈ refilledTraffic.env.tiers, ∀ text,
        tier.storage.Shows "profit_rate:5:50" text → text = "10000") ∧
      (malaysianSetup.conversionFactors [malaysianQuery] refilledTraffic.env).1.profitRates.get?
        ⟨5, 50⟩ = some (.ok 10000) := by
  have hreliable : ∀ tier ∈ begunTraffic.env.tiers, tier.storage.Reliable := by
    intro tier htier
    rcases List.mem_cons.mp htier with rfl | hlast
    · trivial
    · rw [List.mem_singleton.mp hlast]
      trivial
  have hwritten : Traffic.run rateSpace (rateAccess unlimited) begunTraffic missThenWrite
      = some writtenTraffic :=
    (Option.some_get _).symm
  have hcleared : Traffic.run rateSpace (rateAccess unlimited) writtenTraffic readThenClear
      = some clearedTraffic := (Option.some_get _).symm
  have hrefilled : Traffic.run rateSpace (rateAccess unlimited) clearedTraffic comeBack
      = some refilledTraffic := (Option.some_get _).symm
  have hupdate : writtenTraffic.updates = [.writing [] [⟨5, 50⟩]] := by decide +kernel
  have hapart : (∀ l ∈ writtenTraffic.lookups, ¬Asks (⟨5, 50⟩ : MerchantShop) l) ∧
      ∀ event ∈ readThenClear, NoAsk (⟨5, 50⟩ : MerchantShop) event := by decide +kernel
  obtain ⟨_, hstored, htiers, _, hprices⟩ := new_rate_used hreliable rfl hwritten hupdate
    List.mem_cons_self (by decide +kernel) writtenTraffic_quiet (.inr hapart) hcleared
    (by decide +kernel) hrefilled (by decide +kernel)
  have hkey : rateSpace.tierKey (⟨5, 50⟩ : MerchantShop) = "profit_rate:5:50" := by decide +kernel
  have hvalue : rateSpace.encode 10000 = "10000" := by decide +kernel
  rw [hkey, hvalue] at htiers
  exact ⟨hstored, fun tier htier => (htiers tier htier).1,
    hprices malaysianSetup [malaysianQuery] malaysianQuery List.mem_cons_self rfl⟩

end RegionPricing.Pricing
