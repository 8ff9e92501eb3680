import RegionPricing.Proofs.Pricing.StoredFactors

/-!
# Storing profit rates and limits

What an operation writes to the store is said by `Differs`: the limits stay, and the rates
but for some keys. Storing rates touches the tiers only afterwards, when the keys that were
written are deleted there (`setProfitRates_apply`), and so does storing a limit. What is
queued by then are limits, which storing rates does not write; so the tiers are up to date
with the new store (`setProfitRates_told`, `setLimit_told`).
-/

namespace RegionPricing.Pricing

open RegionPricing.Factor RegionPricing.Market RegionPricing.Batch

variable {σ : Type} {store store' : Store} {e e' : Env (Backing σ)}

/-- Nothing is queued. -/
abbrev Idle : String → String → Prop := fun _ _ => False

/-! ## Changes of the store -/

/-- A store with the same limits, and the same rates but for some keys. -/
structure Differs (keys : List MerchantShop) (store store' : Store) : Prop where
  limit : ∀ m, storedLimit store' m = storedLimit store m
  rate : ∀ k, k ∉ keys → storedProfitRate store' k = storedProfitRate store k

theorem Current.change {key text : String} (h : Current store key text)
    (hrate : ∀ k, key = rateSpace.tierKey k → storedProfitRate store' k = storedProfitRate store k)
    (hlimit : ∀ m, key = limitSpace.tierKey m → storedLimit store' m = storedLimit store m) :
    Current store' key text where
  rate k hk := by
    rw [hrate k hk]
    exact h.rate k hk
  limit m hm := by
    rw [hlimit m hm]
    exact h.limit m hm

/-- A text that is not under a key that was written stays up to date. -/
theorem Differs.current {keys : List MerchantShop} (h : Differs keys store store')
    {key text : String} (hc : Current store key text)
    (hkey : key ∉ keys.map rateSpace.tierKey) : Current store' key text := by
  refine hc.change (fun k hk => h.rate k fun hmem => ?_) fun m _ => h.limit m
  exact hkey (hk ▸ List.mem_map_of_mem hmem)

theorem whenOpen_ok {α : Type} {a b : α} (h : store.whenOpen a = .ok b) :
    store.isOpen = true ∧ a = b := by
  unfold Store.whenOpen at h
  split at h
  · exact ⟨by assumption, Except.ok.inj h⟩
  · cases h

theorem differs_putProfitRate {k : MerchantShop} {rate : Int64}
    (h : store.putProfitRate k rate = .ok store') : Differs [k] store store' := by
  obtain ⟨_, rfl⟩ := whenOpen_ok h
  refine ⟨fun _ => rfl, fun k' hk => ?_⟩
  have hne : ¬k = k' := fun heq => hk (heq ▸ List.mem_cons_self)
  simp only [storedProfitRate, fromStored, Store.profitRate?, Store.whenOpen, KeyMap.get?_put,
    if_neg hne]

theorem current_putLimit {l : ProfitRateLimit} (h : store.putLimit l = .ok store')
    {key text : String} (hc : Current store key text)
    (hkey : key ∉ [l.merchantId].map limitSpace.tierKey) : Current store' key text := by
  obtain ⟨_, rfl⟩ := whenOpen_ok h
  refine hc.change (fun _ _ => rfl) fun m hm => ?_
  have hne : ¬l.merchantId = m := by
    rintro rfl
    exact hkey (hm ▸ List.mem_cons_self)
  simp only [storedLimit, fromStored, Store.limit?, Store.whenOpen, KeyMap.get?_put, if_neg hne]

/-! ## Storing profit rates -/

/-- The environment with another store. -/
def withStore (e : Env (Backing σ)) (store : Store) : Env (Backing σ) :=
  { e with behind := { e.behind with store } }

/-- What storing a rate comes to, and the store after it. -/
def storeOne (limits : Answers Id ProfitRateLimit) (entry : ProfitRateEntry) (store : Store) :
    Outcome Unit × Store :=
  match checkLimit limits entry.merchantId entry.rate with
  | .ok () =>
    match store.putProfitRate ⟨entry.merchantId, entry.shopId⟩ entry.rate with
    | .ok store' => (.ok (), store')
    | .error f => (.error f, store)
  | .error f => (.error f, store)

/-- What storing rates one after the other comes to, and the store after it. -/
def storeAll (limits : Answers Id ProfitRateLimit) :
    List ProfitRateEntry → Store → List (Outcome Unit) × Store
  | [], store => ([], store)
  | entry :: es, store =>
    let first := storeOne limits entry store
    let rest := storeAll limits es first.2
    (first.1 :: rest.1, rest.2)

theorem writing_apply (write : Store → Outcome Store) (e : Env (Backing σ)) :
    writing write e =
      match write e.behind.store with
      | .ok store => (.ok (), withStore e store)
      | .error f => (.error f, e) := rfl

theorem storeProfitRate_apply (limits : Answers Id ProfitRateLimit) (entry : ProfitRateEntry)
    (e : Env (Backing σ)) :
    storeProfitRate limits entry e = ((storeOne limits entry e.behind.store).1,
      withStore e (storeOne limits entry e.behind.store).2) := by
  unfold storeProfitRate storeOne
  cases checkLimit limits entry.merchantId entry.rate with
  | error f => rfl
  | ok _ =>
    show writing _ e = _
    rw [writing_apply]
    dsimp only
    cases e.behind.store.putProfitRate ⟨entry.merchantId, entry.shopId⟩ entry.rate <;> rfl

/-- Storing rates touches no tier. -/
theorem mapM_storeProfitRate (limits : Answers Id ProfitRateLimit) (es : List ProfitRateEntry)
    (e : Env (Backing σ)) :
    es.mapM (storeProfitRate limits) e = ((storeAll limits es e.behind.store).1,
      withStore e (storeAll limits es e.behind.store).2) := by
  induction es generalizing e with
  | nil => rfl
  | cons entry es ih =>
    rw [List.mapM_cons, bind_apply, bind_apply, storeProfitRate_apply, ih]
    rfl

/-- In the store only the rates that were not refused are other ones. -/
theorem differs_storeAll (limits : Answers Id ProfitRateLimit) (es : List ProfitRateEntry)
    (store : Store) :
    Differs (storedKeys es (storeAll limits es store).1) store (storeAll limits es store).2 := by
  induction es generalizing store with
  | nil => exact ⟨fun _ => rfl, fun _ _ => rfl⟩
  | cons entry es ih =>
    have hrest := ih (storeOne limits entry store).2
    have hfirst : (∃ f, storeOne limits entry store = (.error f, store)) ∨ ∃ store',
        Differs [⟨entry.merchantId, entry.shopId⟩] store store' ∧
          storeOne limits entry store = (.ok (), store') := by
      unfold storeOne
      cases checkLimit limits entry.merchantId entry.rate with
      | error f => exact .inl ⟨f, rfl⟩
      | ok _ =>
        cases hput : store.putProfitRate ⟨entry.merchantId, entry.shopId⟩ entry.rate with
        | error f => exact .inl ⟨f, rfl⟩
        | ok store' => exact .inr ⟨store', differs_putProfitRate hput, rfl⟩
    unfold storeAll
    rcases hfirst with ⟨f, heq⟩ | ⟨store', hdiffers, heq⟩ <;> rw [heq] at hrest ⊢
    · -- a refused rate leaves the store, and its key is not among those stored
      exact hrest
    · refine ⟨fun m => (hrest.limit m).trans (hdiffers.limit m), fun k hk => ?_⟩
      obtain ⟨hne, hnot⟩ : k ≠ ⟨entry.merchantId, entry.shopId⟩ ∧
          k ∉ storedKeys es (storeAll limits es store').1 := not_or.mp (mt List.mem_cons.mpr hk)
      exact (hrest.rate k hnot).trans (hdiffers.rate k fun hmem => hne (List.mem_singleton.mp hmem))

theorem checkLimit_congr {limits limits' : Answers Id ProfitRateLimit} {m : Id}
    (h : limits.get? m = limits'.get? m) : checkLimit limits m = checkLimit limits' m := by
  funext rate
  unfold checkLimit Answers.lookup
  rw [h]

/-- Of the limits only those of the merchants count. -/
theorem storeAll_congr {limits limits' : Answers Id ProfitRateLimit} {es : List ProfitRateEntry}
    (h : ∀ entry ∈ es, limits.get? entry.merchantId = limits'.get? entry.merchantId)
    (store : Store) : storeAll limits es store = storeAll limits' es store := by
  induction es generalizing store with
  | nil => rfl
  | cons entry es ih =>
    have hfirst : storeOne limits entry store = storeOne limits' entry store := by
      unfold storeOne
      rw [checkLimit_congr (h entry List.mem_cons_self)]
    have hrest := ih (fun entry' hmem => h entry' (List.mem_cons_of_mem entry hmem))
      (storeOne limits' entry store).2
    rw [storeAll, storeAll, hfirst, hrest]

/-- Storing rates: the limits are looked up, the rates are stored one after the other, and
what was stored is forgotten. -/
theorem setProfitRates_apply (es : List ProfitRateEntry) {limits : Answers Id ProfitRateLimit}
    {e1 : Env (Backing σ)}
    (hf : profitRateLimits.fetch (es.map ProfitRateEntry.merchantId).eraseDups e = (limits, e1)) :
    setProfitRates es e = ((storeAll limits es e1.behind.store).1,
      if (storedKeys es (storeAll limits es e1.behind.store).1).isEmpty then
        withStore e1 (storeAll limits es e1.behind.store).2
      else (profitRates.forget (storedKeys es (storeAll limits es e1.behind.store).1)
        (withStore e1 (storeAll limits es e1.behind.store).2)).2) := by
  unfold setProfitRates
  rw [bind_apply, hf, bind_apply, mapM_storeProfitRate]
  cases (storedKeys es (storeAll limits es e1.behind.store).1).isEmpty <;> rfl

/-- A text of a limit that is up to date. -/
structure CurrentLimit (store : Store) (key text : String) : Prop where
  current : Current store key text
  apart : ∀ k : MerchantShop, key ≠ rateSpace.tierKey k

/-- Looking up limits queues nothing but limits. -/
theorem limits_fetched (h : UpToDate store Idle e) (keys : List Id) :
    UpToDate store (CurrentLimit store) (profitRateLimits.fetch keys e).2 ∧
      ∀ m ∈ keys, (profitRateLimits.fetch keys e).1.get? m = some (storedLimit store m) :=
  profitRateLimits_gives
    (fun m _ hl => ⟨current_limit hl, fun k hk => rateKey_ne_limitKey k m hk.symm⟩) keys e
    ⟨h.tiers.mono (fun _ _ _ hp => hp) fun _ _ _ hq => hq.elim, h.behind⟩

/-- What an operation comes to, and the store after it, are told by the store before it,
and it leaves the tiers up to date with the new store. -/
def Told {α : Type} (store : Store) (x : Session σ α) (a : α) (store' : Store) : Prop :=
  ∀ e, UpToDate store Idle e → (x e).1 = a ∧ UpToDate store' (Current store') (x e).2

theorem idle_current {σ : Type} {e : Env (Backing σ)} (h : UpToDate store Idle e) :
    UpToDate store (Current store) e :=
  ⟨h.tiers.mono (fun _ _ _ hp => hp) fun _ _ _ hq => hq.elim, h.behind⟩

section

variable {P Q : String → String → Prop} (h : e.Carries (fun _ => P) fun _ => Q)

include h

theorem forget_rates (keys : List MerchantShop) :
    (profitRates.forget keys e).2.Carries
        (fun _ key text => P key text ∧ key ∉ keys.map rateSpace.tierKey) (fun _ => Q) ∧
      (profitRates.forget keys e).2.behind = e.behind :=
  h.forget (s := rateSpace) (fun _ _ => rfl) keys

theorem forget_limits (keys : List Id) :
    (profitRateLimits.forget keys e).2.Carries
        (fun _ key text => P key text ∧ key ∉ keys.map limitSpace.tierKey) (fun _ => Q) ∧
      (profitRateLimits.forget keys e).2.behind = e.behind :=
  h.forget (s := limitSpace) (fun _ _ => rfl) keys

end

/-- Storing rates with the limits that are in the store. -/
def storeDirectly (es : List ProfitRateEntry) (store : Store) : List (Outcome Unit) × Store :=
  storeAll (.ofKeys (es.map ProfitRateEntry.merchantId).eraseDups (storedLimit store)) es store

theorem setProfitRates_told (store : Store) (es : List ProfitRateEntry) :
    Told store (setProfitRates es : Session σ _) (storeDirectly es store).1
      (storeDirectly es store).2 := by
  intro e h
  obtain ⟨hfetched, hlimits⟩ := limits_fetched h (es.map ProfitRateEntry.merchantId).eraseDups
  rcases hf : profitRateLimits.fetch (es.map ProfitRateEntry.merchantId).eraseDups e
    with ⟨limits, e1⟩
  rw [hf] at hfetched hlimits
  have hdirect : storeAll limits es store = storeDirectly es store :=
    storeAll_congr (fun entry hentry => by
      have hmem := mem_eraseDups_map ProfitRateEntry.merchantId hentry
      rw [hlimits _ hmem, Answers.get?_ofKeys, if_pos hmem]) store
  have hdiffers := differs_storeAll limits es store
  rw [setProfitRates_apply es hf, hfetched.behind, hdirect]
  rw [hdirect] at hdiffers
  generalize storeDirectly es store = r at hdiffers
  refine ⟨rfl, ?_⟩
  -- A limit that is queued is not under a key that was written.
  have hqueued : ∀ (_ : ℕ) key text, CurrentLimit store key text → Current r.2 key text := by
    intro _ key text hq
    refine hdiffers.current hq.current fun hmem => ?_
    obtain ⟨k, _, rfl⟩ := List.mem_map.mp hmem
    exact hq.apart k rfl
  split
  · rename_i hempty
    rw [List.isEmpty_iff.mp hempty] at hdiffers
    exact ⟨hfetched.tiers.mono (fun _ _ _ hp => hdiffers.current hp List.not_mem_nil) hqueued, rfl⟩
  · have hwritten : (withStore e1 r.2).Carries (fun _ => Current store)
        fun _ => CurrentLimit store := hfetched.tiers
    obtain ⟨hforgot, hbehind⟩ := forget_rates hwritten (storedKeys es r.1)
    exact ⟨hforgot.mono (fun _ _ _ hp => hdiffers.current hp.1 hp.2) hqueued,
      congrArg Backing.store hbehind⟩

theorem setLimit_told (store : Store) (l : ProfitRateLimit) :
    ∃ outcome store', Told store (setLimit l : Session σ _) outcome store' := by
  unfold setLimit
  split
  · exact ⟨_, store, fun e h => ⟨rfl, idle_current h⟩⟩
  · cases hput : store.putLimit l with
    | error f =>
      refine ⟨.error f, store, fun e h => ?_⟩
      rw [bind_apply, writing_apply, h.behind, hput]
      exact ⟨rfl, idle_current h⟩
    | ok store' =>
      refine ⟨.ok (), store', fun e h => ?_⟩
      rw [bind_apply, writing_apply, h.behind, hput]
      have hwritten : (withStore e store').Carries (fun _ => Current store) fun _ => Idle := h.tiers
      obtain ⟨hforgot, hbehind⟩ := forget_limits hwritten [l.merchantId]
      exact ⟨rfl, hforgot.mono (fun _ _ _ hp => current_putLimit hput hp.1 hp.2)
        (fun _ _ _ hq => hq.elim), congrArg Backing.store hbehind⟩

end RegionPricing.Pricing
