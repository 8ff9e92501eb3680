import RegionPricing.Proofs.Engine
import RegionPricing.Proofs.Pricing.ConversionPrice
import RegionPricing.Proofs.Pricing.Storing

/-!
# Caches do not show

Profit rates and limits are cached when prices are converted, and they change when they are
stored. As long as they change only here, and what an operation queues is written before
the next operation, in any order, no cache shows: `caches_invisible` compares any run of
operations with the same run without tiers. The store is the same, rates and limits are
stored or refused alike, and converted prices are those from the rates and limits that are
in the store.

The invariant of a run is that the tiers hold only what is up to date (`UpToDate`), and each
operation is told by the store (`Told`): what it comes to, and the store after it.
-/

namespace RegionPricing.Engine

open RegionPricing.Factor RegionPricing.Market RegionPricing.Pricing RegionPricing.Batch
open RegionPricing.Rules

variable {σ : Type} {s : Setup σ} {store store' : Store} {e e' : Env (Backing σ)}

/-! ## The operations of the engine -/

theorem checked_told {α β : Type} [Checked α] {qs : List α} {answers : Session σ (Answers β)}
    (h : ∃ a store', Told store answers a store') :
    ∃ a store', Told store (checked s qs answers) a store' := by
  unfold checked
  split
  · exact ⟨_, store, fun e he => ⟨rfl, idle_current he⟩⟩
  · exact h

theorem setProfitRates_told (s : Setup σ) (store : Store) (es : List ProfitRateEntry) :
    ∃ a store', Told store (setProfitRates s es) a store' :=
  checked_told ⟨_, _, fun e he => by
    obtain ⟨houtcomes, hcurrent⟩ := Pricing.setProfitRates_told store es e he
    rw [bind_apply, houtcomes]
    exact ⟨rfl, hcurrent⟩⟩

theorem setLimit_told (store : Store) (l : ProfitRateLimit) :
    ∃ a store', Told store (setLimit l : Session σ _) a store' := by
  unfold setLimit
  split
  · exact ⟨_, store, fun e he => ⟨rfl, idle_current he⟩⟩
  · exact Pricing.setLimit_told store l

/-- The factors of a batch with profit rates and limits as a store has them. -/
def withStored (store : Store) (qs : List ConversionQuery) (factors : ConversionFactors) :
    ConversionFactors :=
  { factors with
    profitRates := .ofKeys (qs.map profitKey).eraseDups (storedProfitRate store)
    limits := .ofKeys (qs.map ConversionQuery.merchantId).eraseDups (storedLimit store) }

/-- Converted prices where profit rates and limits are read from a store, past the caches. -/
def pricesFrom (store : Store) (s : Setup σ) (w : Workers) (book : Book)
    (qs : List ConversionQuery) : Session σ (Answers Int64) :=
  checked s qs do
    let factors ← s.conversionFactors qs
    return .ok (dispatch w (conversionPrice book (withStored store qs factors)) qs)

theorem conversionPrice_withStored (book : Book) {qs : List ConversionQuery}
    {factors : ConversionFactors} (h : Direct store qs factors) {q : ConversionQuery}
    (hq : q ∈ qs) :
    conversionPrice book (withStored store qs factors) q = conversionPrice book factors q := by
  obtain ⟨hrate, hlimit⟩ := h q hq
  have hrate' : (withStored store qs factors).profitRates.lookup "profit rate" (profitKey q)
      = factors.profitRates.lookup "profit rate" (profitKey q) :=
    (Answers.lookup_ofKeys (mem_eraseDups_map profitKey hq)).trans
      (Answers.lookup_of_get? hrate).symm
  have hlimit' : checkLimit (withStored store qs factors).limits q.merchantId
      = checkLimit factors.limits q.merchantId := by
    refine checkLimit_congr ?_
    rw [hlimit, withStored, Answers.get?_ofKeys,
      if_pos (mem_eraseDups_map ConversionQuery.merchantId hq)]
  unfold conversionPrice
  rw [hrate', hlimit']
  rfl

/-- Prices of a batch are those from the rates and limits in the store. -/
theorem conversionPrices_direct (h : UpToDate store Idle e) (s : Setup σ) (w : Workers)
    (book : Book) (qs : List ConversionQuery) :
    (conversionPrices s w book qs e).1 = (pricesFrom store s w book qs e).1 ∧
      UpToDate store (Current store) (conversionPrices s w book qs e).2 := by
  cases hrefusal : refusal? s.maxBatch qs with
  | some r =>
    unfold conversionPrices pricesFrom checked
    rw [hrefusal]
    exact ⟨rfl, idle_current h⟩
  | none =>
    obtain ⟨hcurrent, hdirect⟩ := conversionFactors_current s qs e (idle_current h)
    rw [conversionPrices, pricesFrom, checked_eq hrefusal, checked_eq hrefusal, bind_apply,
      bind_apply]
    rcases hf : s.conversionFactors qs e with ⟨factors, e1⟩
    rw [hf] at hcurrent hdirect
    refine ⟨congrArg Except.ok ?_, hcurrent⟩
    exact dispatch_congr fun q hq => (conversionPrice_withStored book hdirect hq).symm

/-! ## Prices within the limits -/

/-- The store has a profit rate for a query, and it keeps within the limit of the merchant if
the store has one. -/
def WithinLimit (store : Store) (q : ConversionQuery) : Prop :=
  ∃ rate, store.profitRates.get? (profitKey q) = some rate ∧
    ∀ limit, store.limits.get? q.merchantId = some limit → limit.contains rate = true

theorem profitRate_of_stored {k : MerchantShop} {rate : Int64}
    (h : storedProfitRate store k = .ok rate) :
    store.isOpen = true ∧ store.profitRates.get? k = some rate := by
  unfold storedProfitRate fromStored Store.profitRate? Store.whenOpen at h
  cases hopen : store.isOpen with
  | false =>
    rw [hopen] at h
    cases h
  | true =>
    rw [hopen, if_pos rfl] at h
    cases hget : store.profitRates.get? k with
    | none =>
      rw [hget] at h
      cases h
    | some rate' =>
      rw [hget] at h
      cases h
      exact ⟨rfl, rfl⟩

theorem storedLimit_of_get? (hopen : store.isOpen = true) {m : Id} {limit : ProfitRateLimit}
    (h : store.limits.get? m = some limit) : storedLimit store m = .ok limit := by
  unfold storedLimit fromStored Store.limit? Store.whenOpen
  rw [hopen, if_pos rfl, h]
  rfl

/-- A price needs a rate that passes the check. -/
theorem rate_of_conversionPrice {book : Book} {factors : ConversionFactors} {q : ConversionQuery}
    {price : Int64} (h : contained q (conversionPrice book factors q) = .ok price) :
    ∃ rate, factors.profitRates.lookup "profit rate" (profitKey q) = .ok rate ∧
      checkLimit factors.limits q.merchantId rate = .ok () := by
  -- each factor that fails to be there ends the evaluation
  have herror : ∀ f : Failure, contained q (ofExcept (.error f) : Evaluation Int64) ≠ .ok price :=
    fun f hf => by cases hf
  unfold conversionPrice at h
  cases hshop : ownedShop factors.shops q.merchantId q.shopId with
  | error f =>
    rw [hshop, ofExcept_error_bind] at h
    exact absurd h (herror f)
  | ok shop =>
    rw [hshop, ofExcept_ok_bind] at h
    cases hrate : factors.profitRates.lookup "profit rate" (profitKey q) with
    | error f =>
      rw [hrate, ofExcept_error_bind] at h
      exact absurd h (herror f)
    | ok rate =>
      rw [hrate, ofExcept_ok_bind] at h
      cases hcheck : checkLimit factors.limits q.merchantId rate with
      | error f =>
        rw [hcheck, ofExcept_error_bind] at h
        exact absurd h (herror f)
      | ok _ => exact ⟨rate, rfl, hcheck⟩

theorem contains_of_checkLimit {limits : Factor.Answers Id ProfitRateLimit} {m : Id} {rate : Int64}
    {limit : ProfitRateLimit} (h : checkLimit limits m rate = .ok ())
    (hlimit : limits.lookup "profit rate limit" m = .ok limit) : limit.contains rate = true := by
  unfold checkLimit at h
  rw [hlimit] at h
  by_contra hnot
  rw [Bool.not_eq_true] at hnot
  simp [hnot] at h

/-- Only a rate that the store has, and within the limit that it has, gives a price. -/
theorem withinLimit_of_price {book : Book} {qs : List ConversionQuery}
    {factors : ConversionFactors} {q : ConversionQuery} (hq : q ∈ qs) {price : Int64}
    (h : contained q (conversionPrice book (withStored store qs factors) q) = .ok price) :
    WithinLimit store q := by
  obtain ⟨rate, hrate, hcheck⟩ := rate_of_conversionPrice h
  rw [withStored, Answers.lookup_ofKeys (mem_eraseDups_map profitKey hq)] at hrate
  obtain ⟨hopen, hget⟩ := profitRate_of_stored hrate
  refine ⟨rate, hget, fun limit hlimit => contains_of_checkLimit hcheck ?_⟩
  rw [withStored, Answers.lookup_ofKeys (mem_eraseDups_map ConversionQuery.merchantId hq),
    storedLimit_of_get? hopen hlimit]

theorem pricesFrom_within {w : Workers} {book : Book} {qs : List ConversionQuery}
    {answers : List (Answer Int64)} (h : (pricesFrom store s w book qs e).1 = .ok (.ok answers)) :
    List.Forall₂ (fun q a => ∀ price, a.outcome = .ok price → WithinLimit store q) qs answers := by
  cases hrefusal : refusal? s.maxBatch qs with
  | some r =>
    unfold pricesFrom checked at h
    rw [hrefusal] at h
    cases h
  | none =>
    rw [pricesFrom, checked_eq hrefusal, bind_apply] at h
    rcases hf : s.conversionFactors qs e with ⟨factors, e1⟩
    rw [hf] at h
    have hdispatch : dispatch w (conversionPrice book (withStored store qs factors)) qs
        = .ok answers := Except.ok.inj h
    rcases dispatch_cases w qs with ⟨f, hf⟩ | hok
    · rw [hf] at hdispatch
      cases hdispatch
    · rw [hok] at hdispatch
      obtain rfl := Except.ok.inj hdispatch
      rw [List.forall₂_map_right_iff]
      exact List.forall₂_same.mpr fun q hq price hprice => withinLimit_of_price hq hprice

/-! ## Runs -/

/-- What is done with the engine. -/
inductive Operation where
  | price (w : Workers) (book : Book) (qs : List ConversionQuery)
  | setRates (es : List ProfitRateEntry)
  | setLimit (l : ProfitRateLimit)
  | wait (millis : ℕ)

/-- The environment after an operation, with what the operation has queued. -/
def perform (s : Setup σ) (e : Env (Backing σ)) : Operation → Env (Backing σ)
  | .price w book qs => (conversionPrices s w book qs e).2
  | .setRates es => (setProfitRates s es e).2
  | .setLimit l => (Engine.setLimit l e).2
  | .wait millis => e.advance millis

/-- An operation, and the queued batches that are written first after it, by the levels of
their tiers and their places in the queues. The others are written after them. -/
structure Turn where
  operation : Operation
  first : List (ℕ × ℕ)

/-- The environment after some queued batches have been written, where they are there. -/
def landAll (e : Env (Backing σ)) (batches : List (ℕ × ℕ)) : Env (Backing σ) :=
  batches.foldl (fun e batch => (Traffic.landed e batch.1 batch.2).getD e) e

/-- The environment after a turn: all that was queued has been written. -/
def after (s : Setup σ) (e : Env (Backing σ)) (t : Turn) : Env (Backing σ) :=
  (landAll (perform s e t.operation) t.first).settle

def afterAll (s : Setup σ) (e : Env (Backing σ)) (ts : List Turn) : Env (Backing σ) :=
  ts.foldl (after s) e

theorem landAll_current (h : UpToDate store (Current store) e) (batches : List (ℕ × ℕ)) :
    UpToDate store (Current store) (landAll e batches) := by
  induction batches generalizing e with
  | nil => exact h
  | cons batch batches ih =>
    show UpToDate store (Current store)
      (landAll ((Traffic.landed e batch.1 batch.2).getD e) batches)
    cases hlanded : Traffic.landed e batch.1 batch.2 with
    | none => exact ih h
    | some e1 =>
      refine ih ⟨h.tiers.landed (fun _ _ _ hq => hq) hlanded, ?_⟩
      obtain ⟨t, t', _, _, rfl⟩ := Env.landed_eq_some hlanded
      exact h.behind

theorem settle_idle (h : UpToDate store (Current store) e) : UpToDate store Idle e.settle :=
  ⟨h.tiers.settle fun _ _ _ hq => hq, h.behind⟩

/-- One turn leaves two environments with the same store, and their tiers up to date. -/
theorem after_agree (h : UpToDate store Idle e) (h' : UpToDate store Idle e') (s : Setup σ)
    (t : Turn) :
    ∃ store', UpToDate store' Idle (after s e t) ∧ UpToDate store' Idle (after s e' t) := by
  suffices hperform : ∃ store', UpToDate store' (Current store') (perform s e t.operation) ∧
      UpToDate store' (Current store') (perform s e' t.operation) by
    obtain ⟨store', hfirst, hsecond⟩ := hperform
    exact ⟨store', settle_idle (landAll_current hfirst t.first),
      settle_idle (landAll_current hsecond t.first)⟩
  -- an operation is told by the store, which is the same on both sides
  cases t.operation with
  | price w book qs =>
    exact ⟨store, (conversionPrices_direct h s w book qs).2,
      (conversionPrices_direct h' s w book qs).2⟩
  | setRates es =>
    obtain ⟨_, store', htold⟩ := setProfitRates_told s store es
    exact ⟨store', (htold e h).2, (htold e' h').2⟩
  | setLimit l =>
    obtain ⟨_, store', htold⟩ := setLimit_told (σ := σ) store l
    exact ⟨store', (htold e h).2, (htold e' h').2⟩
  | wait millis =>
    exact ⟨store, ⟨(idle_current h).tiers, h.behind⟩, ⟨(idle_current h').tiers, h'.behind⟩⟩

theorem afterAll_agree (h : UpToDate store Idle e) (h' : UpToDate store Idle e') (s : Setup σ)
    (ts : List Turn) :
    ∃ store', UpToDate store' Idle (afterAll s e ts) ∧ UpToDate store' Idle (afterAll s e' ts) := by
  induction ts generalizing store e e' with
  | nil => exact ⟨store, h, h'⟩
  | cons t ts ih =>
    obtain ⟨store', hfirst, hsecond⟩ := after_agree h h' s t
    exact ih hfirst hsecond

/-- The environment without its tiers. -/
def bare (e : Env (Backing σ)) : Env (Backing σ) := { e with tiers := [] }

/-- After any run, profit rates and limits are found, stored and refused as they are without
any tiers, and only rates within the limits in the store give prices. -/
theorem caches_invisible (s : Setup σ) (e : Env (Backing σ)) (h : ∀ t ∈ e.tiers, t.Fresh)
    (ts : List Turn) :
    (afterAll s e ts).behind.store = (afterAll s (bare e) ts).behind.store ∧
    (∀ es, (setProfitRates s es (afterAll s e ts)).1
      = (setProfitRates s es (afterAll s (bare e) ts)).1) ∧
    (∀ l, (Engine.setLimit l (afterAll s e ts)).1
      = (Engine.setLimit l (afterAll s (bare e) ts)).1) ∧
    ∀ w book qs,
      (conversionPrices s w book qs (afterAll s e ts)).1
        = (pricesFrom (afterAll s (bare e) ts).behind.store s w book qs (afterAll s e ts)).1 ∧
      ∀ answers, (conversionPrices s w book qs (afterAll s e ts)).1 = .ok (.ok answers) →
        List.Forall₂ (fun q a => ∀ price, a.outcome = .ok price →
          WithinLimit (afterAll s (bare e) ts).behind.store q) qs answers := by
  have hcached : UpToDate e.behind.store Idle e :=
    ⟨fun _ t ht => (h t (List.mem_of_getElem? ht)).carries, rfl⟩
  have hbare : UpToDate e.behind.store Idle (bare e) :=
    ⟨fun _ t ht => absurd (List.mem_of_getElem? ht) List.not_mem_nil, rfl⟩
  -- from here on only the store counts, which both runs have reached
  obtain ⟨store, hcached, hbare⟩ := afterAll_agree hcached hbare s ts
  rw [hbare.behind]
  refine ⟨hcached.behind, fun es => ?_, fun l => ?_, fun w book qs => ?_⟩
  · obtain ⟨_, _, htold⟩ := setProfitRates_told s store es
    rw [(htold _ hcached).1, (htold _ hbare).1]
  · obtain ⟨_, _, htold⟩ := setLimit_told (σ := σ) store l
    rw [(htold _ hcached).1, (htold _ hbare).1]
  · have hdirect := (conversionPrices_direct hcached s w book qs).1
    refine ⟨hdirect, fun answers hanswers => ?_⟩
    rw [hdirect] at hanswers
    exact pricesFrom_within hanswers

/-! A rate is stored and a price is converted with it. Then a limit is stored that the rate
does not keep within, and a rate that does. -/

def malaysianSetup : Setup Calls :=
  scripted { (default : Script) with
    shops := .ofList [(50, malaysianShop)]
    commissions := .ofList [(50, ⟨1000, 500, 500⟩)] } 1 2

/-- Before a tier in memory and one that is out of order. -/
def malaysianEnv : Env (Backing Calls) :=
  ⟨0, [.inMemory 100 60000 .asWritten, ⟨.broken, 60000, []⟩],
    ⟨.none, { Store.empty with
      exchangeRates := .ofList [(conversionCorridor malaysianShop, 60000)] }⟩⟩

def malaysianTurns : List Turn :=
  [⟨.setRates [⟨1, 5, 50, 12000⟩], []⟩, ⟨.price .accepting .empty [malaysianQuery], [(0, 1)]⟩,
    ⟨.setLimit ⟨5, 1, 11000⟩, []⟩, ⟨.setRates [⟨1, 5, 50, 10000⟩], []⟩]

/-- The outcomes of a batch. -/
def outcomes? (r : Answers Int64) : Option (List (Outcome Int64)) :=
  r.toOption.bind fun o => o.toOption.map fun answers => answers.map Answer.outcome

theorem malaysianEnv_fresh : ∀ t ∈ malaysianEnv.tiers, t.Fresh := by
  intro t ht
  simp only [malaysianEnv, List.mem_cons, List.not_mem_nil, or_false] at ht
  rcases ht with rfl | rfl
  · exact ⟨rfl, .inr ⟨100, .asWritten, rfl⟩⟩
  · exact ⟨rfl, .inl rfl⟩

/-- The price is the one from the rate that was stored last. -/
theorem caches_invisible_malaysian :
    outcomes? (pricesFrom (afterAll malaysianSetup (bare malaysianEnv) malaysianTurns).behind.store
        malaysianSetup .accepting .empty [malaysianQuery]
        (afterAll malaysianSetup malaysianEnv malaysianTurns)).1 = some [.ok 11334000] ∧
      WithinLimit (afterAll malaysianSetup (bare malaysianEnv) malaysianTurns).behind.store
        malaysianQuery := by
  obtain ⟨_, _, _, hprices⟩ :=
    caches_invisible malaysianSetup malaysianEnv malaysianEnv_fresh malaysianTurns
  obtain ⟨hdirect, hwithin⟩ := hprices .accepting .empty [malaysianQuery]
  have hvalue : outcomes? (conversionPrices malaysianSetup .accepting .empty [malaysianQuery]
      (afterAll malaysianSetup malaysianEnv malaysianTurns)).1 = some [.ok 11334000] := by
    decide +kernel
  refine ⟨hdirect ▸ hvalue, ?_⟩
  generalize (conversionPrices malaysianSetup .accepting .empty [malaysianQuery]
    (afterAll malaysianSetup malaysianEnv malaysianTurns)).1 = r at hwithin hvalue
  rcases r with _ | _ | answers
  · cases hvalue
  · cases hvalue
  · have hmap : answers.map Answer.outcome = [.ok 11334000] := Option.some.inj hvalue
    rcases hwithin answers rfl with _ | ⟨hfirst, ⟨⟩⟩
    exact hfirst _ (List.cons.inj hmap).1

end RegionPricing.Engine
