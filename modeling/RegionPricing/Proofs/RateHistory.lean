import RegionPricing.Proofs.Batch.Refusal
import RegionPricing.Proofs.Engine
import RegionPricing.Proofs.Pricing.RateEntries

/-!
# Histories of profit rates and limits

Profit rates are stored in batches and limits one by one, in any order, and the store may be
closed for a while. Without cache tiers each call is told by the store: a batch is refused as a
whole or stored entry by entry (`BatchDone`), and a limit is refused or put in place of the old
one (`LimitDone`). What is refused leaves the store as it is.

By induction over the calls, every limit and every rate in the store is in bounds (`Sound`), and
every rate kept within the limit of its merchant when it was stored (`StoredWithinLimit`).
-/

namespace RegionPricing.Engine

open RegionPricing.Factor RegionPricing.Market RegionPricing.Pricing RegionPricing.Batch

/-! ## One call -/

/-- The answers to entries. -/
def entryAnswers (es : List ProfitRateEntry) (outcomes : List (Outcome Unit)) :
    List (Answer Unit) :=
  (es.zip outcomes).map fun e => answerTo e.1 e.2

/-- What storing a batch comes to, and the store after it. A batch is refused as a whole, or
its entries are stored one after the other; then each row holds the rate of the last entry that
was taken for it, and the rest of the store is as it was. -/
inductive BatchDone (limit : ℕ) (es : List ProfitRateEntry) (store : Store) :
    Answers Unit → Store → Prop
  | refused {r : Refusal} (h : refusal? limit es = some r) :
      BatchDone limit es store (.ok (.error r.toFailure)) store
  | stored {outcomes : List (Outcome Unit)} {store' : Store} (h : refusal? limit es = none)
      (hentries : StoredOneByOne es outcomes store store')
      (hrows : ∀ k, store'.profitRates.get? k
        = (lastRate k (takenOf es outcomes)).or (store.profitRates.get? k))
      (hrest : ∃ rates, store' = { store with profitRates := rates }) :
      BatchDone limit es store (.ok (.ok (entryAnswers es outcomes))) store'

/-- What storing a limit comes to, and the store after it. -/
inductive LimitDone (l : ProfitRateLimit) (store : Store) : Outcome Unit → Store → Prop
  | refused {f : Failure} (h : ¬(store.isOpen = true ∧ l.merchantId ≠ 0 ∧ InBounds l)) :
      LimitDone l store (.error f) store
  | stored (h : store.isOpen = true ∧ l.merchantId ≠ 0 ∧ InBounds l) :
      LimitDone l store (.ok ()) { store with limits := store.limits.put l.merchantId l }

section

variable {σ : Type} {e : Env (Backing σ)} (h : e.tiers = [])

include h

theorem setProfitRates_done (s : Setup σ) (es : List ProfitRateEntry) :
    (setProfitRates s es e).2.tiers = [] ∧
      BatchDone s.maxBatch es e.behind.store (setProfitRates s es e).1
        (setProfitRates s es e).2.behind.store := by
  cases hrefusal : refusal? s.maxBatch es with
  | some r =>
    rw [setProfitRates, checked, hrefusal]
    exact ⟨h, .refused hrefusal⟩
  | none =>
    have hentries := storeDirectly_oneByOne es e.behind.store
    obtain ⟨houtcomes, htiers, hstore⟩ := setProfitRates_leaves es e.behind.store e h rfl
    rw [setProfitRates, checked_eq hrefusal, bind_apply, houtcomes]
    refine ⟨htiers, ?_⟩
    show BatchDone _ _ _ _ (Pricing.setProfitRates es e).2.behind.store
    rw [hstore]
    exact .stored hrefusal hentries hentries.get? hentries.rest

theorem setLimit_done (l : ProfitRateLimit) :
    (setLimit l e).2.tiers = [] ∧
      LimitDone l e.behind.store (setLimit l e).1 (setLimit l e).2.behind.store := by
  unfold setLimit
  by_cases hmerchant : l.merchantId = 0
  · rw [if_pos hmerchant]
    exact ⟨h, .refused fun hstored => hstored.2.1 hmerchant⟩
  · rw [if_neg hmerchant]
    rcases setLimit_leaves (σ := σ) l e.behind.store with ⟨hrefused, f, hleaves⟩ | ⟨hvalid, hleaves⟩
    · obtain ⟨houtcome, htiers, hstore⟩ := hleaves e h rfl
      rw [houtcome, hstore]
      exact ⟨htiers, .refused fun hstored => hrefused ⟨hstored.1, hstored.2.2⟩⟩
    · obtain ⟨houtcome, htiers, hstore⟩ := hleaves e h rfl
      rw [houtcome, hstore]
      exact ⟨htiers, .stored ⟨hvalid.1, hmerchant, hvalid.2⟩⟩

end

/-! ## Runs -/

variable {σ : Type}

/-- A call that stores profit rates or a limit, or the store is closed or opened. -/
inductive Update where
  | rates (es : List ProfitRateEntry)
  | limit (l : ProfitRateLimit)
  | connection (isOpen : Bool)

/-- The environment after an update. -/
def Update.perform (s : Setup σ) (e : Env (Backing σ)) : Update → Env (Backing σ)
  | .rates es => (setProfitRates s es e).2
  | .limit l => (setLimit l e).2
  | .connection isOpen => withStore e { e.behind.store with isOpen }

/-- The environment after updates of an empty store, without cache tiers. -/
def updated (s : Setup σ) (now : ℕ) (market : σ) (us : List Update) : Env (Backing σ) :=
  us.foldl (Update.perform s) ⟨now, [], ⟨market, .empty⟩⟩

/-- A store whose limits and rates are in bounds. -/
structure Sound (store : Store) : Prop where
  limits : ∀ m l, store.limits.get? m = some l → InBounds l
  rates : ∀ k rate, store.profitRates.get? k = some rate → 0 < rate ∧ rate ≤ 100000

/-- An entry of a batch of a run has stored the rate in its row, and the rate kept within the
limit of the merchant, if the store had one. -/
def StoredWithinLimit (s : Setup σ) (now : ℕ) (market : σ) (us : List Update) (k : MerchantShop)
    (rate : Int64) : Prop :=
  ∃ before es after outcomes entry, us = before ++ .rates es :: after ∧
    (setProfitRates s es (updated s now market before)).1
      = .ok (.ok (entryAnswers es outcomes)) ∧
    entry ∈ takenOf es outcomes ∧ rowOf entry = k ∧ entry.rate = rate ∧
    ∀ l, (updated s now market before).behind.store.limits.get? k.merchantId = some l →
      l.least ≤ rate ∧ rate ≤ l.greatest

variable {s : Setup σ} {now : ℕ} {market : σ} {store store' : Store} {es : List ProfitRateEntry}
  {l : ProfitRateLimit}

/-- The rates of a batch that is taken are in bounds. -/
theorem rate_inBounds {limit : ℕ} (h : refusal? limit es = none) {entry : ProfitRateEntry}
    (hentry : entry ∈ es) : 0 < entry.rate ∧ entry.rate ≤ 100000 := by
  obtain ⟨_, _, hfaultless⟩ := refusal?_eq_none_iff.mp h
  constructor
  · by_contra hnot
    exact hfaultless.kept entry hentry _
      (.notPositive List.mem_cons_self (Int64.not_lt.mp hnot))
  · by_contra hnot
    exact hfaultless.kept entry hentry _
      (.aboveMaxProfitRate List.mem_cons_self (Int64.not_le.mp hnot))

section

variable {limit : ℕ} {answers : Answers Unit} (h : BatchDone limit es store answers store')

include h

/-- A rate that is in the store after a batch was there before, or an entry has stored it. -/
theorem BatchDone.origin {k : MerchantShop} {rate : Int64}
    (hget : store'.profitRates.get? k = some rate) :
    store.profitRates.get? k = some rate ∨
      ∃ outcomes entry, answers = .ok (.ok (entryAnswers es outcomes)) ∧
        entry ∈ takenOf es outcomes ∧ rowOf entry = k ∧ entry.rate = rate ∧
        ∀ l, store.limits.get? k.merchantId = some l → l.least ≤ rate ∧ rate ≤ l.greatest := by
  cases h with
  | refused _ => exact .inl hget
  | @stored outcomes _ _ hentries hrows _ =>
    rw [hrows] at hget
    rcases Option.or_eq_some_iff.mp hget with hlast | ⟨_, hbefore⟩
    · obtain ⟨entry, htaken, rfl, rfl⟩ := mem_of_lastRate hlast
      exact .inr ⟨outcomes, entry, rfl, htaken, rfl, rfl, (hentries.takes htaken).2.2⟩
    · exact .inl hbefore

theorem BatchDone.sound (hsound : Sound store) : Sound store' := by
  cases h with
  | refused _ => exact hsound
  | stored haccepted hentries hrows hrest =>
    constructor
    · obtain ⟨rates, rfl⟩ := hrest
      exact hsound.limits
    · intro k rate hget
      rw [hrows] at hget
      rcases Option.or_eq_some_iff.mp hget with hlast | ⟨_, hbefore⟩
      · obtain ⟨entry, htaken, _, rfl⟩ := mem_of_lastRate hlast
        exact rate_inBounds haccepted (hentries.takes htaken).1
      · exact hsound.rates k rate hbefore

end

section

variable {outcome : Outcome Unit} (h : LimitDone l store outcome store')

include h

theorem LimitDone.profitRates : store'.profitRates = store.profitRates := by
  cases h <;> rfl

theorem LimitDone.sound (hsound : Sound store) : Sound store' := by
  cases h with
  | refused _ => exact hsound
  | stored hvalid =>
    refine ⟨fun m l' hget => ?_, hsound.rates⟩
    rw [KeyMap.get?_put] at hget
    split at hget
    · rw [← Option.some.inj hget]
      exact hvalid.2.2
    · exact hsound.limits m l' hget

end

theorem updated_append (us : List Update) (u : Update) :
    updated s now market (us ++ [u]) = u.perform s (updated s now market us) := by
  rw [updated, List.foldl_append]
  rfl

theorem StoredWithinLimit.append {us : List Update} {k : MerchantShop} {rate : Int64}
    (h : StoredWithinLimit s now market us k rate) (u : Update) :
    StoredWithinLimit s now market (us ++ [u]) k rate := by
  obtain ⟨before, es, after, outcomes, entry, rfl, hentry⟩ := h
  exact ⟨before, es, after ++ [u], outcomes, entry, by simp, hentry⟩

/-- What holds after any updates. -/
structure History (s : Setup σ) (now : ℕ) (market : σ) (us : List Update) : Prop where
  untiered : (updated s now market us).tiers = []
  sound : Sound (updated s now market us).behind.store
  origin : ∀ k rate, (updated s now market us).behind.store.profitRates.get? k = some rate →
    StoredWithinLimit s now market us k rate

theorem History.append {us : List Update} (h : History s now market us) (u : Update) :
    History s now market (us ++ [u]) := by
  -- a rate that the update does not store has been there before
  suffices hstep : (u.perform s (updated s now market us)).tiers = [] ∧
      Sound (u.perform s (updated s now market us)).behind.store ∧
      ∀ k rate, (u.perform s (updated s now market us)).behind.store.profitRates.get? k
          = some rate →
        (updated s now market us).behind.store.profitRates.get? k = some rate ∨
          StoredWithinLimit s now market (us ++ [u]) k rate by
    obtain ⟨htiers, hsound, horigin⟩ := hstep
    rw [← updated_append] at htiers hsound horigin
    refine ⟨htiers, hsound, fun k rate hget => ?_⟩
    rcases horigin k rate hget with hbefore | hstored
    · exact (h.origin k rate hbefore).append u
    · exact hstored
  cases u with
  | rates es =>
    obtain ⟨htiers, hdone⟩ := setProfitRates_done h.untiered s es
    refine ⟨htiers, hdone.sound h.sound, fun k rate hget => ?_⟩
    rcases hdone.origin hget with hbefore | ⟨outcomes, entry, hanswers, htaken, rfl, rfl, hlimit⟩
    · exact .inl hbefore
    · exact .inr ⟨us, es, [], outcomes, entry, rfl, hanswers, htaken, rfl, rfl, hlimit⟩
  | limit l =>
    obtain ⟨htiers, hdone⟩ := setLimit_done h.untiered l
    refine ⟨htiers, hdone.sound h.sound, fun k rate hget => .inl ?_⟩
    rw [← hdone.profitRates]
    exact hget
  | connection isOpen =>
    exact ⟨h.untiered, ⟨h.sound.limits, h.sound.rates⟩, fun k rate hget => .inl hget⟩

theorem history (s : Setup σ) (now : ℕ) (market : σ) (us : List Update) :
    History s now market us := by
  induction us using List.reverseRecOn with
  | nil =>
    -- the store is empty
    refine ⟨rfl, ⟨fun _ _ h => ?_, fun _ _ h => ?_⟩, fun _ _ h => ?_⟩ <;> cases h
  | append_singleton us u ih => exact ih.append u

/-- After any updates, every limit and every rate in the store is in bounds, and every rate
kept within the limit of its merchant when it was stored. The next batch is refused as a whole
or stored entry by entry, and the next limit is refused or stored; what is refused changes
nothing, and what is stored changes its own row. -/
theorem updated_sound (s : Setup σ) (now : ℕ) (market : σ) (us : List Update) :
    Sound (updated s now market us).behind.store ∧
    (∀ k rate, (updated s now market us).behind.store.profitRates.get? k = some rate →
      StoredWithinLimit s now market us k rate) ∧
    (∀ es, BatchDone s.maxBatch es (updated s now market us).behind.store
      (setProfitRates s es (updated s now market us)).1
      (setProfitRates s es (updated s now market us)).2.behind.store) ∧
    ∀ l, LimitDone l (updated s now market us).behind.store
      (setLimit l (updated s now market us)).1
      (setLimit l (updated s now market us)).2.behind.store := by
  have h := history s now market us
  exact ⟨h.sound, h.origin, fun es => (setProfitRates_done h.untiered s es).2,
    fun l => (setLimit_done h.untiered l).2⟩

/-- Of three rates for one row the second is above the limit, and the third replaces the
first. -/
example : (updated (scripted sampleWorld 1 3) 0 .none [.limit ⟨5, 10000, 20000⟩,
      .rates [⟨1, 5, 50, 15000⟩, ⟨2, 5, 50, 25000⟩, ⟨3, 5, 50, 16000⟩]]).behind.store.profitRates
    = .ofList [(⟨5, 50⟩, 16000)] := by
  decide +kernel

end RegionPricing.Engine
