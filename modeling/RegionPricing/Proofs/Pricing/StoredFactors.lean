import RegionPricing.Proofs.Factor.Carrying
import RegionPricing.Proofs.Factor.Staleness
import RegionPricing.Proofs.Pricing.CachedValues
import RegionPricing.Proofs.Pricing.Factors

/-!
# Profit rates and limits in the caches

Profit rates and their limits are cached as JSON, each kind under keys of its own.
`Current store` says of a text under a key that, if it is the key of a profit rate or of a
limit, the store has just this value for it. While all tiers hold only current texts, the
lookups of a conversion answer with what the store has (`conversionFactors_current`),
whatever the tiers have or have lost, and queue only current texts.
-/

namespace RegionPricing.Pricing

open RegionPricing.Factor RegionPricing.Market RegionPricing.Batch

/-! ## The two parts of the caches -/

theorem rateKey_injective : Function.Injective fun k : MerchantShop => rateSpace.tierKey k :=
  fun _ _ h => merchantShopText_injective ((String.append_right_inj _).mp h)

theorem limitKey_injective : Function.Injective fun m : Id => limitSpace.tierKey m :=
  Table.tierKey_injective limitSpace

theorem rateKey_ne_limitKey (k : MerchantShop) (m : Id) :
    rateSpace.tierKey k ≠ limitSpace.tierKey m :=
  fun h => absurd (name_of_key (by decide) (by decide) h) (by decide)

/-! ## Texts that are up to date -/

/-- A text that is the value in the store, if it is under the key of a profit rate or of a
limit. -/
structure Current (store : Store) (key text : String) : Prop where
  rate : ∀ k, key = rateSpace.tierKey k →
    ∃ rate, storedProfitRate store k = .ok rate ∧ text = rateSpace.encode rate
  limit : ∀ m, key = limitSpace.tierKey m →
    ∃ l, storedLimit store m = .ok l ∧ text = limitSpace.encode l

variable {σ : Type} {store : Store}

theorem current_rate {k : MerchantShop} {rate : Int64} (h : storedProfitRate store k = .ok rate) :
    Current store (rateSpace.tierKey k) (rateSpace.encode rate) where
  rate k' hk := by
    obtain rfl : k = k' := rateKey_injective hk
    exact ⟨rate, h, rfl⟩
  limit m hm := absurd hm (rateKey_ne_limitKey k m)

theorem current_limit {m : Id} {l : ProfitRateLimit} (h : storedLimit store m = .ok l) :
    Current store (limitSpace.tierKey m) (limitSpace.encode l) where
  rate k hk := absurd hk.symm (rateKey_ne_limitKey k m)
  limit m' hm := by
    obtain rfl : m = m' := limitKey_injective hm
    exact ⟨l, h, rfl⟩

/-- A part of the caches that holds neither profit rates nor limits. -/
def IsApart (name : String) : Prop :=
  ':' ∉ name.toList ∧ name ≠ "profit_rate" ∧ name ≠ "profit_rate_limit"

instance (name : String) : Decidable (IsApart name) := inferInstanceAs (Decidable (_ ∧ _))

/-- A predicate of keys and texts that says nothing of other parts of the caches. -/
def IsOpen (P : String → String → Prop) : Prop :=
  ∀ name, IsApart name → ∀ rest text, P (name ++ ":" ++ rest) text

theorem isOpen_current (store : Store) : IsOpen (Current store) := by
  intro name h rest text
  refine ⟨fun k hk => ?_, fun m hm => ?_⟩
  · have hkey : name ++ ":" ++ rest = "profit_rate" ++ ":" ++ keyText k := hk
    exact absurd (name_of_key h.1 (by decide) hkey) h.2.1
  · have hkey : name ++ ":" ++ rest = "profit_rate_limit" ++ ":" ++ keyText m := hm
    exact absurd (name_of_key h.1 (by decide) hkey) h.2.2

/-! ## Lookups -/

/-- Tiers that carry what passes `P` and have queued what passes `Q`, before a store. -/
abbrev Before (store : Store) (P Q : String → String → Prop) (e : Env (Backing σ)) : Prop :=
  Guarded P Q (fun b : Backing σ => b.store = store) e

/-- Tiers that hold only what is up to date. -/
abbrev UpToDate (store : Store) (Q : String → String → Prop) (e : Env (Backing σ)) : Prop :=
  Before store (Current store) Q e

section

variable {κ ν : Type} [DecidableEq κ] {P Q : String → String → Prop}

theorem fromStore_gives {ρ : Type} (read : Store → κ → Outcome (Option ρ)) (value : ρ → ν)
    (missing : κ → String) :
    (fromStore read value missing : Source (Backing σ) κ ν).Gives (Before store P Q)
      fun k o => o = some (fromStored read value missing store k) := by
  intro keys e he
  refine ⟨he, fun k hk => ?_⟩
  show (Answers.ofKeys keys (fromStored read value missing e.behind.store)).get? k = _
  rw [Answers.get?_ofKeys, if_pos hk, he.behind]

theorem profitRates_gives (hQ : ∀ k rate, storedProfitRate store k = .ok rate →
    Q (rateSpace.tierKey k) (rateSpace.encode rate)) :
    (profitRates : Source (Backing σ) MerchantShop Int64).Gives (UpToDate store Q)
      fun k o => o = some (storedProfitRate store k) :=
  .through (.exact (fun k _ h => h.rate k rfl) decode_rate hQ) (fromStore_gives _ _ _)

theorem profitRateLimits_gives (hQ : ∀ m l, storedLimit store m = .ok l →
    Q (limitSpace.tierKey m) (limitSpace.encode l)) :
    (profitRateLimits : Source (Backing σ) Id ProfitRateLimit).Gives (UpToDate store Q)
      fun m o => o = some (storedLimit store m) :=
  .through (.exact (fun m _ h => h.limit m rfl) decode_limit hQ) (fromStore_gives _ _ _)

/-- A computation that keeps what the tiers carry. -/
abbrev Safe {α : Type} (store : Store) (P : String → String → Prop) (x : Session σ α) : Prop :=
  Keeps (Before store P P) x fun _ => True

/-- Calls of services do not touch the store. -/
theorem safe_ask {α : Type} (call : StateM σ α) : Safe store P (Pricing.ask call) :=
  fun _ he => ⟨⟨he.tiers, he.behind⟩, trivial⟩

theorem safe_fetch {src : Source (Backing σ) κ ν} {A : κ → Option (Outcome ν) → Prop}
    (h : src.Gives (Before store P P) A) (keys : List κ) : Safe store P (src.fetch keys) :=
  (h keys).mono fun _ _ => trivial

theorem safe_fromService [KeyText κ] (what : String) (call : List κ → Call σ (KeyMap κ ν))
    (keys : List κ) : Safe store P ((fromService what call).fetch keys) := by
  intro e he
  refine ⟨?_, trivial⟩
  show Before store P P (Env.direct _ e).2
  unfold Env.direct
  -- whether the service answers or fails, only the market has changed
  rcases hr : call keys e.behind.market with ⟨_ | _, market⟩ <;>
    simp only [bind_apply, onMarket, hr] <;> exact ⟨he.tiers, he.behind⟩

/-- Factors of which nothing is said may be cached at will. -/
theorem safe_through [KeyText κ] {s : Space ν} {inner : Source (Backing σ) κ ν}
    (hs : ∀ (k : κ) text, P (s.tierKey k) text) (h : ∀ keys, Safe store P (inner.fetch keys))
    (keys : List κ) : Safe store P ((Source.through s inner).fetch keys) := by
  have hfits : Fits P P s fun (_ : κ) _ => True :=
    ⟨fun _ _ _ _ _ => trivial, fun _ _ _ => trivial, fun k _ _ => hs k _⟩
  have hinner : inner.Gives (Before store P P) fun _ _ => True :=
    fun keys => (h keys).mono fun _ _ _ _ => trivial
  exact safe_fetch (hinner.through hfits) keys

end

section

variable (s : Setup σ) {P : String → String → Prop} (hP : IsOpen P)

include hP

theorem safe_shops (keys : List Id) : Safe store P (s.shops.fetch keys) :=
  safe_through (fun _ _ => hP "shop" (by decide) _ _) (safe_fromService _ _) keys

theorem safe_items (keys : List Id) : Safe store P (s.items.fetch keys) :=
  safe_through (fun _ _ => hP "item" (by decide) _ _) (safe_fromService _ _) keys

theorem safe_commissions (keys : List Id) : Safe store P (s.commissions.fetch keys) :=
  safe_through (fun _ _ => hP "commission" (by decide) _ _) (safe_fromService _ _) keys

theorem safe_exchangeRates (keys : List Corridor) :
    Safe store P (exchangeRates.fetch keys : Session σ _) :=
  safe_through (fun _ _ => hP "fx" (by decide) _ _) (safe_fetch (fromStore_gives _ _ _)) keys

theorem safe_hiddenFees (keys : List HiddenFeeKey) : Safe store P (s.hiddenFees.fetch keys) := by
  have hvia : ∀ keys, Safe store P (s.hiddenFeesVia s.shops s.items keys) := by
    intro keys
    refine (safe_shops s hP _).bind fun _ _ => (safe_items s hP _).bind fun _ _ => ?_
    exact (safe_ask _).bind fun _ _ => (safe_ask _).bind fun _ _ => .pure trivial
  refine safe_through (fun _ _ => hP "hidden_fee" (by decide) _ _) (fun keys => ?_) keys
  exact (hvia keys.eraseDups).bind fun _ _ => .pure trivial

/-- A conversion finds the profit rates and limits that their sources give, and the lookups
of the other factors do not touch them. -/
theorem conversionFactors_keeps {A : MerchantShop → Option (Outcome Int64) → Prop}
    {B : Id → Option (Outcome ProfitRateLimit) → Prop}
    (hrates : (profitRates : Source (Backing σ) _ _).Gives (Before store P P) A)
    (hlimits : (profitRateLimits : Source (Backing σ) _ _).Gives (Before store P P) B)
    (qs : List ConversionQuery) :
    Keeps (Before store P P) (s.conversionFactors qs) fun factors => ∀ q ∈ qs,
      A (profitKey q) (factors.profitRates.get? (profitKey q)) ∧
        B q.merchantId (factors.limits.get? q.merchantId) := by
  refine (safe_shops s hP _).bind fun shops _ =>
    (safe_commissions s hP _).bind fun commissions _ => ?_
  refine (safe_exchangeRates hP _).bind fun exchangeRates _ => ?_
  refine (hrates _).bind fun profitRates hprofit => (hlimits _).bind fun limits hlimit => ?_
  refine (safe_hiddenFees s hP _).bind fun hiddenFees _ => .pure fun q hq => ?_
  exact ⟨hprofit _ (mem_eraseDups_map profitKey hq),
    hlimit _ (mem_eraseDups_map ConversionQuery.merchantId hq)⟩

end

/-- Factors that say of the queries what the store says. -/
def Direct (store : Store) (qs : List ConversionQuery) (factors : ConversionFactors) : Prop :=
  ∀ q ∈ qs, factors.profitRates.get? (profitKey q) = some (storedProfitRate store (profitKey q)) ∧
    factors.limits.get? q.merchantId = some (storedLimit store q.merchantId)

/-- While the tiers are up to date, a conversion finds the profit rates and limits that are
in the store, and leaves the tiers up to date. -/
theorem conversionFactors_current (s : Setup σ) (qs : List ConversionQuery) :
    Keeps (UpToDate store (Current store)) (s.conversionFactors qs) (Direct store qs) :=
  conversionFactors_keeps s (isOpen_current store) (profitRates_gives fun _ _ h => current_rate h)
    (profitRateLimits_gives fun _ _ h => current_limit h) qs

end RegionPricing.Pricing
