import RegionPricing.Pricing.Backing

/-!
# The sources of factors

Shops, items and commissions come from services, exchange rates, profit rates
and their limits from the store. Each source answers every key that it is asked
for: when a service fails, all keys fail with it. Each has a part of the caches
in front of it.
-/

namespace RegionPricing.Pricing

open RegionPricing.Factor RegionPricing.Market

variable {σ κ ν : Type} [DecidableEq κ] [KeyText κ]

/-- The answers of a service that is asked for all keys at once. -/
def fromService (what : String) (call : List κ → Call σ (KeyMap κ ν)) :
    Source (Backing σ) κ ν :=
  .behind fun keys => do
    match ← onMarket (call keys) with
    | .ok found => return .complete what keys found
    | .error e => return .allFail keys e.toFailure

/-- The answer of the store to a key; a key without an entry is not found. -/
def fromStored {ρ : Type} (read : Store → κ → Outcome (Option ρ)) (value : ρ → ν)
    (missing : κ → String) (store : Store) (key : κ) : Outcome ν :=
  match read store key with
  | .ok (some r) => .ok (value r)
  | .ok none => .error ⟨.notFound, missing key⟩
  | .error f => .error f

/-- The answers of the store, key by key. -/
def fromStore {ρ : Type} (read : Store → κ → Outcome (Option ρ)) (value : ρ → ν)
    (missing : κ → String) : Source (Backing σ) κ ν :=
  .behind fun keys => do
    let b ← get
    return .ofKeys keys (fromStored read value missing b.store)

/-- A stored number in JSON. -/
def numberJson (n : Int64) : Json := .integer n.toInt

namespace Setup

/-- Shops, without the caches. -/
def rawShops (s : Setup σ) : Source (Backing σ) Id Shop := fromService "shop" s.services.shops

/-- Shops. -/
def shops (s : Setup σ) : Source (Backing σ) Id Shop :=
  .through (.json "shop" Shop.toJson Shop.ofJson?) s.rawShops

/-- Items, without the caches. -/
def rawItems (s : Setup σ) : Source (Backing σ) Id Item := fromService "item" s.services.items

/-- Items. -/
def items (s : Setup σ) : Source (Backing σ) Id Item :=
  .through (.json "item" Item.toJson Item.ofJson?) s.rawItems

/-- Commissions of shops, without the caches. -/
def rawCommissions (s : Setup σ) : Source (Backing σ) Id Commission :=
  fromService "commission rates for shop" s.services.commissions

/-- Commissions of shops. -/
def commissions (s : Setup σ) : Source (Backing σ) Id Commission :=
  .through (.json "commission" Commission.toJson Commission.ofJson?) s.rawCommissions

end Setup

/-- Exchange rates of corridors, without the caches. -/
def rawExchangeRates : Source (Backing σ) Corridor Decimal :=
  fromStore Store.exchangeRate? FixedPoint.rateOfRaw fun c => "exchange rate " ++ c.text

/-- Exchange rates of corridors. -/
def exchangeRates : Source (Backing σ) Corridor Decimal :=
  .through (.json "fx" Decimal.toJson Decimal.ofJson?) rawExchangeRates

/-- Profit rates of merchants for shops, without the caches. -/
def rawProfitRates : Source (Backing σ) MerchantShop Int64 :=
  fromStore Store.profitRate? id fun k =>
    "profit rate for merchant " ++ k.merchantId.text ++ " shop " ++ k.shopId.text

/-- Profit rates of merchants for shops. -/
def profitRates : Source (Backing σ) MerchantShop Int64 :=
  .through (.json "profit_rate" numberJson Json.int64?) rawProfitRates

/-- Limits of the profit rates of merchants, without the caches. -/
def rawProfitRateLimits : Source (Backing σ) Id ProfitRateLimit :=
  fromStore Store.limit? id fun m => "profit rate limit for merchant " ++ m.text

/-- Limits of the profit rates of merchants. -/
def profitRateLimits : Source (Backing σ) Id ProfitRateLimit :=
  .through (.json "profit_rate_limit" ProfitRateLimit.toJson ProfitRateLimit.ofJson?)
    rawProfitRateLimits

end RegionPricing.Pricing
