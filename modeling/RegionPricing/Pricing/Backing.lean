import RegionPricing.Factor.Layers
import RegionPricing.Market.Services
import RegionPricing.Store

/-!
# What pricing works on

A `Session` is a computation that looks factors up: it sees the cache tiers and,
behind them, the services with their state and the store.
-/

namespace RegionPricing.Pricing

open RegionPricing.Factor RegionPricing.Market

/-- The state of the services and the store. -/
structure Backing (σ : Type) where
  market : σ
  store : Store

/-- A computation that looks factors up. -/
abbrev Session (σ : Type) := StateM (Env (Backing σ))

section

variable {σ α : Type}

/-- A call of a service, behind the tiers. -/
def onMarket (call : StateM σ α) : StateM (Backing σ) α := fun b =>
  let (a, market) := call b.market
  (a, { b with market })

/-- A call of a service. -/
def ask (call : StateM σ α) : Session σ α := Env.direct (onMarket call)

/-- What is read from the store. -/
def reading (read : Store → α) : Session σ α := do return read (← get).behind.store

/-- A write to the store; nothing changes when it fails. -/
def writing (write : Store → Outcome Store) : Session σ (Outcome Unit) := fun e =>
  match write e.behind.store with
  | .ok store => (.ok (), { e with behind := { e.behind with store } })
  | .error f => (.error f, e)

end

/-- The services and the sizes of batches. -/
structure Setup (σ : Type) where
  services : Services σ
  /-- How many requests go into one call for quotes; at least one does. -/
  quoteBatch : Nat
  /-- How many queries a batch may hold. -/
  maxBatch : Nat

end RegionPricing.Pricing
