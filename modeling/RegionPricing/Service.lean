import RegionPricing.Settings
import RegionPricing.Engine
import RegionPricing.Rules.Publication
import RegionPricing.Pool.State

/-!
# The service

A `Service` is the engine with all that it needs: the services behind it, the
store, the cache tiers, the published rules and the worker pool. It starts from
its settings, or says what it could not get.
-/

namespace RegionPricing

open RegionPricing.Pricing RegionPricing.Batch RegionPricing.Rules RegionPricing.Factor

/-- A running service. -/
structure Service (σ : Type) where
  setup : Setup σ
  rules : Publication
  pool : Pool.Config
  env : Env (Backing σ)

namespace Service

variable {σ : Type}

/-! ## Starting -/

/-- What a service finds when it starts. -/
structure Surroundings (σ : Type) where
  /-- The text of the file at a path, or why it cannot be read. -/
  file : String → Except String String
  /-- The store at a path, or why it cannot be opened. -/
  store : String → Except String Store
  /-- The cache server at an address. -/
  cacheServer : String → Option Cache.Server
  /-- How the cache in memory settles which entries go. -/
  ties : Cache.Ties
  /-- The services behind an address. -/
  services : String → Market.Services σ
  market : σ

/-- Why a service does not start. -/
inductive StartError where
  | rulesFile (path detail : String)
  | rules (e : Book.LoadError)
  | store (detail : String)
  | cache (e : CacheError)

def StartError.message : StartError → String
  | .rulesFile path detail => "pricing config " ++ path ++ ": " ++ detail
  | .rules e => e.message
  | .store detail => "database: " ++ detail
  | .cache e => "remote cache: " ++ e.message

/-- What was being done when the error arose. -/
def StartError.heading : StartError → String
  | .rulesFile .. | .rules _ => "Failed to load pricing config"
  | .store _ | .cache _ => "Failed to start"

/-- What all keys on a cache server begin with. -/
def cacheName : String := "sip-pricing:"

/-- The rules that a service starts with; without a path there are none. -/
def loadRules (around : Surroundings σ) (path : Option String) :
    Except Fault (Except StartError Book) :=
  match path with
  | none => .ok (.ok .empty)
  | some path =>
    match around.file path with
    | .error detail => .ok (.error (.rulesFile path detail))
    | .ok text => (Book.ofText text).run.map (Except.mapError .rules)

/-- The cache tiers: one in memory, and one on a server when there is an address. -/
def tiers (around : Surroundings σ) (s : Settings) : Except StartError (List Cache.Tier) :=
  let near := Cache.Tier.inMemory s.localCacheCapacity (s.localCacheSeconds * 1000) around.ties
  match s.remoteCacheAddress with
  | none => .ok [near]
  | some address =>
    match Cache.Remote.connect (around.cacheServer address) cacheName with
    | .ok r => .ok [near, ⟨.remote r, s.remoteCacheSeconds * 1000, []⟩]
    | .error e => .error (.cache e)

/-- A service with these rules. -/
def assemble (around : Surroundings σ) (s : Settings) (book : Book) :
    Except StartError (Service σ) := do
  match around.store s.databasePath with
  | .error detail => throw (.store detail)
  | .ok store =>
    return {
      setup := ⟨around.services s.serviceAddress, s.logisticsBatchSize, s.maxBatchSize⟩
      rules := .first book
      pool := ⟨s.maxWorkers, s.maxWaitMillis, s.idleTimeoutMillis⟩
      env := ⟨0, ← tiers around s, ⟨around.market, store⟩⟩ }

/-- Starts a service from its settings. -/
def start (around : Surroundings σ) (s : Settings) :
    Except Fault (Except StartError (Service σ)) := do
  return (← loadRules around s.rulesPath).bind (assemble around s)

/-! ## Running -/

/-- Answers a request by the current rules. -/
def answer (s : Service σ) (w : Workers) (r : Request) : Engine.Result Reply × Service σ :=
  let (result, env) := Engine.run s.setup w s.rules.current r s.env
  (result, { s with env })

/-- New rules take the place of the current ones. -/
def publish (s : Service σ) (book : Book) : Service σ := { s with rules := s.rules.publish book }

/-- The pool gets another size. -/
def resize (s : Service σ) (maxWorkers : Nat) : Service σ :=
  { s with pool := { s.pool with maxWorkers } }

/-- Everything queued for the cache tiers is written. -/
def settle (s : Service σ) : Service σ := { s with env := s.env.settle }

end Service

end RegionPricing
