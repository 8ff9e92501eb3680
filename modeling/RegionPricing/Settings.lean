import RegionPricing.KeyMap
import RegionPricing.Json.Basic
import RegionPricing.Text.Blank
import RegionPricing.Text.Digits

/-!
# Settings

The settings of a service are read from named texts. The path of the database
and the address of the services must be there, taken as they are; an address of
a remote cache and the path of the pricing rules may be. All others are whole
numbers with defaults. The first setting that is missing or malformed, in the
order of the fields, is the error.
-/

namespace RegionPricing

/-- The settings of a service. -/
structure Settings where
  databasePath : String
  serviceAddress : String
  remoteCacheAddress : Option String
  rulesPath : Option String
  maxWorkers : Nat
  maxWaitMillis : Nat
  idleTimeoutMillis : Nat
  maxBatchSize : Nat
  logisticsBatchSize : Nat
  localCacheSeconds : Nat
  remoteCacheSeconds : Nat
  localCacheCapacity : Nat
  deriving DecidableEq

namespace Settings

/-- Why there are no settings. -/
inductive Error where
  | missing (key : String)
  | invalid (key reason : String)
  deriving DecidableEq

def Error.message : Error → String
  | .missing key => "Missing required environment variable: " ++ key
  | .invalid key reason => "Invalid value for " ++ key ++ ": " ++ reason

/-- Texts by name. -/
abbrev Source := KeyMap String String

/-- The names of all settings. -/
def keys : List String :=
  ["DATABASE_PATH", "SERVICE_BASE_URL", "REDIS_URL", "PRICING_CONFIG_PATH", "WORKER_POOL_SIZE",
    "WORKER_MAX_WAIT_MS", "WORKER_IDLE_TIMEOUT_MS", "MAX_BATCH_SIZE", "LOGISTICS_BATCH_SIZE",
    "LOCAL_CACHE_TTL_SECS", "REMOTE_CACHE_TTL_SECS", "LOCAL_CACHE_CAPACITY"]

/-- The greatest whole number of a setting. -/
def maxNumber : Nat := 18446744073709551615

def required (s : Source) (key : String) : Except Error String :=
  match s.get? key with
  | some text => .ok text
  | none => .error (.missing key)

/-- The text without the blanks around it, unless nothing is left. -/
def optional (s : Source) (key : String) : Option String :=
  ((s.get? key).map Text.trimmed).filter fun t => !t.isEmpty

/-- A whole number, or the default when there is no text. -/
def number (s : Source) (key : String) (dflt : Nat) : Except Error Nat :=
  match s.get? key with
  | none => .ok dflt
  | some text =>
    match Text.unsigned? maxNumber (Text.trim text.toList) with
    | some n => .ok n
    | none => .error (.invalid key "must be a non-negative integer")

/-- A whole number that is not zero. -/
def positive (s : Source) (key : String) (dflt : Nat) : Except Error Nat := do
  let n ← number s key dflt
  if n = 0 then throw (.invalid key "must be at least 1")
  return n

/-- Reads all settings. -/
def read (s : Source) : Except Error Settings := do
  return {
    databasePath := ← required s "DATABASE_PATH"
    serviceAddress := ← required s "SERVICE_BASE_URL"
    remoteCacheAddress := optional s "REDIS_URL"
    rulesPath := optional s "PRICING_CONFIG_PATH"
    maxWorkers := ← positive s "WORKER_POOL_SIZE" 100
    maxWaitMillis := ← number s "WORKER_MAX_WAIT_MS" 3000
    idleTimeoutMillis := ← number s "WORKER_IDLE_TIMEOUT_MS" 60000
    maxBatchSize := ← positive s "MAX_BATCH_SIZE" 200
    logisticsBatchSize := ← number s "LOGISTICS_BATCH_SIZE" 50
    localCacheSeconds := ← number s "LOCAL_CACHE_TTL_SECS" 60
    remoteCacheSeconds := ← number s "REMOTE_CACHE_TTL_SECS" 600
    localCacheCapacity := ← number s "LOCAL_CACHE_CAPACITY" 10000 }

/-- The settings in JSON. -/
def toJson (s : Settings) : Json :=
  .object [("database_path", .string s.databasePath),
    ("service_base_url", .string s.serviceAddress),
    ("redis_url", s.remoteCacheAddress.elim .null .string),
    ("pricing_config_path", s.rulesPath.elim .null .string),
    ("worker_pool_size", .integer s.maxWorkers), ("worker_max_wait_ms", .integer s.maxWaitMillis),
    ("worker_idle_timeout_ms", .integer s.idleTimeoutMillis),
    ("max_batch_size", .integer s.maxBatchSize),
    ("logistics_batch_size", .integer s.logisticsBatchSize),
    ("local_cache_ttl_secs", .integer s.localCacheSeconds),
    ("remote_cache_ttl_secs", .integer s.remoteCacheSeconds),
    ("local_cache_capacity", .integer s.localCacheCapacity)]

end Settings

end RegionPricing
