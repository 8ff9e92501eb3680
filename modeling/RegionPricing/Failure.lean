import RegionPricing.Text.Duration
import RegionPricing.Decimal.Arithmetic
import RegionPricing.Json.Shape

/-!
# Failures

A `Failure` is what a query or a whole batch is answered with when it has no
value: a kind, which fixes the code, the heading and whether trying again may
help, and a detail in words. Failures of the services behind the engine, of a
cache and of the worker pool have types of their own and become failures by
`toFailure`.
-/

namespace RegionPricing

namespace Failure

/-- The kinds of failure, in the order of their codes. -/
inductive Kind where
  | parameter
  | notFound
  | cache
  | marshal
  | calculateHiddenFee
  | emptyEnabledChannels
  | getEnabledChannels
  | profitRateLimit
  | invalidDiscountRate
  | externalService
  | internal
  | cancelled
  | busy
  deriving DecidableEq

namespace Kind

def code : Kind → Nat
  | .parameter => 100001
  | .notFound => 100002
  | .cache => 100003
  | .marshal => 100004
  | .calculateHiddenFee => 100005
  | .emptyEnabledChannels => 100006
  | .getEnabledChannels => 100007
  | .profitRateLimit => 100008
  | .invalidDiscountRate => 100009
  | .externalService => 100010
  | .internal => 100011
  | .cancelled => 100012
  | .busy => 100013

/-- The words in front of the detail. -/
def heading : Kind → String
  | .parameter => "Invalid parameter"
  | .notFound => "Not found"
  | .cache => "Cache error"
  | .marshal => "Marshal error"
  | .calculateHiddenFee => "Calculate hidden fee error"
  | .emptyEnabledChannels => "Empty enabled channels"
  | .getEnabledChannels => "Get enabled channels error"
  | .profitRateLimit => "Profit rate limit violated"
  | .invalidDiscountRate => "Invalid discount rate"
  | .externalService => "External service error"
  | .internal => "Internal error"
  | .cancelled => "Cancelled"
  | .busy => "Busy"

/-- The name of a kind. -/
def name : Kind → String
  | .parameter => "Parameter"
  | .notFound => "NotFound"
  | .cache => "Cache"
  | .marshal => "Marshal"
  | .calculateHiddenFee => "CalculateHiddenFee"
  | .emptyEnabledChannels => "EmptyEnabledChannels"
  | .getEnabledChannels => "GetEnabledChannels"
  | .profitRateLimit => "ProfitRateLimit"
  | .invalidDiscountRate => "InvalidDiscountRate"
  | .externalService => "ExternalService"
  | .internal => "Internal"
  | .cancelled => "Cancelled"
  | .busy => "Busy"

/-- All kinds, in the order of their codes. -/
def all : List Kind :=
  [.parameter, .notFound, .cache, .marshal, .calculateHiddenFee, .emptyEnabledChannels,
    .getEnabledChannels, .profitRateLimit, .invalidDiscountRate, .externalService, .internal,
    .cancelled, .busy]

/-- The kind of a name. -/
def ofName? (s : String) : Option Kind := all.find? fun k => k.name = s

/-- Whether trying again may help. -/
def retryable : Kind → Bool
  | .externalService | .cache | .getEnabledChannels | .busy => true
  | _ => false

end Kind

end Failure

/-- Why a query or a batch has no value. -/
structure Failure where
  kind : Failure.Kind
  detail : String
  deriving DecidableEq

namespace Failure

def code (f : Failure) : Nat := f.kind.code

def message (f : Failure) : String := f.kind.heading ++ ": " ++ f.detail

def retryable (f : Failure) : Bool := f.kind.retryable

/-- The failure as it is shown to a caller. -/
def toJson (f : Failure) : Json :=
  .object [("code", .integer f.code), ("message", .string f.message),
    ("retryable", .bool f.retryable)]

end Failure

/-- A value or the failure in its place. -/
abbrev Outcome (α : Type) := Except Failure α

/-- An evaluation: an outcome, unless arithmetic fails on the way. -/
abbrev Evaluation (α : Type) := ExceptT Failure (Except Fault) α

/-! ## Failures of the parts around the engine -/

/-- A failure of a service behind the engine. -/
inductive ServiceError where
  | network (detail : String)
  | http (status : Nat) (detail : String)
  | parse (detail : String)
  | rateLimited
  | other (detail : String)
  deriving DecidableEq

namespace ServiceError

def message : ServiceError → String
  | .network d => "Network error: " ++ d
  | .http status d => "HTTP error " ++ Text.numeral status ++ ": " ++ d
  | .parse d => "Parse error: " ++ d
  | .rateLimited => "Rate limited"
  | .other d => "Error: " ++ d

def toFailure (e : ServiceError) : Failure := ⟨.externalService, e.message⟩

end ServiceError

/-- A failure of a cache: nothing under the key, or a cache out of order. -/
inductive CacheError where
  | miss
  | backend (detail : String)
  deriving DecidableEq

namespace CacheError

def message : CacheError → String
  | .miss => "cache miss"
  | .backend d => "cache backend error: " ++ d

def toFailure (e : CacheError) : Failure := ⟨.cache, e.message⟩

end CacheError

/-- A failure to hand a job to the worker pool. -/
inductive SubmitError where
  | cancelled
  /-- No worker within so many nanoseconds. -/
  | timeout (nanos : Nat)
  | closed
  deriving DecidableEq

namespace SubmitError

def message : SubmitError → String
  | .cancelled => "submission cancelled"
  | .timeout nanos => "no worker available within " ++ Text.durationText nanos
  | .closed => "worker pool closed"

def toFailure (e : SubmitError) : Failure :=
  match e with
  | .cancelled => ⟨.cancelled, e.message⟩
  | .timeout _ => ⟨.busy, e.message⟩
  | .closed => ⟨.internal, e.message⟩

end SubmitError

end RegionPricing
