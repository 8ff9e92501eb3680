import RegionPricing.Batch.Query

/-!
# Checking a batch

A batch is checked as a whole before anything is done for it: it has queries,
not more than the limit, each with an identifier of its own, and each query
keeps the rules for its fields. `refusal?` names the first query in the order of
the batch that repeats an identifier or breaks a rule; of two faults of one
query the repeated identifier counts, and of two broken rules the first.
-/

namespace RegionPricing.Batch

/-! ## The rules for fields -/

/-- A rule for the fields of a query that does not hold. -/
inductive Violation where
  | absent (field : String)
  | regionAbsent
  | notPositive (field : String)
  | negative (field : String)
  | aboveMaxProfitRate
  deriving DecidableEq

def Violation.message : Violation → String
  | .absent field => field ++ " is required"
  | .regionAbsent => "primary_region and affiliate_region are required"
  | .notPositive field => field ++ " must be positive"
  | .negative field => field ++ " must not be negative"
  | .aboveMaxProfitRate => "profit_rate above " ++ Text.signedNumeral maxProfitRate.toInt

/-- Whether a rule holds of a query, and what it means that it does not. -/
structure Rule where
  holds : Bool
  violation : Violation

namespace Rule

/-- An identifier is there unless it is zero. -/
def present (field : String) (id : Id) : Rule := ⟨id != 0, .absent field⟩

def regionsPresent (c : Corridor) : Rule :=
  ⟨!c.primary.isEmpty && !c.affiliate.isEmpty, .regionAbsent⟩

def positive (field : String) (n : Int64) : Rule := ⟨0 < n, .notPositive field⟩

def notNegative (field : String) (n : Int64) : Rule := ⟨0 ≤ n, .negative field⟩

def withinMaxProfitRate (rate : Int64) : Rule := ⟨rate ≤ maxProfitRate, .aboveMaxProfitRate⟩

end Rule

/-- A query with rules for its fields, in the order in which they are checked. -/
class Checked (α : Type) extends Identified α where
  rules : α → List Rule

instance : Checked ListingQuery where
  rules q := [.present "shop_id" q.shopId, .present "item_id" q.itemId,
    .regionsPresent q.corridor, .notNegative "weight" q.weight]

instance : Checked ListingPriceQuery where
  rules q := [.present "shop_id" q.shopId, .present "item_id" q.itemId,
    .regionsPresent q.corridor, .positive "primary_price" q.primaryPrice]

instance : Checked CrossBorderQuery where
  rules q := [.present "shop_id" q.shopId, .present "item_id" q.itemId,
    .regionsPresent q.corridor, .positive "primary_price" q.primaryPrice,
    .notNegative "weight" q.weight]

instance : Checked ArticleQuery where
  rules q := [.present "merchant_id" q.merchantId, .present "shop_id" q.shopId,
    .present "item_id" q.itemId]

instance : Checked ConversionQuery where
  rules q := [.present "merchant_id" q.merchantId, .present "shop_id" q.shopId,
    .present "item_id" q.article.itemId, .positive "price" q.price]

instance : Checked DiscountQuery where
  rules q := [.positive "mtsku_price" q.merchantPrice]

instance : Checked ProfitRateEntry where
  rules e := [.present "merchant_id" e.merchantId, .present "shop_id" e.shopId,
    .positive "profit_rate" e.rate, .withinMaxProfitRate e.rate]

/-! ## The batch as a whole -/

/-- Why a batch is refused. -/
inductive Refusal where
  | empty
  | tooLarge (size limit : Nat)
  | repeated (id : Id)
  | broken (id : Id) (v : Violation)
  deriving DecidableEq

namespace Refusal

def detail : Refusal → String
  | .empty => "empty batch"
  | .tooLarge size limit =>
    "batch of " ++ Text.numeral size ++ " exceeds the maximum of " ++ Text.numeral limit
  | .repeated id => "duplicate query_id " ++ id.text
  | .broken id v => "query " ++ id.text ++ ": " ++ v.message

def toFailure (r : Refusal) : Failure := ⟨.parameter, r.detail⟩

end Refusal

section

variable {α : Type} [Checked α]

/-- The first rule that a query breaks. -/
def violation? (q : α) : Option Violation :=
  ((Checked.rules q).find? fun r => !r.holds).map Rule.violation

/-- What is wrong with a query after queries with some identifiers. -/
def fault? (seen : List Id) (q : α) : Option Refusal :=
  if queryId q ∈ seen then some (.repeated (queryId q))
  else (violation? q).map (.broken (queryId q))

/-- The first fault of queries after queries with some identifiers. -/
def firstFault? : List Id → List α → Option Refusal
  | _, [] => none
  | seen, q :: rest => (fault? seen q).orElse fun _ => firstFault? (queryId q :: seen) rest

/-- Why a batch is refused, if it is. -/
def refusal? (limit : Nat) (qs : List α) : Option Refusal :=
  if qs.isEmpty then some .empty
  else if limit < qs.length then some (.tooLarge qs.length limit)
  else firstFault? [] qs

end

end RegionPricing.Batch
