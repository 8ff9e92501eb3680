import RegionPricing.KeyMap
import RegionPricing.FixedPoint
import RegionPricing.Factor.Key
import RegionPricing.Fee.Bracket

/-!
# The store

The store holds what is maintained for corridors and merchants: brackets of two
kinds of fee, exchange rates, profit rates and their limits. All numbers are
fixed-point, so a bracket that is stored comes back with its decimals rounded
to the fixed precision. Each call fails while the store is closed.

Identifiers are kept as they are. A table that keeps them as signed numbers of 64 bits
loses nothing: the cast is a bijection, and only equality is asked of an identifier.
-/

namespace RegionPricing

open Factor

/-- The range in which the profit rates of a merchant must lie, stored at the
profit precision. -/
structure ProfitRateLimit where
  merchantId : Id
  least : Int64
  greatest : Int64
  deriving DecidableEq

namespace ProfitRateLimit

def contains (l : ProfitRateLimit) (rate : Int64) : Bool := l.least ≤ rate && rate ≤ l.greatest

def toJson (l : ProfitRateLimit) : Json :=
  .object [("merchant_id", l.merchantId.toJson), ("min_rate", .integer l.least.toInt),
    ("max_rate", .integer l.greatest.toInt)]

def ofJson? : Json.Decoder ProfitRateLimit := fun v => do
  let f ← Json.record? ["merchant_id", "min_rate", "max_rate"] v
  return {
    merchantId := ← f.required "merchant_id" Json.uint64?
    least := ← f.required "min_rate" Json.int64?
    greatest := ← f.required "max_rate" Json.int64? }

end ProfitRateLimit

namespace Store

/-- The kinds of fee that have stored brackets. -/
inductive FeeTable where
  | hiddenPrice
  | shippingFee
  deriving DecidableEq

/-- The name of the table. -/
def FeeTable.name : FeeTable → String
  | .hiddenPrice => "hidden_price_configs"
  | .shippingFee => "local_shipping_fee_configs"

/-- The terms of a bracket in fixed-point numbers. -/
structure StoredTerms where
  startPrice : Int64
  startWeight : Int64
  roundExponent : Int32
  stepPrice : Int64
  weightStep : Int64
  adjustment : Int64
  deriving DecidableEq

/-- The fixed-point image of the terms of a bracket. -/
def StoredTerms.ofBracket (b : Fee.Bracket) : StoredTerms where
  startPrice := FixedPoint.rawOfPrice b.startPrice
  startWeight := FixedPoint.rawOfGrams b.startWeight
  roundExponent := b.roundExponent
  stepPrice := FixedPoint.rawOfPrice b.stepPrice
  weightStep := FixedPoint.rawOfGrams b.weightStep
  adjustment := FixedPoint.rawOfPrice b.adjustment

/-- The key that a stored bracket carries. -/
def tableKey (table : FeeTable) (c : Corridor) : String :=
  table.name ++ ":" ++ c.primary.text ++ ":" ++ c.affiliate.text

/-- The bracket of stored terms. -/
def StoredTerms.bracket (t : StoredTerms) (table : FeeTable) (c : Corridor) (weightLimit : Int64) :
    Fee.Bracket where
  weightLimit := weightLimit
  startPrice := FixedPoint.priceOfRaw t.startPrice
  startWeight := FixedPoint.gramsOfRaw t.startWeight
  roundExponent := t.roundExponent
  stepPrice := FixedPoint.priceOfRaw t.stepPrice
  weightStep := FixedPoint.gramsOfRaw t.weightStep
  adjustment := FixedPoint.priceOfRaw t.adjustment
  tableKey := tableKey table c
  level := .table

/-- A table of brackets, by corridor and weight limit. -/
abbrev BracketTable := KeyMap (Corridor × Int64) StoredTerms

/-- The one of two entries with the lesser weight limit. -/
def tighter (best : Option (Int64 × StoredTerms)) (e : Int64 × StoredTerms) :
    Option (Int64 × StoredTerms) :=
  match best with
  | none => some e
  | some b => if e.1 < b.1 then some e else some b

/-- The terms with the least weight limit that covers the weight. -/
def covering (table : BracketTable) (c : Corridor) (weight : Int64) :
    Option (Int64 × StoredTerms) :=
  let candidates := table.entries.filterMap fun e =>
    if e.1.1 = c ∧ weight ≤ e.1.2 then some (e.1.2, e.2) else none
  candidates.foldl tighter none

end Store

/-- The store. -/
structure Store where
  hiddenPrice : Store.BracketTable
  shippingFee : Store.BracketTable
  exchangeRates : KeyMap Corridor Int64
  profitRates : KeyMap MerchantShop Int64
  limits : KeyMap Id ProfitRateLimit
  isOpen : Bool

namespace Store

/-- The open store without entries. -/
def empty : Store := ⟨.empty, .empty, .empty, .empty, .empty, true⟩

instance : Inhabited Store := ⟨empty⟩

/-- The failure of a call on a closed store. -/
def closedFailure : Failure :=
  ⟨.externalService, "database: attempted to acquire a connection on a closed pool"⟩

/-- What a call answers when the store is open. -/
def whenOpen {α : Type} (s : Store) (a : α) : Outcome α :=
  if s.isOpen then .ok a else .error closedFailure

/-- The brackets of a kind of fee. -/
def brackets (s : Store) : FeeTable → BracketTable
  | .hiddenPrice => s.hiddenPrice
  | .shippingFee => s.shippingFee

/-- The stored bracket that covers a weight. -/
def bracket? (s : Store) (table : FeeTable) (c : Corridor) (weight : Int64) :
    Outcome (Option Fee.Bracket) :=
  s.whenOpen ((covering (s.brackets table) c weight).map fun e => e.2.bracket table c e.1)

/-- Stores a bracket in place of one with the same weight limit. -/
def putBracket (s : Store) (table : FeeTable) (c : Corridor) (b : Fee.Bracket) : Outcome Store :=
  let entry := StoredTerms.ofBracket b
  s.whenOpen (match table with
    | .hiddenPrice => { s with hiddenPrice := s.hiddenPrice.put (c, b.weightLimit) entry }
    | .shippingFee => { s with shippingFee := s.shippingFee.put (c, b.weightLimit) entry })

def exchangeRate? (s : Store) (c : Corridor) : Outcome (Option Int64) :=
  s.whenOpen (s.exchangeRates.get? c)

def putExchangeRate (s : Store) (c : Corridor) (rate : Int64) : Outcome Store :=
  s.whenOpen { s with exchangeRates := s.exchangeRates.put c rate }

def profitRate? (s : Store) (k : MerchantShop) : Outcome (Option Int64) :=
  s.whenOpen (s.profitRates.get? k)

def putProfitRate (s : Store) (k : MerchantShop) (rate : Int64) : Outcome Store :=
  s.whenOpen { s with profitRates := s.profitRates.put k rate }

def limit? (s : Store) (merchantId : Id) : Outcome (Option ProfitRateLimit) :=
  s.whenOpen (s.limits.get? merchantId)

def putLimit (s : Store) (l : ProfitRateLimit) : Outcome Store :=
  s.whenOpen { s with limits := s.limits.put l.merchantId l }

/-- The store after it has been closed. -/
def close (s : Store) : Store := { s with isOpen := false }

/-- The store after it has been opened again. -/
def reopen (s : Store) : Store := { s with isOpen := true }

end Store

end RegionPricing
