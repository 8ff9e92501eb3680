import RegionPricing.Store

/-!
# Commands of the store

What can be asked of the store, as data: a run of the store is a list of
commands with what each comes to.
-/

namespace RegionPricing.Store

open Factor

/-- What is asked of the store. -/
inductive Command where
  | putBracket (table : FeeTable) (c : Corridor) (b : Fee.Bracket)
  | bracket (table : FeeTable) (c : Corridor) (weight : Int64)
  | putExchangeRate (c : Corridor) (rate : Int64)
  | exchangeRate (c : Corridor)
  | putProfitRate (k : MerchantShop) (rate : Int64)
  | profitRate (k : MerchantShop)
  | putLimit (l : ProfitRateLimit)
  | limit (merchantId : Id)
  | contains (l : ProfitRateLimit) (rate : Int64)
  | close
  | reopen

/-- What a command comes to. -/
inductive Response where
  | done
  | bracket (b : Option Fee.Bracket)
  | exchangeRate (c : Corridor) (rate : Option Int64)
  | profitRate (rate : Option Int64)
  | limit (l : Option ProfitRateLimit)
  | holds (b : Bool)

/-- The outcome of a write; the store stays as it is when the write fails. -/
def written (s : Store) : Outcome Store → Outcome Response × Store
  | .ok s => (.ok .done, s)
  | .error f => (.error f, s)

/-- Executes a command. -/
def perform (s : Store) : Command → Outcome Response × Store
  | .putBracket table c b => s.written (s.putBracket table c b)
  | .bracket table c weight => ((s.bracket? table c weight).map .bracket, s)
  | .putExchangeRate c rate => s.written (s.putExchangeRate c rate)
  | .exchangeRate c => ((s.exchangeRate? c).map (.exchangeRate c), s)
  | .putProfitRate k rate => s.written (s.putProfitRate k rate)
  | .profitRate k => ((s.profitRate? k).map .profitRate, s)
  | .putLimit l => s.written (s.putLimit l)
  | .limit m => ((s.limit? m).map .limit, s)
  | .contains l rate => (.ok (.holds (l.contains rate)), s)
  | .close => (.ok .done, s.close)
  | .reopen => (.ok .done, s.reopen)

namespace Command

/-- The short name of a kind of fee. -/
def table? : Json.Decoder FeeTable
  | .string "hidden_price" => some .hiddenPrice
  | .string "shipping" => some .shippingFee
  | _ => none

/-- Two regions in an array. -/
def corridor? : Json.Decoder Corridor := fun v =>
  (Json.pair? Region.ofJson? Region.ofJson? v).map fun p => ⟨p.1, p.2⟩

/-- A merchant and a shop in an array. -/
def merchantShop? : Json.Decoder MerchantShop := fun v =>
  (Json.pair? Json.uint64? Json.uint64? v).map fun p => ⟨p.1, p.2⟩

/-- A command by its name, with what it is about. -/
def ofNamed? (name : String) (v : Json) : Option Command :=
  match name with
  | "put_fee" => do
    let f ← Json.record? ["table", "pair", "conf"] v
    return .putBracket (← f.required "table" table?) (← f.required "pair" corridor?)
      (← f.required "conf" Fee.Bracket.ofJson?)
  | "bracket" => do
    let f ← Json.record? ["table", "pair", "weight"] v
    return .bracket (← f.required "table" table?) (← f.required "pair" corridor?)
      (← f.required "weight" Json.int64?)
  | "put_rate" => do
    let (p, a, rate) ← Json.triple? Region.ofJson? Region.ofJson? Json.int64? v
    return .putExchangeRate ⟨p, a⟩ rate
  | "rate" => (corridor? v).map .exchangeRate
  | "put_profit" => do
    let (m, s, rate) ← Json.triple? Json.uint64? Json.uint64? Json.int64? v
    return .putProfitRate ⟨m, s⟩ rate
  | "profit" => (merchantShop? v).map .profitRate
  | "put_limit" => (ProfitRateLimit.ofJson? v).map .putLimit
  | "limit" => (Json.uint64? v).map .limit
  | "contains" => do
    let (l, rate) ← Json.pair? ProfitRateLimit.ofJson? Json.int64? v
    return .contains l rate
  | "close" => some .close
  | "reopen" => some .reopen
  | _ => none

end Command

end RegionPricing.Store
