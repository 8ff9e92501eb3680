import RegionPricing.KeyMap
import RegionPricing.Decimal.Arithmetic
import RegionPricing.Pricing.Quoting

/-!
# The fee of a shop with several warehouses

Each location that parcels may leave from is charged at the dearest of its
channels. The fee is the mean over the locations that have a price at all.
-/

namespace RegionPricing.Pricing

open RegionPricing.Market

/-- The requests for every location and channel. -/
def locationRequests (region : Region) (sellers : List String) (buyer : String)
    (channels : List Id) (weight : Int64) : List LocationFeeRequest :=
  sellers.flatMap fun seller => channels.map fun c => ⟨region, seller, buyer, c, weight⟩

/-- The fees of locations with one more: of two fees of a location the greater
stays. -/
def raise (fees : KeyMap String Decimal) (seller : String) (fee : Decimal) :
    KeyMap String Decimal :=
  fees.put seller (match fees.get? seller with
    | some old => old.max fee
    | none => fee)

/-- The greatest fee of each location that has a price. -/
def dearest (rs : List LocationFeeRequest) (quotes : List Quote) : KeyMap String Decimal :=
  (rs.zip quotes).foldl (fun fees e =>
    match e.2.outcome with
    | .ok fee => raise fees e.1.seller (FixedPoint.priceOfRaw fee)
    | .error _ => fees) .empty

/-- The mean of some fees. -/
def mean (fees : List Decimal) : Except Fault Decimal := do
  let total ← Decimal.sum fees
  total.div (.ofInt64 (Int64.ofNat fees.length))

/-- The mean over the priced locations. -/
def meanFee (sellers : Nat) (buyer : String) (fees : KeyMap String Decimal) :
    Evaluation Decimal :=
  if fees.entries.isEmpty then
    throw ⟨.calculateHiddenFee, "no route from any of " ++ Text.numeral sellers ++
      " seller locations to " ++ buyer⟩
  else mean (fees.entries.map Prod.snd)

/-- The fee that an answer of logistics gives. -/
def warehouseFeeOf (sellers : Nat) (buyer : String) (rs : List LocationFeeRequest) :
    Except ServiceError (List Quote) → Evaluation Decimal
  | .error e => throw ⟨.calculateHiddenFee, e.message⟩
  | .ok quotes =>
    if quotes.length = rs.length then meanFee sellers buyer (dearest rs quotes)
    else throw (miscount quotes.length rs.length)

/-- The fee for parcels that leave from several locations. -/
def warehouseFee {σ : Type} (call : List LocationFeeRequest → Call σ (List Quote))
    (region : Region) (sellers : List String) (buyer : String) (channels : List Id)
    (weight : Int64) : StateM σ (Evaluation Decimal) := do
  let rs := locationRequests region sellers buyer channels weight
  if rs.isEmpty then
    return throw ⟨.calculateHiddenFee, "no seller location or channel to quote"⟩
  return warehouseFeeOf sellers.length buyer rs (← call rs)

end RegionPricing.Pricing
