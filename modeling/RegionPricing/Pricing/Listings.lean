import RegionPricing.Formula
import RegionPricing.Rules.Book
import RegionPricing.Batch.Query
import RegionPricing.Pricing.HiddenFees
import RegionPricing.Pricing.Warehouses

/-!
# Local listings

The price of a local listing needs a hidden price and a shipping fee. The terms
of the corridor say for each of them whether it comes from the stored brackets
or from logistics. A hidden price of logistics is quoted for the item, or, when
the shop has several warehouses and the buyer's location is known, taken as the
mean over the warehouses.
-/

namespace RegionPricing.Pricing

open RegionPricing.Factor RegionPricing.Market RegionPricing.Batch RegionPricing.Rules

/-! ## Fees from the stored brackets -/

/-- Where a kind of fee comes from in a corridor. -/
def feeSource (book : Book) (table : Store.FeeTable) (c : Corridor) : FeeSource :=
  match book.terms? c with
  | none => .brackets
  | some t =>
    match table with
    | .hiddenPrice => t.hiddenFeeSource
    | .shippingFee => t.shippingFeeSource

/-- The words for a kind of fee that is not configured. -/
def missingFee : Store.FeeTable → String
  | .hiddenPrice => "hidden price config"
  | .shippingFee => "local shipping fee config"

/-- The fee of a listing that no bracket covers: the initial hidden price of the
corridor, and no shipping fee. -/
def initialFee (book : Book) (table : Store.FeeTable) (c : Corridor) : Option Decimal :=
  match table with
  | .hiddenPrice => (book.terms? c).bind Terms.initialHiddenPrice
  | .shippingFee => none

/-- What the store has for a corridor and a weight. -/
abbrev FoundBracket := Outcome (Option Fee.Bracket)

/-- The fee of a listing from the bracket that was found for it. -/
def storedFee (book : Book) (table : Store.FeeTable) (found : FoundBracket) (l : ListingQuery) :
    Outcome Decimal :=
  match found with
  | .error f => .error f
  | .ok (some b) => b.fee (FixedPoint.gramsOfRaw l.weight)
  | .ok none =>
    match initialFee book table l.corridor with
    | some fee => .ok fee
    | none => .error ⟨.notFound, missingFee table ++ " for " ++ l.corridor.text ++ " weight " ++
        Text.signedNumeral l.weight.toInt⟩

/-- The marked listings whose fee of a kind comes from a source. -/
def servedBy (book : Book) (table : Store.FeeTable) (source : FeeSource)
    (ls : List (Nat × ListingQuery)) : List (Nat × ListingQuery) :=
  ls.filter fun l => feeSource book table l.2.corridor = source

/-- What a listing's bracket is found by. -/
def bracketKey (l : ListingQuery) : Corridor × Int64 := (l.corridor, l.weight)

/-- The brackets of listings, each looked up once for all that share it. -/
def bracketsFor (table : Store.FeeTable) (store : Store) (ls : List (Nat × ListingQuery)) :
    KeyMap (Corridor × Int64) FoundBracket :=
  .ofList ((ls.map fun l => bracketKey l.2).eraseDups.map fun k =>
    (k, store.bracket? table k.1 k.2))

/-- The fees of marked listings from the stored brackets. -/
def storedFees (book : Book) (table : Store.FeeTable) (store : Store)
    (ls : List (Nat × ListingQuery)) : List (Nat × Outcome Decimal) :=
  let ls := servedBy book table .brackets ls
  let brackets := bracketsFor table store ls
  ls.map fun l =>
    (l.1, storedFee book table ((brackets.get? (bracketKey l.2)).getD (.ok none)) l.2)

/-! ## Hidden prices from logistics -/

/-- How the hidden price of a listing is got from logistics. -/
inductive Route where
  | failed (f : Failure)
  | single (r : HiddenFeeRequest)
  /-- From several warehouses to a buyer. -/
  | several (sellers : List String) (buyer : String) (channels : List Id) (l : ListingQuery)

/-- The route of a listing with channels. -/
def routeFor (buyer : Option String) (l : ListingQuery) (shop : Shop) (channels : List Id) :
    Route :=
  match buyer with
  | some b =>
    if 1 < shop.warehouses.length then .several shop.warehouses b channels l
    else .single ⟨l.shopId, l.itemId, l.corridor.affiliate, l.weight, channels⟩
  | none => .single ⟨l.shopId, l.itemId, l.corridor.affiliate, l.weight, channels⟩

/-- The route of a listing. -/
def routeOf (book : Book) (shops : Answers Id Shop) (channels : EnabledChannels)
    (l : ListingQuery) : Route :=
  match shops.lookup "shop" l.shopId, channels with
  | .error f, _ => .failed f
  | .ok _, .error f => .failed f
  | .ok shop, .ok found =>
    let key : ShopItem := ⟨l.shopId, l.itemId⟩
    match (found.get? key).getD [] with
    | [] => .failed ⟨.emptyEnabledChannels, key.text⟩
    | c :: cs =>
      routeFor ((book.terms? l.corridor).bind Terms.buyerLocation) l shop ((c :: cs).map Channel.id)

/-- The listings without a route. -/
def failedRoutes (routes : List (Nat × Route)) : List (Nat × Outcome Decimal) :=
  routes.filterMap fun r =>
    match r.2 with
    | .failed f => some (r.1, .error f)
    | _ => none

/-- The requests for single quotes. -/
def singleRequests (routes : List (Nat × Route)) : List (Nat × HiddenFeeRequest) :=
  routes.filterMap fun r =>
    match r.2 with
    | .single q => some (r.1, q)
    | _ => none

/-- The fees of the listings with several warehouses. -/
def severalFees {σ : Type} (s : Services σ) :
    List (Nat × Route) → StateM σ (List (Nat × Evaluation Decimal))
  | [] => return []
  | (n, .several sellers buyer channels l) :: rest => do
    let fee ← warehouseFee s.locationFees l.corridor.affiliate sellers buyer channels l.weight
    return (n, fee) :: (← severalFees s rest)
  | _ :: rest => severalFees s rest

/-- Marked outcomes as evaluations. -/
def evaluations (os : List (Nat × Outcome Decimal)) : List (Nat × Evaluation Decimal) :=
  os.map fun o => (o.1, ofExcept o.2)

namespace Setup

variable {σ : Type}

/-- The hidden prices of marked listings from logistics. -/
def quotedHiddenPrices (s : Setup σ) (book : Book) (ls : List (Nat × ListingQuery)) :
    Session σ (List (Nat × Evaluation Decimal)) := do
  if ls.isEmpty then return []
  let shops ← s.shops.fetch (ls.map fun l => l.2.shopId).eraseDups
  let channels := enabledChannels (← ask (s.services.channels
    (ls.map fun l => ShopItem.mk l.2.shopId l.2.itemId).eraseDups))
  let routes := ls.map fun l => (l.1, routeOf book shops channels l.2)
  let several ← ask (severalFees s.services routes)
  let singles ← ask (quoteInChunks s.quoteBatch .calculateHiddenFee s.services.hiddenFees
    (singleRequests routes))
  return evaluations (failedRoutes routes) ++ several ++ evaluations singles

/-- The hidden price of each listing. -/
def hiddenPrices (s : Setup σ) (book : Book) (ls : List ListingQuery) :
    Session σ (Except Fault (List (Outcome Decimal))) := do
  let marked := ls.zipIdx.map fun l => (l.2, l.1)
  let stored ← reading fun store => storedFees book .hiddenPrice store marked
  let quotes ← s.quotedHiddenPrices book (servedBy book .hiddenPrice .logistics marked)
  return (inOrder (evaluations stored ++ quotes)).mapM ExceptT.run

/-- The request for the shipping fee of a listing. -/
def shippingRequest (l : ListingQuery) : ShippingFeeRequest :=
  ⟨l.shopId, l.itemId, l.corridor, l.weight⟩

/-- The shipping fee of each listing. -/
def shippingFees (s : Setup σ) (book : Book) (ls : List ListingQuery) :
    Session σ (List (Outcome Decimal)) := do
  let marked := ls.zipIdx.map fun l => (l.2, l.1)
  let stored ← reading fun store => storedFees book .shippingFee store marked
  let quotes ← ask (quoteInChunks s.quoteBatch .externalService s.services.shippingFees
    ((servedBy book .shippingFee .logistics marked).map fun l => (l.1, shippingRequest l.2)))
  return inOrder (stored ++ quotes)

end Setup

/-! ## Prices -/

/-- The fees that the prices of a batch depend on, by query. -/
structure ListingFees where
  hiddenPrices : Answers Id Decimal
  shippingFees : Answers Id Decimal

/-- Whether the price of a listing depends on its fees: it has a weight, and the
corridor has terms. -/
def needsFees (book : Book) (q : ListingPriceQuery) : Bool :=
  0 < q.weight && (book.terms? q.corridor).isSome

/-- The fees that the prices of a batch depend on. -/
def Setup.listingFees {σ : Type} (s : Setup σ) (book : Book) (qs : List ListingPriceQuery) :
    Session σ (Except Fault ListingFees) := do
  let priced := qs.filter (needsFees book)
  let listings := priced.map ListingPriceQuery.listing
  let ids := priced.map ListingPriceQuery.id
  let hidden ← s.hiddenPrices book listings
  let shipping ← s.shippingFees book listings
  return hidden.map fun fees => ⟨.ofList (ids.zip fees), .ofList (ids.zip shipping)⟩

/-- What the formula needs of a listing. -/
def listingOf (q : ListingPriceQuery) (terms : Terms) (hidden shipping : Decimal) :
    Formula.Listing where
  primaryPrice := FixedPoint.priceOfRaw q.primaryPrice
  weight := FixedPoint.gramsOfRaw q.weight
  factors := some {
    exchangeRate := terms.effectiveExchangeRate
    regionMargin := terms.effectiveMargin
    hiddenPrice := hidden
    shippingFee := shipping }
  itemMargin := q.itemMargin.getD .zero
  shopMargin := q.shopMargin.getD .zero
  overseaRate := q.overseaRate

/-- A price rounded to the currency of a region, as a stored number. -/
def charged (book : Book) (region : Region) (price : Decimal) : Except Fault Int64 := do
  return FixedPoint.rawOfPrice (← (book.rounding region).round price)

/-- The price of a listing in the affiliate region. -/
def listingPrice (book : Book) (fees : ListingFees) (q : ListingPriceQuery) :
    Evaluation Int64 := do
  if q.weight ≤ 0 then return 0
  match book.terms? q.corridor with
  | none => return q.primaryPrice
  | some terms =>
    let hidden ← ofExcept (fees.hiddenPrices.lookup "hidden price" q.id)
    let shipping ← ofExcept (fees.shippingFees.lookup "shipping fee" q.id)
    let price ← Formula.affiliatePrice (listingOf q terms hidden shipping)
    charged book q.corridor.affiliate price

end RegionPricing.Pricing
