import RegionPricing.Fee.Fallback

/-!
# Choosing the schedule of a fee

A `Tariff` holds schedules by key. Which key applies to a corridor is chosen
for the item, for the shop or for the region, in this order; a choice counts
only when its schedule is there and covers the weight. After them comes the
fallback of the affiliate region.
-/

namespace RegionPricing.Fee

/-- The keys of the schedules to use: one within the own region, the others by
affiliate region. -/
structure Choice where
  own : Option String
  abroad : KeyMap Region String
  deriving DecidableEq

namespace Choice

instance : Inhabited Choice := ⟨⟨none, .empty⟩⟩

/-- The key for a corridor. -/
def keyFor (c : Choice) (corridor : Corridor) : Option String :=
  if corridor.primary = corridor.affiliate then c.own else c.abroad.get? corridor.affiliate

/-- The names of the fields of a choice. -/
def fieldNames : List String := ["mst_key", "affi_keys"]

def ofFields? (f : Json.Fields) : Option Choice := do
  return {
    own := ← f.orDefault "mst_key" none (Json.nullable? Json.string?)
    abroad := ← f.orDefault "affi_keys" .empty (Json.map? Region.ofText Json.string?) }

def ofJson? : Json.Decoder Choice := fun v => (Json.record? fieldNames v).bind ofFields?

/-- The fields of a choice in JSON. -/
def toFields (c : Choice) : List (String × Json) :=
  [("mst_key", c.own.elim .null .string),
    ("affi_keys", .object (c.abroad.entries.map fun e => (e.1.text, .string e.2)))]

def toJson (c : Choice) : Json := .object c.toFields

end Choice

/-- The merchant region of a shop that names none. -/
def homeRegion : Region := .ofText "CN"

/-- What a fee is asked for. -/
structure Parcel where
  itemChoice : Option Choice
  shopChoice : Option Choice
  merchantRegion : Option Region
  corridor : Corridor
  grams : Decimal

/-- The merchant region, or the home region when there is none. -/
def Parcel.merchant (p : Parcel) : Region :=
  (p.merchantRegion.filter fun r => !r.isEmpty).getD homeRegion

/-- A fee with the bracket that it comes from. -/
structure Charge where
  fee : Decimal
  bracket : Bracket

/-- All schedules and the choices made for regions. -/
structure Tariff where
  schedules : KeyMap String Schedule
  /-- By merchant region and primary region. -/
  regional : KeyMap (Region × Region) Choice
  fallback : Option Fallback

namespace Tariff

instance : Inhabited Tariff := ⟨⟨.empty, .empty, none⟩⟩

/-- A tariff of some schedules and choices; of two with the same key the later
counts. -/
def ofParts (schedules : List Schedule) (regional : List ((Region × Region) × Choice))
    (fallback : Option Fallback) : Tariff :=
  ⟨.ofList (schedules.map fun s => (s.key, s)), .ofList regional, fallback⟩

/-- The choices for a parcel with their levels, the nearest first. -/
def choices (t : Tariff) (p : Parcel) : List (Level × Option Choice) :=
  [(.item, p.itemChoice), (.shop, p.shopChoice),
    (.region, t.regional.get? (p.merchant, p.corridor.primary))]

/-- The bracket that a choice leads to. -/
def chosen? (t : Tariff) (corridor : Corridor) (weight : Int64) (choice : Option Choice) :
    Option Bracket := do
  let key ← (← choice).keyFor corridor
  (← t.schedules.get? key).select weight

/-- The bracket of the fallback. -/
def fallback? (t : Tariff) (corridor : Corridor) (weight : Int64) : Option Bracket := do
  (← (← t.fallback).get? corridor.affiliate).select weight

/-- The bracket for a parcel, marked with the level at which it was found. -/
def bracket? (t : Tariff) (p : Parcel) : Option Bracket :=
  let weight := FixedPoint.rawOfGrams p.grams
  let found := (t.choices p).findSome? fun c =>
    (t.chosen? p.corridor weight c.2).map fun b => { b with level := c.1 }
  found.or ((t.fallback? p.corridor weight).map fun b => { b with level := .fallback })

/-- The fee for a parcel; nothing when no bracket covers it. -/
def charge (t : Tariff) (p : Parcel) : Outcome (Option Charge) :=
  match t.bracket? p with
  | none => .ok none
  | some b => (b.fee p.grams).map fun v => some ⟨v, b⟩

end Tariff

end RegionPricing.Fee
