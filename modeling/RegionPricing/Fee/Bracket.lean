import RegionPricing.Text.Quoted
import RegionPricing.Failure
import RegionPricing.Decimal.Rounding
import RegionPricing.Decimal.Text
import RegionPricing.FixedPoint

/-!
# Weight brackets and their fee

A `Bracket` holds the terms for parcels up to a weight: a price up to a start
weight, and an increment for each full step above it. The weight is first
rounded up to a multiple of a power of ten of grams. The terms hold any
decimals, so the computation can leave the range of decimals; `fee?` then
answers nothing and `fee` a failure that names the table.
-/

namespace RegionPricing.Fee

/-- Where the bracket of a fee was found: under the choice of an item, of a
shop or of a region, in the fallback, or in a table as such. -/
inductive Level where
  | item
  | shop
  | region
  | fallback
  | table
  deriving DecidableEq

namespace Level

def text : Level → String
  | .item => "item"
  | .shop => "shop"
  | .region => "region"
  | .fallback => "default"
  | .table => "table"

def all : List Level := [.item, .shop, .region, .fallback, .table]

def toJson (l : Level) : Json := .string l.text

def ofJson? : Json.Decoder Level := fun v => do
  let name ← Json.name? .text (all.map text) v
  all.find? fun l => l.text = name

end Level

/-- The terms for parcels up to a weight. -/
structure Bracket where
  /-- The greatest stored weight that the bracket covers. -/
  weightLimit : Int64
  startPrice : Decimal
  /-- In grams. -/
  startWeight : Decimal
  /-- Weights are rounded up to a multiple of `10 ^ -roundExponent` grams. -/
  roundExponent : Int32
  /-- The increment for each full step. -/
  stepPrice : Decimal
  /-- In grams. -/
  weightStep : Decimal
  adjustment : Decimal
  tableKey : String
  level : Level
  deriving DecidableEq

/-- The least weight that is at least `least`, at least `value` and, when it is
above `least`, a multiple of `unit`. Without a positive unit the value itself. -/
def roundUpTo (least unit value : Decimal) : Option Decimal :=
  if value.le least then some least
  else if !unit.isPositive then some value
  else do (← value.div? unit).ceil.mul? unit

namespace Bracket

/-- The greatest exponent, and the opposite of the least, that takes effect. -/
def maxExponent : Int := 18

/-- The exponent that takes effect. -/
def exponent (b : Bracket) : Int := min (max b.roundExponent.toInt (-maxExponent)) maxExponent

/-- The weights that the fee is computed from, in one unit: the rounded weight,
the start weight and the step. -/
structure Weights where
  rounded : Decimal
  start : Decimal
  step : Decimal

/-- The weights for a parcel. For a positive exponent the unit is the fraction
of a gram that weights are rounded to, otherwise the gram. -/
def weights? (b : Bracket) (grams : Decimal) : Option Weights :=
  if 0 < b.exponent then do
    let scale := Decimal.pow10 b.exponent.toNat
    let start ← b.startWeight.mul? scale
    let weight ← grams.mul? scale
    let step ← b.weightStep.mul? scale
    return ⟨← roundUpTo start .one weight, start, step⟩
  else do
    let unit := Decimal.pow10 b.exponent.natAbs
    return ⟨← roundUpTo b.startWeight unit grams, b.startWeight, b.weightStep⟩

/-- The number of full steps above the start weight. -/
def steps? (w : Weights) : Option Decimal :=
  if w.step.isPositive then do
    let above ← w.rounded.sub? w.start
    let ratio ← above.div? w.step
    return ratio.trunc
  else some .zero

/-- The fee for a parcel, never negative. -/
def fee? (b : Bracket) (grams : Decimal) : Option Decimal := do
  let w ← b.weights? grams
  let steps ← steps? w
  let increment ← steps.mul? b.stepPrice
  let price ← b.startPrice.add? increment
  let adjusted ← price.add? b.adjustment
  return adjusted.max .zero

/-- The fee for a parcel, or the failure that no decimal holds it. -/
def fee (b : Bracket) (grams : Decimal) : Outcome Decimal :=
  match b.fee? grams with
  | some v => .ok v
  | none => .error ⟨.internal,
      "hidden fee overflow in table " ++ Text.quoted b.tableKey ++ " at " ++ grams.canonical ++ "g"⟩

def toJson (b : Bracket) : Json :=
  .object [("weight_range", .integer b.weightLimit.toInt), ("start_price", b.startPrice.toJson),
    ("start_weight", b.startWeight.toJson), ("round_size", .integer b.roundExponent.toInt),
    ("price", b.stepPrice.toJson), ("weight_step", b.weightStep.toJson),
    ("adjustment", b.adjustment.toJson), ("hpfn_key", .string b.tableKey),
    ("level", b.level.toJson)]

def ofJson? : Json.Decoder Bracket := fun v => do
  let f ← Json.record? ["weight_range", "start_price", "start_weight", "round_size", "price",
    "weight_step", "adjustment", "hpfn_key", "level"] v
  return {
    weightLimit := ← f.required "weight_range" Json.int64?
    startPrice := ← f.required "start_price" Decimal.ofJson?
    startWeight := ← f.required "start_weight" Decimal.ofJson?
    roundExponent := ← f.required "round_size" Json.int32?
    stepPrice := ← f.required "price" Decimal.ofJson?
    weightStep := ← f.required "weight_step" Decimal.ofJson?
    adjustment := ← f.required "adjustment" Decimal.ofJson?
    tableKey := ← f.required "hpfn_key" Json.string?
    level := ← f.required "level" Level.ofJson? }

end Bracket

end RegionPricing.Fee
