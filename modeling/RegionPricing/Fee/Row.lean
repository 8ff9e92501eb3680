import RegionPricing.KeyMap
import RegionPricing.Region
import RegionPricing.Fee.Schedule

/-!
# Schedules written as rows of text

A schedule is configured as rows that map the name of a column to a cell of
text. `Row.bracket` reads one row, column by column, and blames the first cell
that is missing or unreadable; `Schedule.ofRows` reads a whole table.
-/

namespace RegionPricing.Fee

/-- A row: the cells by the names of their columns. -/
abbrev Row := KeyMap String String

/-- Why rows are no schedule. -/
inductive TableError where
  | missingField (row : Nat) (field : String)
  | invalidField (row : Nat) (field value : String)
  | missingRegions (regions : List String)
  | empty (key : String)
  deriving DecidableEq

/-- The error in words. -/
def TableError.message : TableError → String
  | .missingField row field =>
    "rate table row " ++ Text.numeral row ++ ": missing field " ++ field
  | .invalidField row field value =>
    "rate table row " ++ Text.numeral row ++ ": invalid " ++ field ++ " value " ++ Text.quoted value
  | .missingRegions regions => "default rate table missing regions: " ++ Text.quotedList regions
  | .empty key => "rate table " ++ key ++ " has no rows"

/-- The reading of rows: a value or the first error, unless arithmetic fails. -/
abbrev Reading (α : Type) := ExceptT TableError (Except Fault) α

namespace Row

/-- The text of a cell. -/
def cell (row : Row) (index : Nat) (field : String) : Reading String :=
  match row.get? field with
  | some text => return text
  | none => throw (.missingField index field)

/-- The decimal in a cell. -/
def decimal (row : Row) (index : Nat) (field : String) : Reading Decimal := do
  let text ← row.cell index field
  match Decimal.ofText text with
  | .ok d => return d
  | .error _ => throw (.invalidField index field text)

/-- Whether a text says that there is no bound. -/
def isUnbounded (cs : List Char) : Bool := cs.map upper = ['I', 'N', 'F']

/-- The stored weight that a text gives in grams, at most the unbounded one. -/
def weightLimit? (text : String) : Option Int64 :=
  let cs := Text.trim text.toList
  if isUnbounded cs then some FixedPoint.unboundedWeight
  else
    match Decimal.read cs with
    | .ok grams =>
      if grams.isNegative then none
      else
        let raw := FixedPoint.rawOfGrams grams
        some (if raw < FixedPoint.unboundedWeight then raw else FixedPoint.unboundedWeight)
    | .error _ => none

/-- The weight limit in the text of a cell. -/
def weightLimit (index : Nat) (text : String) : Reading Int64 :=
  match weightLimit? text with
  | some w => return w
  | none => throw (.invalidField index "weight_range" text)

/-- The exponent in the text of a cell, of at most 18 in size. The size of the
least number of 32 bits is itself out of range. -/
def roundExponent (index : Nat) (text : String) : Reading Int32 :=
  match Text.signed? (-2147483648) 2147483647 (Text.trim text.toList) with
  | some n =>
    if n = -2147483648 then throwThe Fault .magnitudeOverflow
    else if (n.natAbs : Int) ≤ Bracket.maxExponent then return Int32.ofInt n
    else throw (.invalidField index "round_size" text)
  | none => throw (.invalidField index "round_size" text)

/-- The bracket of a row. -/
def bracket (row : Row) (index : Nat) (key : String) (level : Level) : Reading Bracket := do
  let limit ← weightLimit index (← row.cell index "weight_range")
  let exponent ← roundExponent index (← row.cell index "round_size")
  return {
    weightLimit := limit
    startPrice := ← row.decimal index "start_price"
    startWeight := ← row.decimal index "start_weight"
    roundExponent := exponent
    stepPrice := ← row.decimal index "price"
    weightStep := ← row.decimal index "weight_step"
    adjustment := ← row.decimal index "adjustment"
    tableKey := key
    level := level }

def ofJson? : Json.Decoder Row := Json.map? id Json.string?

def toJson (row : Row) : Json := .object (row.entries.map fun e => (e.1, .string e.2))

end Row

/-- The brackets of some rows, in order. -/
def bracketsOfRows (key : String) (level : Level) (rows : List Row) : Reading (List Bracket) :=
  rows.zipIdx.mapM fun e => e.1.bracket e.2 key level

/-- The schedule of some rows, of which there must be at least one. -/
def Schedule.ofRows (key : String) (level : Level) (rows : List Row) : Reading Schedule := do
  if rows.isEmpty then throw (.empty key)
  return .ofBrackets key (← bracketsOfRows key level rows)

end RegionPricing.Fee
