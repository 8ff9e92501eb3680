import RegionPricing.PriceRounding
import RegionPricing.Fee.Tariff
import RegionPricing.Rules.Terms

/-!
# Pricing rules as they are written

A `Document` is the form in which pricing rules are written down: the terms of
corridors, the rounding of currencies, fee tables in rows of text with the
choices made for regions, and the rows of the fallback. Every part may be left
out.
-/

namespace RegionPricing.Rules

/-- A fee table with its key. -/
structure NamedRows where
  key : String
  rows : List Fee.Row

namespace NamedRows

def toJson (t : NamedRows) : Json :=
  .object [("key", .string t.key), ("rows", .array (t.rows.map Fee.Row.toJson))]

def ofJson? : Json.Decoder NamedRows := fun v => do
  let f ← Json.record? ["key", "rows"] v
  return {
    key := ← f.required "key" Json.string?
    rows := ← f.required "rows" (Json.list? Fee.Row.ofJson?) }

end NamedRows

/-- The choice made for the shops of a merchant region that sell in a primary
region. -/
structure RegionalChoice where
  merchant : Region
  primary : Region
  choice : Fee.Choice

namespace RegionalChoice

def toJson (c : RegionalChoice) : Json :=
  .object ([("merchant_region", c.merchant.toJson), ("primary_region", c.primary.toJson)] ++
    c.choice.toFields)

/-- The fields of the choice stand beside the two regions. -/
def ofJson? : Json.Decoder RegionalChoice := fun v => do
  let f ← Json.flatRecord? ["merchant_region", "primary_region"] Fee.Choice.fieldNames v
  return {
    merchant := ← f.required "merchant_region" Region.ofJson?
    primary := ← f.required "primary_region" Region.ofJson?
    choice := ← Fee.Choice.ofFields? f }

end RegionalChoice

/-- Pricing rules as they are written. -/
structure Document where
  terms : List Terms
  currencies : KeyMap Region PriceRounding
  tables : List NamedRows
  regional : List RegionalChoice
  fallback : List Fee.Row

namespace Document

instance : Inhabited Document := ⟨⟨[], .empty, [], [], []⟩⟩

def toJson (d : Document) : Json :=
  .object [("common_price_configs", .array (d.terms.map Terms.toJson)),
    ("currencies", .object (d.currencies.entries.map fun e => (e.1.text, e.2.toJson))),
    ("rate_tables", .array (d.tables.map NamedRows.toJson)),
    ("region_rate_tables", .array (d.regional.map RegionalChoice.toJson)),
    ("default_hidden_fee_table", .array (d.fallback.map Fee.Row.toJson))]

def ofJson? : Json.Decoder Document := fun v => do
  let f ← Json.record? ["common_price_configs", "currencies", "rate_tables", "region_rate_tables",
    "default_hidden_fee_table"] v
  return {
    terms := ← f.orDefault "common_price_configs" [] (Json.list? Terms.ofJson?)
    currencies := ← f.orDefault "currencies" .empty
      (Json.map? Region.ofText PriceRounding.ofJson?)
    tables := ← f.orDefault "rate_tables" [] (Json.list? NamedRows.ofJson?)
    regional := ← f.orDefault "region_rate_tables" [] (Json.list? RegionalChoice.ofJson?)
    fallback := ← f.orDefault "default_hidden_fee_table" [] (Json.list? Fee.Row.ofJson?) }

end Document

end RegionPricing.Rules
