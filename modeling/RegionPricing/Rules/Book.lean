import RegionPricing.Json.Reader
import RegionPricing.Rules.Document

/-!
# The rule book

A `Book` is a set of pricing rules ready for use: what a document says, indexed
by what is looked up. A document with a malformed fee table makes no book. A
malformed or incomplete fallback is left out instead, so that fees which only it
could give are reported as missing.
-/

namespace RegionPricing.Rules

/-- Pricing rules ready for use. -/
structure Book where
  terms : KeyMap Corridor Terms
  currencies : KeyMap Region PriceRounding
  tariff : Fee.Tariff

namespace Book

/-- The book without rules. -/
def empty : Book := ⟨.empty, .empty, default⟩

instance : Inhabited Book := ⟨empty⟩

/-- The terms of a corridor. -/
def terms? (b : Book) (c : Corridor) : Option Terms := b.terms.get? c

/-- The rounding of a region. -/
def rounding (b : Book) (r : Region) : PriceRounding := (b.currencies.get? r).getD .standard

/-- The fallback of a document, if it has rows and they are usable. -/
def fallbackOf (rows : List Fee.Row) : Except Fault (Option Fee.Fallback) :=
  if rows.isEmpty then .ok none
  else (Fee.Fallback.ofRows rows).run.map Except.toOption

/-- The schedule of a fee table. -/
def scheduleOf (t : NamedRows) : Fee.Reading Fee.Schedule :=
  Fee.Schedule.ofRows t.key .table t.rows

/-- The book of a document. Of entries with the same key the last one counts. -/
def ofDocument (d : Document) : Fee.Reading Book := do
  let schedules ← d.tables.mapM scheduleOf
  let fallback ← fallbackOf d.fallback
  return {
    terms := .ofList (d.terms.map fun t => (t.corridor, t))
    currencies := d.currencies
    tariff := .ofParts schedules
      (d.regional.map fun c => ((c.merchant, c.primary), c.choice)) fallback }

/-- Why a text gives no book. -/
inductive LoadError where
  /-- The text is no document. -/
  | document
  | table (e : Fee.TableError)
  deriving DecidableEq

def LoadError.message : LoadError → String
  | .document => "invalid pricing config json"
  | .table e => e.message

/-- The book of a value. -/
def ofJson (v : Json) : ExceptT LoadError (Except Fault) Book :=
  match Document.ofJson? v with
  | none => throw .document
  | some d => (ofDocument d).adapt .table

/-- The book of a text. -/
def ofText (s : String) : ExceptT LoadError (Except Fault) Book :=
  match Json.parse? s with
  | none => throw .document
  | some v => ofJson v

end Book

end RegionPricing.Rules
