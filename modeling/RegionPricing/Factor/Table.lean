import RegionPricing.Factor.Layers

/-!
# A table as a source

A `Table` answers keys from what has been put into it, under their texts: keys
with one text have one outcome. It can be changed at any time, and it remembers
which keys it has been asked for and how many it was told to forget, so that one
can see what the cache tiers in front of it do.
-/

namespace RegionPricing.Factor

/-- Outcomes by the texts of keys, with the calls that have come. -/
structure Table (κ ν : Type) where
  entries : KeyMap String (Outcome ν)
  /-- Whether keys without an entry are left out of an answer. -/
  omitMissing : Bool
  asked : List (List κ)
  forgotten : Nat

namespace Table

/-- A table without entries. -/
def empty {κ ν : Type} (omitMissing : Bool) : Table κ ν := ⟨.empty, omitMissing, [], 0⟩

variable {κ ν : Type} [KeyText κ]

def get? (t : Table κ ν) (k : κ) : Option (Outcome ν) := t.entries.get? (keyText k)

def drop (t : Table κ ν) (k : κ) : Table κ ν :=
  { t with entries := t.entries.erase (keyText k) }

def put (t : Table κ ν) (k : κ) (o : Outcome ν) : Table κ ν :=
  { t with entries := t.entries.put (keyText k) o }

/-- The outcome of a key; a key without an entry is not found. -/
def answer (t : Table κ ν) (k : κ) : Outcome ν := (t.get? k).getD (.error ⟨.notFound, "table"⟩)

/-- The table as a source behind the tiers. -/
def source [DecidableEq κ] : Source (Table κ ν) κ ν where
  fetch keys := Env.direct fun t =>
    let known := keys.filter fun k => !t.omitMissing || (t.get? k).isSome
    (Answers.ofKeys known t.answer, { t with asked := t.asked ++ [keys] })
  forget keys := Env.direct fun t => ((), { t with forgotten := t.forgotten + keys.length })

end Table

end RegionPricing.Factor
