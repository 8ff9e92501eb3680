import RegionPricing.KeyMap
import RegionPricing.Json.Basic

/-!
# Decoding values by shape

A decoder takes a value and fails on any other shape than its own. A record is
an object with named fields: fields it does not know are skipped, a known field
must not come twice. It may also be given as an array of its fields in order.
`Fields` holds what such a value gives, `required`, `optional` and `orDefault`
take one field from it.

A choice is a tag with a content. Content that stands before its tag cannot be
decoded on the spot: it is collected, and names and tags within it are taken
less strictly than in the text itself. `Origin` tells the two apart.
-/

namespace RegionPricing.Json

/-- A decoder of values of one shape. -/
abbrev Decoder (α : Type) := Json → Option α

/-! ## Single values -/

/-- A whole number between two bounds. -/
def integerIn? (min max : Int) : Decoder Int
  | .integer n => if min ≤ n ∧ n ≤ max then some n else none
  | _ => none

/-- An unsigned number of 64 bits. -/
def uint64? : Decoder UInt64 := fun v =>
  (integerIn? 0 18446744073709551615 v).map fun n => UInt64.ofNat n.toNat

/-- A signed number of 64 bits. -/
def int64? : Decoder Int64 := fun v =>
  (integerIn? (-9223372036854775808) 9223372036854775807 v).map Int64.ofInt

/-- An unsigned number of 32 bits. -/
def uint32? : Decoder UInt32 := fun v =>
  (integerIn? 0 4294967295 v).map fun n => UInt32.ofNat n.toNat

/-- A signed number of 32 bits. -/
def int32? : Decoder Int32 := fun v =>
  (integerIn? (-2147483648) 2147483647 v).map Int32.ofInt

/-- A truth value. -/
def bool? : Decoder Bool
  | .bool b => some b
  | _ => none

/-- A string. -/
def string? : Decoder String
  | .string s => some s
  | _ => none

/-- A value or null. -/
def nullable? {α : Type} (d : Decoder α) : Decoder (Option α)
  | .null => some none
  | v => (d v).map some

/-- Two values in an array. -/
def pair? {α β : Type} (a : Decoder α) (b : Decoder β) : Decoder (α × β)
  | .array [x, y] => do return (← a x, ← b y)
  | _ => none

/-- Three values in an array. -/
def triple? {α β γ : Type} (a : Decoder α) (b : Decoder β) (c : Decoder γ) : Decoder (α × β × γ)
  | .array [x, y, z] => do return (← a x, ← b y, ← c z)
  | _ => none

/-- A list of values. -/
def list? {α : Type} (d : Decoder α) : Decoder (List α)
  | .array xs => xs.mapM d
  | _ => none

/-- A map from strings; of two equal keys the later wins. -/
def map? {κ ν : Type} [DecidableEq κ] (key : String → κ) (d : Decoder ν) :
    Decoder (KeyMap κ ν)
  | .object fs => (fs.mapM fun f => (d f.2).map fun v => (key f.1, v)).map KeyMap.ofList
  | _ => none

/-! ## Names -/

/-- Where a decoder takes its value from. -/
inductive Origin where
  /-- The text itself: the decoder was known when the value was reached. -/
  | text
  /-- What was collected from the text before the decoder was known. -/
  | collected
  deriving DecidableEq

/-- What may stand under a name in place of the name alone: null, and in a
collected value an empty object too. -/
def isBare : Origin → Json → Bool
  | _, .null => true
  | .collected, .object [] => true
  | _, _ => false

/-- One of some names, as a string or as the only key of an object that holds
nothing under it. -/
def name? (origin : Origin) (names : List String) : Decoder String
  | .string s => if s ∈ names then some s else none
  | .object [(s, v)] => if s ∈ names ∧ isBare origin v then some s else none
  | _ => none

/-- One of some names as the first item of an array: a string, in a collected
value also its place in the list, counted from zero. -/
def leadingName? (names : List String) : Origin → Decoder String
  | _, .string s => if s ∈ names then some s else none
  | .collected, .integer n => if 0 ≤ n then names[n.toNat]? else none
  | _, _ => none

/-! ## Records -/

/-- The known fields of a record that are there. -/
structure Fields where
  /-- Whether the record was given as an array. -/
  positional : Bool
  present : List (String × Json)

/-- The known fields of a value, if each comes at most once. -/
def record? (names : List String) : Decoder Fields
  | .object fs =>
    let known := fs.filter fun f => f.1 ∈ names
    if (known.map Prod.fst).Nodup then some ⟨false, known⟩ else none
  | .array xs => if xs.length ≤ names.length then some ⟨true, names.zip xs⟩ else none
  | _ => none

/-- As `record?`, for a record that must be an object and whose fields, apart
from `own`, are collected before they are sorted out. -/
def flatRecord? (own names : List String) : Decoder Fields
  | .object fs =>
    if (fs.filter fun f => !decide (f.1 ∈ own)).all fun f => f.2.isWhole then
      record? (own ++ names) (.object fs)
    else none
  | _ => none

namespace Fields

/-- The value of a field that is there. -/
def get? (f : Fields) (name : String) : Option Json :=
  (f.present.find? (fun e => e.1 = name)).map Prod.snd

/-- A field that must be there. -/
def required {α : Type} (f : Fields) (name : String) (d : Decoder α) : Option α :=
  match f.get? name with
  | some v => d v
  | none => none

/-- A field that has a default. -/
def orDefault {α : Type} (f : Fields) (name : String) (dflt : α) (d : Decoder α) : Option α :=
  match f.get? name with
  | some v => d v
  | none => some dflt

/-- A field that may be null or absent; an array must still have it. -/
def optional {α : Type} (f : Fields) (name : String) (d : Decoder α) : Option (Option α) :=
  match f.get? name with
  | some v => nullable? d v
  | none => if f.positional then none else some none

end Fields

/-! ## Choices -/

/-- The tag of a choice and its content with the origin of that. -/
structure Tagged where
  tag : String
  origin : Origin
  content : Json

/-- A choice between some names: an object with tag and content under the given
fields, or an array of the two. -/
def tagged? (origin : Origin) (tag content : String) (names : List String) : Decoder Tagged
  | .object fs => do
    let known := fs.filter fun f => f.1 = tag ∨ f.1 = content
    match known with
    | [(k, x), (l, y)] =>
      if k = tag ∧ l = content then return ⟨← name? origin names x, origin, y⟩
      else if k = content ∧ l = tag ∧ x.isWhole then return ⟨← name? origin names y, .collected, x⟩
      else none
    | _ => none
  | .array [x, y] => do return ⟨← leadingName? names origin x, origin, y⟩
  | _ => none

end RegionPricing.Json
