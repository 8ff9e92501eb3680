import RegionPricing.Text.Blank
import RegionPricing.Text.Digits
import RegionPricing.Json.Shape

/-!
# Regions, corridors and identifiers

A `Region` is a region code in its normal form: without blanks around it and
with the ASCII letters in upper case. The normal form is part of the type, so
two spellings of a code are the same region wherever regions are compared. A
`Corridor` leads from a primary region to an affiliate region.
-/

namespace RegionPricing

/-- The identifier of a shop, item, model, merchant, channel or query. -/
abbrev Id := UInt64

/-- An identifier as text. -/
def Id.text (id : Id) : String := Text.numeral id.toNat

/-- An identifier in JSON. -/
def Id.toJson (id : Id) : Json := .integer id.toNat

/-! ## The normal form of a region code -/

/-- An ASCII letter in upper case; any other character as it is. -/
def upper (c : Char) : Char :=
  if 97 ≤ c.toNat ∧ c.toNat ≤ 122 then Char.ofNat (c.toNat - 32) else c

theorem toNat_upper (c : Char) :
    (upper c).toNat = if 97 ≤ c.toNat ∧ c.toNat ≤ 122 then c.toNat - 32 else c.toNat := by
  unfold upper
  split
  · rename_i h
    have hv : (c.toNat - 32).isValidChar := by
      left
      omega
    rw [Char.ofNat, dif_pos hv]
    rfl
  · rfl

theorem isBlank_upper (c : Char) : Text.isBlank (upper c) = Text.isBlank c := by
  have h := toNat_upper c
  unfold Text.isBlank
  split at h
  · rename_i hc
    have e1 : ∀ k : Nat, k < 65 ∨ 90 < k → ((upper c).toNat == k) = false := by
      intro k hk
      simp only [beq_eq_false_iff_ne, ne_eq]
      omega
    have e2 : ∀ k : Nat, k < 97 ∨ 122 < k → (c.toNat == k) = false := by
      intro k hk
      simp only [beq_eq_false_iff_ne, ne_eq]
      omega
    have l1 : ∀ k : Nat, 90 < k → decide (k ≤ (upper c).toNat) = false := by
      intro k hk
      simp only [decide_eq_false_iff_not]
      omega
    have l2 : ∀ k : Nat, 122 < k → decide (k ≤ c.toNat) = false := by
      intro k hk
      simp only [decide_eq_false_iff_not]
      omega
    have g1 : decide ((upper c).toNat ≤ 13) = false := by
      simp only [decide_eq_false_iff_not]
      omega
    have g2 : decide (c.toNat ≤ 13) = false := by
      simp only [decide_eq_false_iff_not]
      omega
    simp [e1, e2, l1, l2, g1, g2]
  · rw [h]

theorem upper_upper (c : Char) : upper (upper c) = upper c := by
  have h := toNat_upper c
  have h2 : ¬ (97 ≤ (upper c).toNat ∧ (upper c).toNat ≤ 122) := by
    split at h <;> omega
  generalize upper c = d at h2
  unfold upper
  rw [if_neg h2]

/-- The normal form of a region code. -/
def normalCode (cs : List Char) : List Char := (Text.trim cs).map upper

theorem normalCode_normalCode (cs : List Char) : normalCode (normalCode cs) = normalCode cs := by
  unfold normalCode
  have hb : ∀ d : Char, (!Text.isBlank (upper d)) = !Text.isBlank d := by
    intro d
    rw [isBlank_upper]
  have ht : Text.Tight ((Text.trim cs).map upper) := by
    obtain ⟨h1, h2⟩ := Text.tight_trim cs
    constructor
    · rw [List.head?_map, Option.all_map]
      simpa [Function.comp_def, hb] using h1
    · rw [List.getLast?_map, Option.all_map]
      simpa [Function.comp_def, hb] using h2
  rw [Text.trim_eq_self ht, List.map_map]
  congr 1
  funext c
  exact upper_upper c

/-! ## Regions -/

/-- A region code in its normal form. -/
structure Region where
  code : List Char
  normal : normalCode code = code
  deriving DecidableEq

namespace Region

/-- The region of a spelling. -/
def ofText (s : String) : Region := ⟨normalCode s.toList, normalCode_normalCode _⟩

/-- The code as text. -/
def text (r : Region) : String := String.ofList r.code

instance : Inhabited Region := ⟨ofText ""⟩

/-- Whether the code has no characters. -/
def isEmpty (r : Region) : Bool := r.code.isEmpty

def toJson (r : Region) : Json := .string r.text

def ofJson? : Json.Decoder Region := fun v => (Json.string? v).map ofText

end Region

/-- The way from a primary region to an affiliate region. -/
structure Corridor where
  primary : Region
  affiliate : Region
  deriving DecidableEq

namespace Corridor

instance : Inhabited Corridor := ⟨⟨default, default⟩⟩

/-- The corridor as it is shown in messages. -/
def text (c : Corridor) : String := c.primary.text ++ "->" ++ c.affiliate.text

def toJson (c : Corridor) : Json :=
  .object [("primary", c.primary.toJson), ("affiliate", c.affiliate.toJson)]

def ofJson? : Json.Decoder Corridor := fun v => do
  let f ← Json.record? ["primary", "affiliate"] v
  return {
    primary := ← f.required "primary" Region.ofJson?
    affiliate := ← f.required "affiliate" Region.ofJson? }

end Corridor

/-- The direction of a price conversion: forward from the merchant's price to
the shop's, reverse back from it. -/
inductive Direction where
  | forward
  | reverse
  deriving DecidableEq

namespace Direction

def text : Direction → String
  | .forward => "forward"
  | .reverse => "reverse"

def toJson (d : Direction) : Json := .string d.text

def ofJson? (origin : Json.Origin) : Json.Decoder Direction := fun v =>
  match Json.name? origin ["forward", "reverse"] v with
  | some "forward" => some .forward
  | some "reverse" => some .reverse
  | _ => none

end Direction

/-- An item in one of its models. -/
structure ItemModel where
  itemId : Id
  modelId : Id
  deriving DecidableEq

namespace ItemModel

def toJson (m : ItemModel) : Json :=
  .object [("item_id", m.itemId.toJson), ("model_id", m.modelId.toJson)]

def ofJson? : Json.Decoder ItemModel := fun v => do
  let f ← Json.record? ["item_id", "model_id"] v
  return {
    itemId := ← f.required "item_id" Json.uint64?
    modelId := ← f.required "model_id" Json.uint64? }

end ItemModel

end RegionPricing
