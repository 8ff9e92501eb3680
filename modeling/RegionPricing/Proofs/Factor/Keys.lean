import Mathlib.Data.List.Basic
import RegionPricing.Factor.Layers
import RegionPricing.Proofs.Json.RoundTrip

/-!
# Texts of keys

A key is written as numerals and region codes with a separator between them. Numerals have
no separator in them, so an identifier, a merchant with a shop and a hidden fee are told by
their text. A region code may have one: two corridors have one text exactly when part of the
affiliate code of the one stands in the primary code of the other (`corridorText_eq_iff`).
In front of the text stands the name of a part of the caches, which is told by the whole
when names have no separator in them (`tierKey_eq_iff`).
-/

namespace RegionPricing

/-- A corridor that has the text of another, because the code of its affiliate begins with
what the other has at the end of its primary code. -/
def Corridor.Shifts (c d : Corridor) : Prop :=
  ∃ part : List Char, d.primary.code = c.primary.code ++ ':' :: part ∧
    c.affiliate.code = part ++ ':' :: d.affiliate.code

namespace Factor

/-! ## Texts with a separator -/

/-- What stands before the first separator is told by the whole. -/
theorem append_sep_inj {α : Type} {c : α} {a a' z z' : List α} (ha : c ∉ a) (ha' : c ∉ a')
    (h : a ++ c :: z = a' ++ c :: z') : a = a' ∧ z = z' := by
  induction a generalizing a' with
  | nil =>
    cases a' with
    | nil => exact ⟨rfl, (List.cons.inj h).2⟩
    | cons x a' => exact absurd ((List.cons.inj h).1 ▸ List.mem_cons_self) ha'
  | cons x a ih =>
    cases a' with
    | nil => exact absurd ((List.cons.inj h).1 ▸ List.mem_cons_self) ha
    | cons x' a' =>
      obtain ⟨rfl, hrest⟩ := List.cons.inj h
      obtain ⟨rfl, rfl⟩ := ih (fun hc => ha (List.mem_cons_of_mem x hc))
        (fun hc => ha' (List.mem_cons_of_mem x hc)) hrest
      exact ⟨rfl, rfl⟩

/-- Of two ways to cut a text at a separator, one cuts further to the right. -/
theorem append_sep_eq_iff {α : Type} {c : α} {a a' z z' : List α} :
    a ++ c :: z = a' ++ c :: z' ↔ (a = a' ∧ z = z') ∨
      (∃ part, a' = a ++ c :: part ∧ z = part ++ c :: z') ∨
      ∃ part, a = a' ++ c :: part ∧ z' = part ++ c :: z := by
  constructor
  · intro h
    rcases List.append_eq_append_iff.mp h with ⟨_ | ⟨x, part⟩, rfl, hz⟩ | ⟨_ | ⟨x, part⟩, rfl, hz⟩
    · exact .inl ⟨(List.append_nil a).symm, (List.cons.inj hz).2⟩
    · obtain ⟨rfl, hrest⟩ := List.cons.inj hz
      exact .inr (.inl ⟨part, rfl, hrest⟩)
    · exact .inl ⟨List.append_nil a', (List.cons.inj hz).2.symm⟩
    · obtain ⟨rfl, hrest⟩ := List.cons.inj hz
      exact .inr (.inr ⟨part, rfl, hrest⟩)
  · rintro (⟨rfl, rfl⟩ | ⟨part, rfl, rfl⟩ | ⟨part, rfl, rfl⟩)
    · rfl
    · rw [List.append_assoc, List.cons_append]
    · rw [List.append_assoc, List.cons_append]

theorem toList_sep (a z : String) : (a ++ ":" ++ z).toList = a.toList ++ ':' :: z.toList := by
  simp

/-- A text without separator in front of a separator is told by the whole. -/
theorem sep_inj {a a' z z' : String} (ha : ':' ∉ a.toList) (ha' : ':' ∉ a'.toList)
    (h : a ++ ":" ++ z = a' ++ ":" ++ z') : a = a' ∧ z = z' := by
  have hchars := congrArg String.toList h
  rw [toList_sep, toList_sep] at hchars
  obtain ⟨hfront, hrest⟩ := append_sep_inj ha ha' hchars
  exact ⟨String.toList_injective hfront, String.toList_injective hrest⟩

/-! ## Keys -/

theorem colon_notMem_text (id : Id) : ':' ∉ id.text.toList := by
  intro h
  unfold Id.text Text.numeral at h
  rw [String.toList_ofList] at h
  exact absurd (Json.isDigit_of_mem_digits h) (by decide)

theorem text_injective : Function.Injective Id.text := by
  intro i j h
  exact UInt64.toNat_inj.mp (Text.digits_inj (String.ofList_injective h))

theorem merchantShopText_injective : Function.Injective (keyText : MerchantShop → String) := by
  rintro ⟨m, i⟩ ⟨m', i'⟩ h
  obtain ⟨hmerchant, hshop⟩ := sep_inj (colon_notMem_text m) (colon_notMem_text m') h
  obtain rfl := text_injective hmerchant
  obtain rfl := text_injective hshop
  rfl

theorem directionText_injective : Function.Injective Direction.text := by
  intro d d' h
  cases d <;> cases d'
  · rfl
  · exact absurd h (by decide)
  · exact absurd h (by decide)
  · rfl

theorem hiddenFeeText_injective : Function.Injective (keyText : HiddenFeeKey → String) := by
  rintro ⟨shop, item, d⟩ ⟨shop', item', d'⟩ h
  have htext : shop.text ++ ":" ++ (item.text ++ ":" ++ d.text)
      = shop'.text ++ ":" ++ (item'.text ++ ":" ++ d'.text) := by
    simpa only [keyText, String.append_assoc] using h
  obtain ⟨hshop, hrest⟩ := sep_inj (colon_notMem_text shop) (colon_notMem_text shop') htext
  obtain ⟨hitem, hdirection⟩ := sep_inj (colon_notMem_text item) (colon_notMem_text item') hrest
  obtain rfl := text_injective hshop
  obtain rfl := text_injective hitem
  obtain rfl := directionText_injective hdirection
  rfl

theorem code_injective : Function.Injective Region.code := by
  rintro ⟨code, normal⟩ ⟨code', normal'⟩ rfl
  rfl

/-- Corridors share a text only by what a separator within a code hides. -/
theorem corridorText_eq_iff {c d : Corridor} :
    keyText c = keyText d ↔ c = d ∨ c.Shifts d ∨ d.Shifts c := by
  have hchars : ∀ c : Corridor,
      (keyText c).toList = c.primary.code ++ ':' :: c.affiliate.code := by
    intro c
    show (c.primary.text ++ ":" ++ c.affiliate.text).toList = _
    rw [toList_sep, Region.text, Region.text, String.toList_ofList, String.toList_ofList]
  have hsame : c = d ↔ c.primary.code = d.primary.code ∧ c.affiliate.code = d.affiliate.code := by
    constructor
    · rintro rfl
      exact ⟨rfl, rfl⟩
    · rintro ⟨hprimary, haffiliate⟩
      obtain ⟨p, a⟩ := c
      obtain rfl := code_injective hprimary
      obtain rfl := code_injective haffiliate
      rfl
  rw [← String.toList_inj, hchars, hchars, append_sep_eq_iff, hsame]
  rfl

/-- Without a separator in the codes of primary regions no corridor shifts to another. -/
theorem not_shifts_of_primary {c d : Corridor} (h : ':' ∉ d.primary.code) : ¬c.Shifts d := by
  rintro ⟨part, hprimary, _⟩
  rw [hprimary] at h
  exact h (List.mem_append_right _ List.mem_cons_self)

/-- Nor without one in the codes of affiliate regions. -/
theorem not_shifts_of_affiliate {c d : Corridor} (h : ':' ∉ c.affiliate.code) : ¬c.Shifts d := by
  rintro ⟨part, _, haffiliate⟩
  rw [haffiliate] at h
  exact h (List.mem_append_right _ List.mem_cons_self)

/-! ## Keys of parts of the caches -/

/-- Parts of the caches that have names of their own share no key. -/
theorem name_of_key {name name' rest rest' : String} (hname : ':' ∉ name.toList)
    (hname' : ':' ∉ name'.toList) (h : name ++ ":" ++ rest = name' ++ ":" ++ rest') :
    name = name' :=
  (sep_inj hname hname' h).1

/-- A part of the caches and the text of a key in it are told by what tiers hold it under. -/
theorem tierKey_eq_iff {ν ν' κ κ' : Type} [KeyText κ] [KeyText κ'] {s : Space ν} {s' : Space ν'}
    (hs : ':' ∉ s.name.toList) (hs' : ':' ∉ s'.name.toList) {k : κ} {k' : κ'} :
    s.tierKey k = s'.tierKey k' ↔ s.name = s'.name ∧ keyText k = keyText k' := by
  constructor
  · exact sep_inj hs hs'
  · rintro ⟨hname, hkey⟩
    rw [Space.tierKey, Space.tierKey, hname, hkey]

end Factor

end RegionPricing
