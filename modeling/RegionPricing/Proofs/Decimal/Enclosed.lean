import RegionPricing.Proofs.Decimal.ByValue

/-!
# A computation between two others

Three computations of one shape, on operands in order, have results in order. And the middle
one does not fail where the outer two succeed: what it rounds lies between what they round,
so that it is too large for a decimal only if one of them is (`RoundsTo.enclosed`).
`Enclosed` says both of three computations, and passes from step to step (`Enclosed.bind`).
-/

namespace RegionPricing.Decimal

/-- Where the outer two of three computations have a result, so has the middle one, and it
is related to theirs. -/
def Enclosed {α : Type} (R : α → α → Prop) (x y z : Option α) : Prop :=
  ∀ a c, x = some a → z = some c → ∃ b, y = some b ∧ R a b ∧ R b c

namespace Enclosed

variable {α β : Type} {R : α → α → Prop} {S : β → β → Prop}

theorem some {a b c : α} (hab : R a b) (hbc : R b c) :
    Enclosed R (Option.some a) (Option.some b) (Option.some c) := by
  intro a' c' ha hc
  cases ha
  cases hc
  exact ⟨b, rfl, hab, hbc⟩

theorem bind {x y z : Option α} {f g k : α → Option β} (h : Enclosed R x y z)
    (hf : ∀ a b c, R a b → R b c → Enclosed S (f a) (g b) (k c)) :
    Enclosed S (x >>= f) (y >>= g) (z >>= k) := by
  intro d e hd he
  obtain ⟨a, ha, hd⟩ := Option.bind_eq_some_iff.mp hd
  obtain ⟨c, hc, he⟩ := Option.bind_eq_some_iff.mp he
  obtain ⟨b, hb, hab, hbc⟩ := h a c ha hc
  rw [hb]
  exact hf a b c hab hbc d e hd he

end Enclosed

/-- `a` is at most `b`. -/
def AtMost (a b : Decimal) : Prop := a.value ≤ b.value

/-- `a` is at most `b` and not negative. -/
structure Ascends (a b : Decimal) : Prop where
  nonneg : 0 ≤ a.value
  le : a.value ≤ b.value

namespace RoundsTo

variable {m₁ m m₂ : Option Decimal} {x₁ x x₂ : ℚ}

theorem exists_halfEven (h : RoundsTo m x) : ∃ c, HalfEven x c := by
  obtain ⟨n, d, _, hd, _, rfl, _, _⟩ := h
  exact ⟨_, halfEvenInt_spec n hd⟩

theorem enclosed (h₁ : RoundsTo m₁ x₁) (h : RoundsTo m x) (h₂ : RoundsTo m₂ x₂) (hx₁ : x₁ ≤ x)
    (hx₂ : x ≤ x₂) : Enclosed AtMost m₁ m m₂ := by
  intro r₁ r₂ hr₁ hr₂
  cases hm : m with
  | some r => exact ⟨r, rfl, h₁.le h hr₁ hm hx₁, h.le h₂ hm hr₂ hx₂⟩
  | none =>
    exfalso
    obtain ⟨c, hc, hlarge⟩ := h.large_of_none hm
    obtain ⟨c₁, hc₁⟩ := h₁.exists_halfEven
    obtain ⟨c₂, hc₂⟩ := h₂.exists_halfEven
    have hle₁ := hc₁.le hc hx₁
    have hle₂ := hc.le hc₂ hx₂
    -- one of the outer numbers is as far from zero, on the same side
    rcases abs_cases c with ⟨habs, hsign⟩ | ⟨habs, hsign⟩
    · refine h₂.ne_some_of_large hc₂ ?_ hr₂
      exact (habs ▸ hlarge).trans (hle₂.trans (le_abs_self c₂))
    · refine h₁.ne_some_of_large hc₁ ?_ hr₁
      exact (habs ▸ hlarge).trans ((neg_le_neg hle₁).trans (neg_le_abs c₁))

theorem ascends (h₁ : RoundsTo m₁ x₁) (h : RoundsTo m x) (h₂ : RoundsTo m₂ x₂) (h0 : 0 ≤ x₁)
    (hx₁ : x₁ ≤ x) (hx₂ : x ≤ x₂) : Enclosed Ascends m₁ m m₂ := by
  intro r₁ r₂ hr₁ hr₂
  obtain ⟨r, hr, hle₁, hle₂⟩ := h₁.enclosed h h₂ hx₁ hx₂ r₁ r₂ hr₁ hr₂
  exact ⟨r, hr, ⟨h₁.nonneg hr₁ h0, hle₁⟩, ⟨h.nonneg hr (h0.trans hx₁), hle₂⟩⟩

end RoundsTo

end RegionPricing.Decimal
