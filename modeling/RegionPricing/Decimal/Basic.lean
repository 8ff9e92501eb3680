import RegionPricing.PowerOfTen

/-!
# Decimal numbers of limited size

A `Decimal` is a whole number below 2^96 with a sign, divided by a power of ten
of at most 28 places. Every price, rate and weight is one, so a formula never
meets binary fractions. Two decimals with different scales may have the same
value, and so have zero and minus zero; `compare` goes by value, and so do
`isZero`, `isPositive` and `isNegative`.

`Decimal.ofFraction?` is the one rule behind all arithmetic: of the scales that
the operation allows, the largest one at which the exact result, rounded half
to even, still fits.
-/

namespace RegionPricing

/-- A decimal number: `mantissa / 10 ^ scale`, or the opposite of that. Zero
keeps the sign with which it was read, which `toText` alone shows. -/
structure Decimal where
  negative : Bool
  mantissa : Nat
  scale : Nat
  mantissa_lt : mantissa < 79228162514264337593543950336
  scale_le : scale ≤ 28
  deriving DecidableEq

namespace Decimal

/-- The mantissa with the sign: the value is `coeff / 10 ^ scale`. -/
def coeff (a : Decimal) : Int := if a.negative then -(a.mantissa : Int) else a.mantissa

theorem natAbs_coeff (a : Decimal) : a.coeff.natAbs = a.mantissa := by
  unfold coeff
  split <;> omega

theorem coeff_lt (a : Decimal) : a.coeff.natAbs < 79228162514264337593543950336 :=
  a.natAbs_coeff ▸ a.mantissa_lt

/-- The decimal `coeff / 10 ^ scale`; a zero has no minus sign. -/
def ofCoeff (coeff : Int) (scale : Nat)
    (coeff_lt : coeff.natAbs < 79228162514264337593543950336) (scale_le : scale ≤ 28) : Decimal :=
  ⟨decide (coeff < 0), coeff.natAbs, scale, coeff_lt, scale_le⟩

theorem coeff_ofCoeff (n : Int) (s : Nat) (hn : n.natAbs < 79228162514264337593543950336)
    (hs : s ≤ 28) : (ofCoeff n s hn hs).coeff = n := by
  unfold ofCoeff coeff
  by_cases h : n < 0
  · rw [if_pos (decide_eq_true h)]
    show -(n.natAbs : Int) = n
    omega
  · rw [if_neg (by rw [decide_eq_true_eq]; exact h)]
    show (n.natAbs : Int) = n
    omega

/-- The mantissas stay below this number, 2^96. -/
def limit : Nat := 79228162514264337593543950336

/-- The decimal `coeff / 10 ^ scale`, if the parts are within bounds. -/
def ofParts? (coeff : Int) (scale : Nat) : Option Decimal :=
  if h : coeff.natAbs < 79228162514264337593543950336 ∧ scale ≤ 28 then
    some (ofCoeff coeff scale h.1 h.2)
  else none

def zero : Decimal := ⟨false, 0, 0, by decide, by decide⟩

def one : Decimal := ⟨false, 1, 0, by decide, by decide⟩

instance : Inhabited Decimal := ⟨zero⟩

/-- A whole number of 64 bits as a decimal. -/
def ofInt64 (n : Int64) : Decimal :=
  ofCoeff n.toInt 0 (by
    have h₁ := n.toInt_lt
    have h₂ := n.le_toInt
    omega) (by decide)

/-- `10 ^ e`, with `e` cut off at 28. -/
def pow10 (e : Nat) : Decimal :=
  ⟨false, powerOfTen (min e 28), 0,
    Nat.lt_of_le_of_lt (powerOfTen_le (Nat.min_le_right e 28)) (by decide), by decide⟩

/-- `10 ^ -e`, with `e` cut off at 28. -/
def pow10Neg (e : Nat) : Decimal :=
  ⟨false, 1, min e 28, by decide, Nat.min_le_right _ _⟩

/-! ## Order by value -/

/-- The coefficients of two decimals brought to one scale. -/
def aligned (a b : Decimal) : Int × Int :=
  (a.coeff * powerOfTen b.scale, b.coeff * powerOfTen a.scale)

/-- The order of the values. -/
def compare (a b : Decimal) : Ordering :=
  let (x, y) := aligned a b
  if x < y then .lt else if x = y then .eq else .gt

/-- Whether the value of `a` is below that of `b`. -/
def lt (a b : Decimal) : Bool := (aligned a b).1 < (aligned a b).2

/-- Whether the value of `a` is at most that of `b`. -/
def le (a b : Decimal) : Bool := (aligned a b).1 ≤ (aligned a b).2

/-- Whether two decimals have the same value. -/
def sameValue (a b : Decimal) : Bool := (aligned a b).1 = (aligned a b).2

/-- The greater of two decimals; of two with the same value the second. -/
def max (a b : Decimal) : Decimal := if b.lt a then a else b

def isZero (a : Decimal) : Bool := a.mantissa = 0

def isPositive (a : Decimal) : Bool := 0 < a.coeff

def isNegative (a : Decimal) : Bool := a.coeff < 0

/-- The decimal of the opposite sign. -/
def neg (a : Decimal) : Decimal := { a with negative := !a.negative }

theorem coeff_neg (a : Decimal) : a.neg.coeff = -a.coeff := by
  unfold neg coeff
  cases a.negative <;> simp

/-! ## Rounding an exact fraction to a decimal -/

/-- `n / d` rounded to a whole number, half to even. -/
def halfEven (n d : Nat) : Nat :=
  if 2 * (n % d) < d ∨ (2 * (n % d) = d ∧ n / d % 2 = 0) then n / d else n / d + 1

/-- `n / d` rounded to a whole number, half to even, with the sign of `n`. -/
def halfEvenInt (n : Int) (d : Nat) : Int :=
  if n < 0 then -(halfEven n.natAbs d : Int) else halfEven n.natAbs d

/-- `n / d` rounded half to even at the largest scale, of those up to the given
one, at which it fits. -/
def ofFraction? (n : Int) (d : Nat) : Nat → Option Decimal
  | 0 => ofParts? (halfEvenInt n d) 0
  | s + 1 =>
    match ofParts? (halfEvenInt (n * powerOfTen (s + 1)) d) (s + 1) with
    | some r => some r
    | none => ofFraction? n d s

end Decimal

end RegionPricing
