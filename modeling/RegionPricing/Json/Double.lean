import RegionPricing.Decimal.Basic
import RegionPricing.Text.Digits

/-!
# Numbers beyond a double

A number that is kept is held as a double, and one that is too large for it is
not read. Whether it is too large is found in steps, each of which rounds: as
many of its digits as fit a word of 64 bits are read, the word is rounded to a
double, and so are the power of ten that goes with it and the product of the
two. Next to the largest double the steps decide, not the number as written.
-/

namespace RegionPricing.Json

open RegionPricing.Text

/-- The largest word of 64 bits. -/
def maxWord : Nat := 18446744073709551615

/-- Adds digits to a word for as long as it fits; the digits from the first one
that does not fit are left. -/
def addDigits (word : Nat) : List Char → Nat × List Char
  | [] => (word, [])
  | c :: r =>
    let next := 10 * word + (digit? c).getD 0
    if next ≤ maxWord then addDigits next r else (word, c :: r)

/-- The word and the power of ten that stand for the digits before and after a
point. Digits left out before the point count as zeros. -/
def leading (whole fraction : List Char) : Nat × Int :=
  let (word, dropped) := addDigits 0 whole
  let (word, rest) := addDigits word fraction
  (word, (dropped.length : Int) - (fraction.length - rest.length : Nat))

/-- The nearest number of at most 53 significant bits; of two the even one. -/
def nearestDouble (n : Nat) : Nat :=
  let extra := n.log2 + 1 - 53
  Decimal.halfEven n (1 <<< extra) <<< extra

/-- Whether `word * 10 ^ exponent` is beyond the largest double. -/
def exceedsDouble (word : Nat) (exponent : Int) : Bool :=
  if exponent < 0 || word == 0 then false
  else if 308 < exponent then true
  else
    1 <<< 1024 ≤
      nearestDouble (nearestDouble word * nearestDouble (powerOfTen exponent.toNat))

end RegionPricing.Json
