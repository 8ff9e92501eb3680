import RegionPricing.Text.Digits

/-!
# Durations as text

A duration is shown in the largest unit of which it has at least one, with the
rest as a fraction without zeros at its end.
-/

namespace RegionPricing.Text

/-- The fraction `rest / 10 ^ width` with its point, without zeros at the end. -/
def fractionText (rest width : Nat) : List Char :=
  if rest = 0 then []
  else
    let ds := digits rest
    let padded := List.replicate (width - ds.length) '0' ++ ds
    '.' :: (padded.reverse.dropWhile (· == '0')).reverse

/-- A duration of so many nanoseconds. -/
def durationText (nanos : Nat) : String :=
  let show' := fun (unit width : Nat) (name : String) =>
    String.ofList (digits (nanos / unit) ++ fractionText (nanos % unit) width) ++ name
  if 1000000000 ≤ nanos then show' 1000000000 9 "s"
  else if 1000000 ≤ nanos then show' 1000000 6 "ms"
  else if 1000 ≤ nanos then show' 1000 3 "µs"
  else show' 1 0 "ns"

end RegionPricing.Text
