/-!
# Powers of ten

The unit of every scale: `powerOfTen n` is a one followed by `n` zeros.
-/

namespace RegionPricing

/-- Ten to the power of `n`. -/
def powerOfTen (n : Nat) : Nat := Nat.pow 10 n

theorem powerOfTen_le {m n : Nat} (h : m ≤ n) : powerOfTen m ≤ powerOfTen n :=
  Nat.pow_le_pow_right (by decide) h

theorem powerOfTen_pos (n : Nat) : 0 < powerOfTen n := Nat.pow_pos (by decide)

theorem two_le_powerOfTen {n : Nat} (h : 0 < n) : 2 ≤ powerOfTen n :=
  Nat.le_trans (by decide) (powerOfTen_le h)

end RegionPricing
