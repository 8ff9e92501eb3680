/-!
# Numbers written in decimal digits

`digits` writes a number without leading zeros and `number?` reads a non-empty
run of digits; `number?_digits` says that reading gives back what was written.
`unsigned?` and `signed?` read a number with a sign in front and keep it only
within bounds.
-/

namespace RegionPricing.Text

/-- The digit that stands for `n % 10`. -/
def digitChar (n : Nat) : Char := Char.ofNat (48 + n % 10)

/-- The value of a decimal digit. -/
def digit? (c : Char) : Option Nat :=
  if 48 ≤ c.toNat ∧ c.toNat ≤ 57 then some (c.toNat - 48) else none

/-- The decimal digits of a number, without leading zeros. -/
def digits (n : Nat) : List Char :=
  if n < 10 then [digitChar n] else digits (n / 10) ++ [digitChar n]
termination_by n
decreasing_by omega

/-- The value of a run of digits that continues the number `acc`. -/
def continue? (acc : Nat) : List Char → Option Nat
  | [] => some acc
  | c :: r => (digit? c).bind fun d => continue? (10 * acc + d) r

/-- The value of a non-empty run of digits. -/
def number? : List Char → Option Nat
  | [] => none
  | cs => continue? 0 cs

/-- A number of at most `max`; a plus sign may stand in front. -/
def unsigned? (max : Nat) (cs : List Char) : Option Nat :=
  let body := match cs with
    | '+' :: r => r
    | _ => cs
  (number? body).filter (· ≤ max)

/-- A number between `min` and `max`; a sign may stand in front. -/
def signed? (min max : Int) (cs : List Char) : Option Int :=
  let value := match cs with
    | '+' :: r => (number? r).map Int.ofNat
    | '-' :: r => (number? r).map fun n => -(Int.ofNat n)
    | _ => (number? cs).map Int.ofNat
  value.filter fun n => min ≤ n ∧ n ≤ max

/-- A number as text. -/
def numeral (n : Nat) : String := String.ofList (digits n)

/-- A number with its sign as a list of characters. -/
def signedDigits (n : Int) : List Char :=
  if n < 0 then '-' :: digits n.natAbs else digits n.natAbs

/-- A number with its sign as text. -/
def signedNumeral (n : Int) : String := String.ofList (signedDigits n)

/-! ## The digits that `Nat.repr` writes -/

theorem digitChar_eq {n : Nat} (h : n < 10) : digitChar n = n.digitChar := by
  have : n = 0 ∨ n = 1 ∨ n = 2 ∨ n = 3 ∨ n = 4 ∨ n = 5 ∨ n = 6 ∨ n = 7 ∨ n = 8 ∨ n = 9 := by
    omega
  rcases this with rfl | rfl | rfl | rfl | rfl | rfl | rfl | rfl | rfl | rfl <;> rfl

theorem digitChar_mod (n : Nat) : digitChar (n % 10) = digitChar n := by
  unfold digitChar
  rw [Nat.mod_mod]

theorem digits_eq_toDigits (n : Nat) : digits n = Nat.toDigits 10 n := by
  induction n using Nat.strongRecOn with
  | _ n ih =>
    rw [digits, Nat.toDigits_eq_if (by decide)]
    split
    next h => rw [digitChar_eq h]
    next h =>
      have hlast : digitChar n = (n % 10).digitChar := by
        rw [← digitChar_mod, digitChar_eq (Nat.mod_lt n (by decide))]
      rw [ih (n / 10) (by omega), hlast]

theorem numeral_eq_repr (n : Nat) : numeral n = n.repr := by
  rw [numeral, digits_eq_toDigits, Nat.repr_eq_ofList_toDigits]

/-! ## Reading gives back what was written -/

theorem toNat_digitChar (n : Nat) : (digitChar n).toNat = 48 + n % 10 := by
  have h : n % 10 < 10 := Nat.mod_lt _ (by decide)
  unfold digitChar
  generalize n % 10 = k at h
  have : k = 0 ∨ k = 1 ∨ k = 2 ∨ k = 3 ∨ k = 4 ∨ k = 5 ∨ k = 6 ∨ k = 7 ∨ k = 8 ∨ k = 9 := by
    omega
  rcases this with rfl | rfl | rfl | rfl | rfl | rfl | rfl | rfl | rfl | rfl <;> rfl

theorem digit?_digitChar (n : Nat) : digit? (digitChar n) = some (n % 10) := by
  have h : n % 10 < 10 := Nat.mod_lt _ (by decide)
  unfold digit?
  rw [toNat_digitChar, if_pos (by omega)]
  simp

theorem continue?_append (acc : Nat) (xs ys : List Char) :
    continue? acc (xs ++ ys) = (continue? acc xs).bind fun n => continue? n ys := by
  induction xs generalizing acc with
  | nil => rfl
  | cons c r ih =>
    simp only [List.cons_append, continue?]
    cases digit? c with
    | none => rfl
    | some d => simpa using ih (10 * acc + d)

theorem continue?_digits (n : Nat) : continue? 0 (digits n) = some n := by
  induction n using Nat.strongRecOn with
  | _ n ih =>
    rw [digits]
    split
    · rename_i h
      simp [continue?, digit?_digitChar, Nat.mod_eq_of_lt h]
    · rename_i h
      rw [continue?_append, ih (n / 10) (by omega)]
      simp only [Option.bind_some, continue?, digit?_digitChar]
      simp
      omega

theorem digits_ne_nil (n : Nat) : digits n ≠ [] := by
  rw [digits]
  split <;> simp

theorem number?_eq {cs : List Char} (h : cs ≠ []) : number? cs = continue? 0 cs := by
  cases cs with
  | nil => exact absurd rfl h
  | cons c r => rfl

/-- Reading a written number gives it back. -/
theorem number?_digits (n : Nat) : number? (digits n) = some n := by
  rw [number?_eq (digits_ne_nil n), continue?_digits]

/-- Two numbers with the same digits are the same. -/
theorem digits_inj {m n : Nat} (h : digits m = digits n) : m = n := by
  have hm := number?_digits m
  rw [h, number?_digits] at hm
  simpa using hm.symm

end RegionPricing.Text
