import Mathlib.Data.List.TakeWhile
import Mathlib.Data.Nat.Log
import RegionPricing.Json.Reader
import RegionPricing.Json.Writer

/-!
# Reading what was written

`parse?_render`: a value is read back from its text as it was, when its numbers are whole
and fit a word of 64 bits and it is not nested too deep. Strings may hold any
characters. The proof follows the reader: digits, pieces of strings, and then values,
items and fields together, by induction on the value. What comes after a value must not
continue it as a number would be continued (`Ends`), and the number that the reader counts
down is twice the length of the text.
-/

namespace RegionPricing.Json

open RegionPricing.Text

/-! ## Values that are read as they are written -/

mutual

/-- Whether all numbers are whole and fit a word, and nothing is unread. -/
def isExact : Json → Bool
  | .null | .bool _ | .string _ => true
  | .integer n => n.natAbs ≤ maxWord
  | .real _ | .unread => false
  | .array xs => itemsExact xs
  | .object fs => fieldsExact fs

def itemsExact : List Json → Bool
  | [] => true
  | x :: r => isExact x && itemsExact r

def fieldsExact : List (String × Json) → Bool
  | [] => true
  | (_, x) :: r => isExact x && fieldsExact r

end

mutual

/-- How deep arrays and objects are nested. -/
def depth : Json → ℕ
  | .array xs => itemsDepth xs + 1
  | .object fs => fieldsDepth fs + 1
  | _ => 0

def itemsDepth : List Json → ℕ
  | [] => 0
  | x :: r => max (depth x) (itemsDepth r)

def fieldsDepth : List (String × Json) → ℕ
  | [] => 0
  | (_, x) :: r => max (depth x) (fieldsDepth r)

end

/-! ## Numbers -/

/-- Whether some characters do not continue a number. -/
def Ends (r : List Char) : Prop :=
  ∀ c cs, r = c :: cs → isDigit c = false ∧ c ≠ '.' ∧ c ≠ 'e' ∧ c ≠ 'E'

theorem ends_nil : Ends [] := fun _ _ h => by cases h

theorem ends_cons {c : Char} {cs : List Char} (hd : isDigit c = false) (hp : c ≠ '.')
    (he : c ≠ 'e') (hE : c ≠ 'E') : Ends (c :: cs) := by
  intro c' cs' h
  obtain ⟨rfl, rfl⟩ := List.cons.inj h
  exact ⟨hd, hp, he, hE⟩

theorem isDigit_digitChar (n : ℕ) : isDigit (digitChar n) = true := by
  have hmod : n % 10 < 10 := Nat.mod_lt _ (by decide)
  unfold isDigit
  rw [toNat_digitChar, Bool.and_eq_true, decide_eq_true_eq, decide_eq_true_eq]
  omega

theorem isDigit_of_mem_digits {n : ℕ} {c : Char} (h : c ∈ digits n) : isDigit c = true := by
  induction n using Nat.strongRecOn with
  | _ n ih =>
    rw [digits] at h
    split at h
    · rw [List.mem_singleton.mp h]
      exact isDigit_digitChar n
    · rcases List.mem_append.mp h with h | h
      · exact ih (n / 10) (by omega) h
      · rw [List.mem_singleton.mp h]
        exact isDigit_digitChar n

/-- No zero stands in front of the digits of a positive number. -/
theorem digits_head {n : ℕ} (h : 0 < n) : ∃ c cs, digits n = c :: cs ∧ c ≠ '0' := by
  induction n using Nat.strongRecOn with
  | _ n ih =>
    rw [digits]
    by_cases hn : n < 10
    · rw [if_pos hn]
      refine ⟨digitChar n, [], rfl, fun heq => ?_⟩
      have hval := toNat_digitChar n
      rw [heq] at hval
      have : (48 : ℕ) = 48 + n % 10 := hval
      omega
    · rw [if_neg hn]
      obtain ⟨c, cs, hcs, hc⟩ := ih (n / 10) (by omega) (by omega)
      exact ⟨c, cs ++ [digitChar n], by rw [hcs]; rfl, hc⟩

theorem someDigits_digits (n : ℕ) {r : List Char} (hr : Ends r) :
    someDigits (digits n ++ r) = some (digits n, r) := by
  have hall : ∀ c ∈ digits n, isDigit c = true := fun c hc => isDigit_of_mem_digits hc
  have hnone : r.takeWhile isDigit = [] ∧ r.dropWhile isDigit = r := by
    cases r with
    | nil => exact ⟨rfl, rfl⟩
    | cons c cs =>
      have hc := (hr c cs rfl).1
      exact ⟨List.takeWhile_cons_of_neg (by rw [hc]; decide),
        List.dropWhile_cons_of_neg (by rw [hc]; decide)⟩
  unfold someDigits
  rw [List.takeWhile_append_of_pos hall, List.dropWhile_append_of_pos hall, hnone.1, hnone.2,
    List.append_nil]
  cases hd : digits n with
  | nil => exact absurd hd (digits_ne_nil n)
  | cons c cs => rfl

theorem wholePart_digits (n : ℕ) {r : List Char} (hr : Ends r) :
    wholePart (digits n ++ r) = some (digits n, r) := by
  unfold wholePart
  rw [someDigits_digits n hr]
  by_cases hn : n = 0
  · -- only zero itself begins with a zero
    rw [hn]
    have hzero : digits 0 = ['0'] := by decide +kernel
    rw [hzero]
    rfl
  · obtain ⟨c, cs, hcs, hc⟩ := digits_head (Nat.pos_of_ne_zero hn)
    rw [hcs]
    split
    · rename_i heq
      exact absurd (List.cons.inj (Prod.mk.inj (Option.some.inj heq)).1).1 hc
    · rfl

theorem fractionPart_of_ends {r : List Char} (hr : Ends r) : fractionPart r = some (none, r) := by
  unfold fractionPart
  split
  · exact absurd rfl (hr _ _ rfl).2.1
  · rfl

theorem exponentPart_of_ends {r : List Char} (hr : Ends r) : exponentPart r = some (none, r) := by
  cases r with
  | nil => rfl
  | cons c cs =>
    obtain ⟨_, _, he, hE⟩ := hr c cs rfl
    exact if_neg fun h => h.elim he hE

/-- The parts of a whole number. -/
def wholeNumeral (n : ℤ) : Numeral := ⟨decide (n < 0), digits n.natAbs, none, none⟩

theorem numeral_signedDigits (n : ℤ) {r : List Char} (hr : Ends r) :
    numeral (signedDigits n ++ r) = some (wholeNumeral n, r) := by
  unfold signedDigits
  by_cases hn : n < 0
  · rw [if_pos hn]
    simp only [numeral, List.cons_append, wholePart_digits _ hr, fractionPart_of_ends hr,
      exponentPart_of_ends hr, Option.bind_eq_bind, Option.bind_some, wholeNumeral, hn,
      decide_true, pure]
  · rw [if_neg hn]
    obtain ⟨c, cs, hcs⟩ := List.exists_cons_of_ne_nil (digits_ne_nil n.natAbs)
    -- a digit is no sign
    have hsign : c ≠ '-' := by
      rintro rfl
      exact absurd (isDigit_of_mem_digits (hcs ▸ List.mem_cons_self)) (by decide)
    have heq : digits n.natAbs ++ r = c :: (cs ++ r) := by
      rw [hcs]
      rfl
    unfold numeral
    rw [heq]
    split
    rename_i negative body hbody
    obtain ⟨rfl, rfl⟩ : false = negative ∧ c :: (cs ++ r) = body := by
      split at hbody
      · rename_i hcons
        exact absurd (List.cons.inj hcons).1 hsign
      · exact Prod.mk.inj hbody
    rw [← heq]
    simp only [wholePart_digits _ hr, fractionPart_of_ends hr, exponentPart_of_ends hr,
      Option.bind_eq_bind, Option.bind_some, wholeNumeral, hn, decide_false, pure]

/-! ### Whole numbers are not too large -/

theorem le_of_continue? {cs : List Char} {word n : ℕ} (h : continue? word cs = some n) :
    word ≤ n := by
  induction cs generalizing word with
  | nil => exact Nat.le_of_eq (Option.some.inj h)
  | cons c cs ih =>
    obtain ⟨d, _, hrest⟩ := Option.bind_eq_some_iff.mp h
    have := ih hrest
    omega

theorem addDigits_of_continue? {cs : List Char} {word n : ℕ} (h : continue? word cs = some n)
    (hn : n ≤ maxWord) : addDigits word cs = (n, []) := by
  induction cs generalizing word with
  | nil =>
    obtain rfl := Option.some.inj h
    rfl
  | cons c cs ih =>
    obtain ⟨d, hd, hrest⟩ := Option.bind_eq_some_iff.mp h
    have hle : 10 * word + d ≤ n := le_of_continue? hrest
    unfold addDigits
    rw [hd]
    show (if 10 * word + d ≤ maxWord then _ else _) = _
    rw [if_pos (Nat.le_trans hle hn)]
    exact ih hrest

/-- Rounding at most doubles a number. -/
theorem nearestDouble_le (n : ℕ) : nearestDouble n ≤ 2 * n := by
  by_cases hn : n = 0
  · rw [hn]
    decide +kernel
  · -- the unit to which is rounded is not larger than the number
    have hextra : n.log2 + 1 - 53 ≤ n.log2 := by omega
    have hpow : 2 ^ (n.log2 + 1 - 53) ≤ n :=
      Nat.le_trans (Nat.pow_le_pow_right (by decide) hextra) (Nat.log2_self_le hn)
    have hhalf : ∀ d, Decimal.halfEven n d ≤ n / d + 1 := by
      intro d
      unfold Decimal.halfEven
      split <;> omega
    unfold nearestDouble
    rw [Nat.shiftLeft_eq, Nat.shiftLeft_eq, Nat.one_mul]
    calc Decimal.halfEven n (2 ^ (n.log2 + 1 - 53)) * 2 ^ (n.log2 + 1 - 53)
        ≤ (n / 2 ^ (n.log2 + 1 - 53) + 1) * 2 ^ (n.log2 + 1 - 53) :=
          Nat.mul_le_mul_right _ (hhalf _)
      _ = n / 2 ^ (n.log2 + 1 - 53) * 2 ^ (n.log2 + 1 - 53) + 2 ^ (n.log2 + 1 - 53) :=
          Nat.succ_mul _ _
      _ ≤ n + n := Nat.add_le_add (Nat.div_mul_le_self _ _) hpow
      _ = 2 * n := (Nat.two_mul n).symm

theorem exceedsDouble_of_word {word : ℕ} (h : word ≤ maxWord) : exceedsDouble word 0 = false := by
  have hone : nearestDouble (powerOfTen 0) = 1 := by decide +kernel
  have hword := nearestDouble_le word
  have hbound : nearestDouble (nearestDouble word * 1) ≤ 4 * maxWord := by
    have := nearestDouble_le (nearestDouble word * 1)
    omega
  have hlarge : 4 * maxWord < 1 <<< 1024 := by decide +kernel
  unfold exceedsDouble
  by_cases hzero : word = 0
  · rw [hzero]
    rfl
  · have hcond : (decide ((0 : ℤ) < 0) || word == 0) = false := by
      rw [beq_eq_false_iff_ne.mpr hzero]
      rfl
    rw [hcond, if_neg (by decide), if_neg (by decide)]
    show decide (1 <<< 1024 ≤ nearestDouble (nearestDouble word * nearestDouble (powerOfTen 0)))
      = false
    rw [hone]
    exact decide_eq_false (by omega)

theorem toJson_wholeNumeral {n : ℤ} (h : n.natAbs ≤ maxWord) :
    (wholeNumeral n).toJson = .integer n := by
  have hword : leading (digits n.natAbs) [] = (n.natAbs, 0) := by
    unfold leading
    rw [addDigits_of_continue? (continue?_digits _) h]
    rfl
  have hfits : (wholeNumeral n).tooLarge = false := by
    show exceedsDouble (leading (digits n.natAbs) []).1 ((leading (digits n.natAbs) []).2 + 0)
      = false
    rw [hword]
    exact exceedsDouble_of_word h
  have hnat : natOf (digits n.natAbs) = n.natAbs := by
    unfold natOf
    rw [number?_digits]
    rfl
  unfold Numeral.toJson
  rw [hfits]
  show (if decide (n < 0) = true then
      (if natOf (digits n.natAbs) = 0 then Json.real (wholeNumeral n).text
        else .integer (-(natOf (digits n.natAbs) : ℤ)))
    else .integer (natOf (digits n.natAbs))) = _
  rw [hnat]
  by_cases hn : n < 0
  · rw [if_pos (decide_eq_true hn), if_neg (by omega)]
    congr 1
    omega
  · rw [if_neg (by simpa using hn)]
    congr 1
    omega

/-! ## Strings -/

/-- The piece by which a character is written. -/
def pieceOf (c : Char) : Piece :=
  if c = '\x08' ∨ c = '\t' ∨ c = '\n' ∨ c = '\x0c' ∨ c = '\r' then .char c
  else if c.toNat < 0x20 then .unit c.toNat
  else .char c

theorem pieceOf_of_control {c : Char} (h8 : c ≠ '\x08') (ht : c ≠ '\t') (hn : c ≠ '\n')
    (hf : c ≠ '\x0c') (hr : c ≠ '\r') (hc : c.toNat < 0x20) : pieceOf c = .unit c.toNat := by
  unfold pieceOf
  rw [if_neg (by rintro (h | h | h | h | h) <;> contradiction), if_pos hc]

theorem pieceOf_of_not_control {c : Char} (hc : ¬c.toNat < 0x20) : pieceOf c = .char c := by
  unfold pieceOf
  rw [if_neg hc, ite_self]

theorem pieceOf_cases (c : Char) :
    pieceOf c = .char c ∨ (c.toNat < 0x20 ∧ pieceOf c = .unit c.toNat) := by
  unfold pieceOf
  split_ifs with h hc
  · exact .inl rfl
  · exact .inr ⟨hc, rfl⟩
  · exact .inl rfl

theorem hex?_hexDigit (n : ℕ) : hex? (hexDigit n) = some (n % 16) := by
  have hmod : n % 16 < 16 := Nat.mod_lt _ (by decide)
  unfold hexDigit
  generalize n % 16 = k at hmod
  -- there are sixteen digits
  revert k
  decide +kernel

/-- A character that needs no escape stands for itself. -/
theorem pieces_plain {c : Char} (hq : c ≠ '"') (hb : c ≠ '\\') (hc : ¬c.toNat < 0x20)
    (r : List Char) : pieces (c :: r) = (pieces r).map fun p => (.char c :: p.1, p.2) := by
  rw [pieces.eq_def]
  split
  · rename_i heq
    cases heq
  · rename_i heq
    exact absurd (List.cons.inj heq).1 hq
  · rename_i heq
    exact absurd (List.cons.inj heq).1 hb
  · rename_i heq
    exact absurd (List.cons.inj heq).1 hb
  · rename_i c' r' _ _ heq
    obtain ⟨rfl, rfl⟩ := List.cons.inj heq
    have hcond : (decide (c.toNat < 0x20) || c == '\\') = false := by
      rw [decide_eq_false hc, beq_eq_false_iff_ne.mpr hb]
      rfl
    rw [hcond]
    cases pieces r <;> rfl

theorem unit?_hexDigit {n : ℕ} (h : n < 0x20) :
    unit? '0' '0' (hexDigit (n / 16)) (hexDigit n) = some n := by
  have hzero : hex? '0' = some 0 := by decide
  unfold unit?
  rw [hzero, hex?_hexDigit, hex?_hexDigit]
  show some (((0 * 16 + 0) * 16 + n / 16 % 16) * 16 + n % 16) = some n
  congr 1
  omega

theorem pieces_unit (a b c d : Char) (r : List Char) :
    pieces ('\\' :: 'u' :: a :: b :: c :: d :: r) =
      match unit? a b c d, pieces r with
      | some n, some (ps, rest) => some (.unit n :: ps, rest)
      | _, _ => none := rfl

theorem pieces_escapedChar (c : Char) (r : List Char) :
    pieces (escapedChar c ++ r) = (pieces r).map fun p => (pieceOf c :: p.1, p.2) := by
  -- the characters with an escape of their own, one after the other
  have hown : ∀ (e x : Char), escape? e = some x → e ≠ 'u' → pieceOf x = .char x →
      pieces ('\\' :: e :: r) = (pieces r).map fun p => (pieceOf x :: p.1, p.2) := by
    intro e x he hu hx
    rw [hx, pieces.eq_def]
    split
    · rename_i heq
      cases heq
    · rename_i heq
      exact absurd (List.cons.inj heq).1 (by decide)
    · rename_i heq
      exact absurd (List.cons.inj (List.cons.inj heq).2).1 hu
    · rename_i e' r' _ heq
      obtain ⟨rfl, rfl⟩ := List.cons.inj (List.cons.inj heq).2
      rw [he]
      cases pieces r <;> rfl
    · rename_i hno heq
      obtain ⟨rfl, rfl⟩ := List.cons.inj heq
      exact (hno _ _ rfl rfl).elim
  unfold escapedChar
  split_ifs with hq hb h8 ht hn hf hr hc
  · rw [hq]
    exact hown '"' '"' rfl (by decide) rfl
  · rw [hb]
    exact hown '\\' '\\' rfl (by decide) rfl
  · rw [h8]
    exact hown 'b' '\x08' rfl (by decide) rfl
  · rw [ht]
    exact hown 't' '\t' rfl (by decide) rfl
  · rw [hn]
    exact hown 'n' '\n' rfl (by decide) rfl
  · rw [hf]
    exact hown 'f' '\x0c' rfl (by decide) rfl
  · rw [hr]
    exact hown 'r' '\r' rfl (by decide) rfl
  · rw [pieceOf_of_control h8 ht hn hf hr hc]
    show pieces ('\\' :: 'u' :: '0' :: '0' :: hexDigit (c.toNat / 16) :: hexDigit c.toNat :: r) = _
    rw [pieces_unit, unit?_hexDigit hc]
    cases pieces r <;> rfl
  · rw [pieceOf_of_not_control hc]
    exact pieces_plain hq hb hc r

theorem pieces_escaped (cs r : List Char) :
    pieces (cs.flatMap escapedChar ++ '"' :: r) = some (cs.map pieceOf, r) := by
  induction cs with
  | nil => rfl
  | cons c cs ih =>
    rw [List.flatMap_cons, List.append_assoc, pieces_escapedChar, ih]
    rfl

/-- A unit of a control character is no half of a surrogate pair. -/
theorem assemble_unit {c : Char} (hc : c.toNat < 0x20) (ps : List Piece) :
    assemble (.unit c.toNat :: ps) = (assemble ps).map (c :: ·) := by
  have hlead : isLead c.toNat = false := by
    unfold isLead
    rw [decide_eq_false (by omega)]
    rfl
  have htrail : isTrail c.toNat = false := by
    unfold isTrail
    rw [decide_eq_false (by omega)]
    rfl
  rw [assemble.eq_def]
  cases ps with
  | nil =>
    show (if (isLead c.toNat || isTrail c.toNat) = true then _ else _) = _
    rw [hlead, htrail, if_neg (by decide), Char.ofNat_toNat]
  | cons p ps =>
    cases p with
    | char d =>
      show (if (isLead c.toNat || isTrail c.toNat) = true then _ else _) = _
      rw [hlead, htrail, if_neg (by decide), Char.ofNat_toNat]
    | unit m =>
      show (if isLead c.toNat = true then _ else if isTrail c.toNat = true then _ else _) = _
      rw [hlead, htrail, if_neg (by decide), if_neg (by decide), Char.ofNat_toNat]

theorem assemble_pieceOf (cs : List Char) : assemble (cs.map pieceOf) = some cs := by
  induction cs with
  | nil => rfl
  | cons c cs ih =>
    rw [List.map_cons]
    rcases pieceOf_cases c with hp | ⟨hc, hp⟩
    · rw [hp, assemble, ih]
      rfl
    · rw [hp, assemble_unit hc, ih]
      rfl

/-- A string is read back from its text after the opening quote. -/
theorem text_escaped (s : String) (r : List Char) :
    text (s.toList.flatMap escapedChar ++ '"' :: r) = some (some s, r) := by
  unfold text
  rw [pieces_escaped]
  show some ((assemble (s.toList.map pieceOf)).map String.ofList, r) = _
  rw [assemble_pieceOf, Option.map_some, String.ofList_toList]

/-! ## Values -/

/-- Items with commas between them, without the opening bracket. -/
def listChars : List Json → List Char
  | [] => [']']
  | x :: r => chars x ++ itemChars r

/-- Fields with commas between them, without the opening bracket. -/
def objectChars : List (String × Json) → List Char
  | [] => ['\x7d']
  | (k, x) :: r => quotedChars k ++ ':' :: (chars x ++ fieldChars r)

theorem chars_array (xs : List Json) : chars (.array xs) = '[' :: listChars xs := by
  cases xs with
  | nil => simp only [chars, listChars]
  | cons x r => simp only [chars, listChars]

theorem chars_object (fs : List (String × Json)) :
    chars (.object fs) = '\x7b' :: objectChars fs := by
  cases fs with
  | nil => simp only [chars, objectChars]
  | cons f r => simp only [chars, objectChars]

theorem itemChars_cons (x : Json) (r : List Json) :
    itemChars (x :: r) = ',' :: listChars (x :: r) := by
  simp only [itemChars, listChars]

theorem fieldChars_cons (f : String × Json) (r : List (String × Json)) :
    fieldChars (f :: r) = ',' :: objectChars (f :: r) := by
  simp only [fieldChars, objectChars]

/-- A value begins with a character that is no blank and closes no array. -/
theorem chars_head {v : Json} (h : v.isExact) :
    ∃ c cs, chars v = c :: cs ∧ isSpace c = false ∧ c ≠ ']' := by
  cases v with
  | null => exact ⟨'n', _, by rw [chars], by decide, by decide⟩
  | bool b =>
    cases b
    · exact ⟨'f', _, by rw [chars], by decide, by decide⟩
    · exact ⟨'t', _, by rw [chars], by decide, by decide⟩
  | integer n =>
    rw [chars]
    unfold signedDigits
    split_ifs
    · exact ⟨'-', _, rfl, by decide, by decide⟩
    · obtain ⟨c, cs, hcs⟩ := List.exists_cons_of_ne_nil (digits_ne_nil n.natAbs)
      have hdigit : isDigit c := isDigit_of_mem_digits (hcs ▸ List.mem_cons_self)
      refine ⟨c, cs, hcs, ?_, ?_⟩
      · refine Bool.eq_false_iff.mpr fun hspace => ?_
        simp only [isSpace, Bool.or_eq_true, beq_iff_eq] at hspace
        rcases hspace with ((rfl | rfl) | rfl) | rfl <;> exact absurd hdigit (by decide)
      · rintro rfl
        exact absurd hdigit (by decide)
  | real t => exact absurd h (by simp [isExact])
  | string s => exact ⟨'"', _, by rw [chars, quotedChars], by decide, by decide⟩
  | array xs => exact ⟨'[', _, chars_array xs, by decide, by decide⟩
  | object fs => exact ⟨'\x7b', _, chars_object fs, by decide, by decide⟩
  | unread => exact absurd h (by simp [isExact])

theorem skip_cons {c : Char} {cs : List Char} (h : isSpace c = false) : skip (c :: cs) = c :: cs :=
  List.dropWhile_cons_of_neg (by rw [h]; decide)

theorem signedDigits_head (n : ℤ) :
    ∃ c cs, signedDigits n = c :: cs ∧ (c = '-' ∨ isDigit c = true) := by
  unfold signedDigits
  split_ifs
  · exact ⟨'-', _, rfl, .inl rfl⟩
  · obtain ⟨c, cs, hcs⟩ := List.exists_cons_of_ne_nil (digits_ne_nil n.natAbs)
    exact ⟨c, cs, hcs, .inr (isDigit_of_mem_digits (hcs ▸ List.mem_cons_self))⟩

/-- A value that begins like a number is a number. -/
theorem value_of_sign {c : Char} (h : c = '-' ∨ isDigit c = true) (fuel depth : ℕ)
    (cs : List Char) :
    value (fuel + 1) depth (c :: cs) = (numeral (c :: cs)).map fun p => (p.1.toJson, p.2) := by
  have hne : ∀ d, isDigit d = false → d ≠ '-' → c ≠ d := by
    rintro d hd hd' rfl
    rcases h with h | h
    · exact hd' h
    · exact absurd (hd.symm.trans h) (by decide)
  have hspace : isSpace c = false := by
    refine Bool.eq_false_iff.mpr fun hspace => ?_
    simp only [isSpace, Bool.or_eq_true, beq_iff_eq] at hspace
    rcases hspace with ((rfl | rfl) | rfl) | rfl <;> exact hne _ (by decide) (by decide) rfl
  rw [value, skip_cons hspace]
  split
  · rename_i heq
    exact absurd (List.cons.inj heq).1 (hne _ (by decide) (by decide))
  · rename_i heq
    exact absurd (List.cons.inj heq).1 (hne _ (by decide) (by decide))
  · rename_i heq
    exact absurd (List.cons.inj heq).1 (hne _ (by decide) (by decide))
  · rename_i heq
    exact absurd (List.cons.inj heq).1 (hne _ (by decide) (by decide))
  · rename_i heq
    exact absurd (List.cons.inj heq).1 (hne _ (by decide) (by decide))
  · rename_i heq
    exact absurd (List.cons.inj heq).1 (hne _ (by decide) (by decide))
  · cases numeral (c :: cs) <;> rfl

theorem value_integer {n : ℤ} (h : n.natAbs ≤ maxWord) (fuel depth : ℕ) {r : List Char}
    (hr : Ends r) : value (fuel + 1) depth (signedDigits n ++ r) = some (.integer n, r) := by
  obtain ⟨c, cs, hcs, hc⟩ := signedDigits_head n
  have hnumeral := numeral_signedDigits n hr
  rw [hcs, List.cons_append] at hnumeral ⊢
  rw [value_of_sign hc, hnumeral, Option.map_some, toJson_wholeNumeral h]

/-! What each of the first characters leads to. -/

theorem value_quote (fuel depth : ℕ) (r : List Char) :
    value (fuel + 1) depth ('"' :: r) =
      match text r with
      | some (some s, rest) => some (.string s, rest)
      | some (none, rest) => some (.unread, rest)
      | none => none := by
  rw [value, skip_cons (by decide)]
  rfl

theorem value_bracket (fuel depth : ℕ) (r : List Char) :
    value (fuel + 1) depth ('[' :: r) =
      match skip r with
      | ']' :: rest => some (atDepth (depth + 1) (.array []), rest)
      | _ =>
        match items fuel (depth + 1) r with
        | some (xs, rest) => some (atDepth (depth + 1) (.array xs), rest)
        | none => none := by
  rw [value, skip_cons (by decide)]
  rfl

theorem value_brace (fuel depth : ℕ) (r : List Char) :
    value (fuel + 1) depth ('\x7b' :: r) =
      match skip r with
      | '\x7d' :: rest => some (atDepth (depth + 1) (.object []), rest)
      | _ =>
        match members fuel (depth + 1) r with
        | some (fs, rest) => some (atDepth (depth + 1) (ofFields fs), rest)
        | none => none := by
  rw [value, skip_cons (by decide)]
  rfl

theorem members_quote (fuel depth : ℕ) (r : List Char) :
    members (fuel + 1) depth ('"' :: r) =
      match text r with
      | none => none
      | some (name, r) =>
        match skip r with
        | ':' :: r =>
          match value fuel depth r with
          | none => none
          | some (x, r) =>
            match skip r with
            | '\x7d' :: rest => some ([(name, x)], rest)
            | ',' :: r' =>
              match members fuel depth r' with
              | some (fs, rest) => some ((name, x) :: fs, rest)
              | none => none
            | _ => none
        | _ => none := by
  rw [members, skip_cons (by decide)]
  rfl

theorem value_string (s : String) (fuel depth : ℕ) (r : List Char) :
    value (fuel + 1) depth (quotedChars s ++ r) = some (.string s, r) := by
  have hquoted : quotedChars s ++ r = '"' :: (s.toList.flatMap escapedChar ++ '"' :: r) := by
    unfold quotedChars
    rw [List.cons_append, List.append_assoc]
    rfl
  rw [hquoted, value_quote, text_escaped]

theorem ofFields_some (fs : List (String × Json)) :
    ofFields (fs.map fun f => (some f.1, f.2)) = .object fs := by
  have hnames : (fs.map fun f => (some f.1, f.2)).mapM (m := Option)
      (fun f : Option String × Json => f.1.map fun name => (name, f.2)) = some fs := by
    induction fs with
    | nil => rfl
    | cons f fs ih =>
      rw [List.map_cons, List.mapM_cons, ih]
      rfl
  unfold ofFields
  rw [hnames]

theorem ends_itemChars (xs : List Json) (r : List Char) : Ends (itemChars xs ++ r) := by
  cases xs with
  | nil =>
    rw [itemChars]
    exact ends_cons (by decide) (by decide) (by decide) (by decide)
  | cons x xs =>
    rw [itemChars_cons]
    exact ends_cons (by decide) (by decide) (by decide) (by decide)

theorem ends_fieldChars (fs : List (String × Json)) (r : List Char) :
    Ends (fieldChars fs ++ r) := by
  cases fs with
  | nil =>
    rw [fieldChars]
    exact ends_cons (by decide) (by decide) (by decide) (by decide)
  | cons f fs =>
    rw [fieldChars_cons]
    exact ends_cons (by decide) (by decide) (by decide) (by decide)

theorem atDepth_of_le {d : ℕ} (h : d ≤ maxDepth) (v : Json) : atDepth d v = v := if_pos h

/-- An array that is not empty is read as its items are. -/
theorem value_array {x : Json} {xs : List Json} (hx : x.isExact) (fuel d : ℕ) (r : List Char) :
    value (fuel + 1) d ('[' :: (listChars (x :: xs) ++ r))
      = (items fuel (d + 1) (listChars (x :: xs) ++ r)).map fun p =>
          (atDepth (d + 1) (.array p.1), p.2) := by
  obtain ⟨c, cs, hcs, hspace, hbracket⟩ := chars_head hx
  have hskip : skip (listChars (x :: xs) ++ r) = c :: (cs ++ (itemChars xs ++ r)) := by
    rw [listChars, List.append_assoc, hcs, List.cons_append, skip_cons hspace]
  rw [value_bracket, hskip]
  split
  · -- no item begins as an array ends
    rename_i heq
    exact absurd (List.cons.inj heq).1 hbracket
  · cases items fuel (d + 1) (listChars (x :: xs) ++ r) <;> rfl

/-- An object that is not empty is read as its fields are. -/
theorem value_object (f : String × Json) (fs : List (String × Json)) (fuel d : ℕ) (r : List Char) :
    value (fuel + 1) d ('\x7b' :: (objectChars (f :: fs) ++ r))
      = (members fuel (d + 1) (objectChars (f :: fs) ++ r)).map fun p =>
          (atDepth (d + 1) (ofFields p.1), p.2) := by
  have hskip : ∃ cs, skip (objectChars (f :: fs) ++ r) = '"' :: cs := by
    rw [objectChars, quotedChars, List.append_assoc, List.cons_append]
    exact ⟨_, skip_cons (by decide)⟩
  obtain ⟨cs, hcs⟩ := hskip
  rw [value_brace, hcs]
  cases members fuel (d + 1) (objectChars (f :: fs) ++ r) <;> rfl

/-- The name of a field with its colon is read before the value of the field. -/
theorem members_name (k : String) (fuel d : ℕ) (r : List Char) :
    members (fuel + 1) d (quotedChars k ++ ':' :: r)
      = match value fuel d r with
        | none => none
        | some (x, r) =>
          match skip r with
          | '\x7d' :: rest => some ([(some k, x)], rest)
          | ',' :: r' =>
            match members fuel d r' with
            | some (fs, rest) => some ((some k, x) :: fs, rest)
            | none => none
          | _ => none := by
  have hquoted : quotedChars k ++ ':' :: r
      = '"' :: (k.toList.flatMap escapedChar ++ '"' :: ':' :: r) := by
    unfold quotedChars
    rw [List.cons_append, List.append_assoc]
    rfl
  rw [hquoted, members_quote, text_escaped]
  rfl

/-- After a comma the other items are read. -/
theorem items_comma {fuel d : ℕ} {cs r : List Char} {x : Json}
    (h : value fuel d cs = some (x, ',' :: r)) :
    items (fuel + 1) d cs =
      match items fuel d r with
      | some (xs, rest) => some (x :: xs, rest)
      | none => none := by
  rw [items, h]
  rfl

/-- After a comma the other fields are read. -/
theorem members_comma (k : String) {fuel d : ℕ} {r r' : List Char} {x : Json}
    (h : value fuel d r = some (x, ',' :: r')) :
    members (fuel + 1) d (quotedChars k ++ ':' :: r) =
      match members fuel d r' with
      | some (fs, rest) => some ((some k, x) :: fs, rest)
      | none => none := by
  rw [members_name, h]
  rfl

theorem quotedChars_length (s : String) : 2 ≤ (quotedChars s).length := by
  rw [quotedChars, List.length_cons, List.length_append, List.length_singleton]
  omega

mutual

/-- A value is read back from its text, whatever ends it. -/
theorem value_chars : ∀ (v : Json) {m d : ℕ} {r : List Char}, v.isExact →
    d + v.depth ≤ maxDepth → 2 * (chars v).length ≤ m + 1 → Ends r →
    value (m + 1) d (chars v ++ r) = some (v, r)
  | .null, _, _, _, _, _, _, _ => rfl
  | .bool true, _, _, _, _, _, _, _ => rfl
  | .bool false, _, _, _, _, _, _, _ => rfl
  | .integer n, m, d, r, h, _, _, hr => by
    rw [chars]
    exact value_integer (of_decide_eq_true h) m d hr
  | .real t, _, _, _, h, _, _, _ => absurd h (by simp [isExact])
  | .string s, m, d, r, _, _, _, _ => by
    rw [chars]
    exact value_string s m d r
  | .array [], m, d, r, _, hdepth, _, _ => by
    have hle : d + 1 ≤ maxDepth := hdepth
    have hread : value (m + 1) d (chars (.array []) ++ r)
        = some (atDepth (d + 1) (.array []), r) := rfl
    rw [hread, atDepth_of_le hle]
  | .array (x :: xs), m, d, r, h, hdepth, hfuel, _ => by
    rw [chars_array, List.length_cons] at hfuel
    have hle : d + (itemsDepth (x :: xs) + 1) ≤ maxDepth := hdepth
    have hx : x.isExact := (Bool.and_eq_true_iff.mp h).1
    have hitems := items_listChars (x :: xs) (m := m - 1) (d := d + 1) (r := r) (by simp) h
      (by omega) (by omega)
    have hsucc : m - 1 + 1 = m := by omega
    rw [hsucc] at hitems
    rw [chars_array, List.cons_append, value_array hx, hitems, Option.map_some,
      atDepth_of_le (by omega)]
  | .object [], m, d, r, _, hdepth, _, _ => by
    have hle : d + 1 ≤ maxDepth := hdepth
    have hread : value (m + 1) d (chars (.object []) ++ r)
        = some (atDepth (d + 1) (.object []), r) := rfl
    rw [hread, atDepth_of_le hle]
  | .object (f :: fs), m, d, r, h, hdepth, hfuel, _ => by
    rw [chars_object, List.length_cons] at hfuel
    have hle : d + (fieldsDepth (f :: fs) + 1) ≤ maxDepth := hdepth
    have hfields := members_objectChars (f :: fs) (m := m - 1) (d := d + 1) (r := r) (by simp) h
      (by omega) (by omega)
    have hsucc : m - 1 + 1 = m := by omega
    rw [hsucc] at hfields
    rw [chars_object, List.cons_append, value_object, hfields, Option.map_some, ofFields_some,
      atDepth_of_le (by omega)]
  | .unread, _, _, _, h, _, _, _ => absurd h (by simp [isExact])

theorem items_listChars : ∀ (xs : List Json) {m d : ℕ} {r : List Char}, xs ≠ [] →
    itemsExact xs → d + itemsDepth xs ≤ maxDepth → 2 * (listChars xs).length ≤ m →
    items (m + 1) d (listChars xs ++ r) = some (xs, r)
  | [], _, _, _, h, _, _, _ => absurd rfl h
  | x :: xs, m, d, r, _, h, hdepth, hfuel => by
    rw [listChars, List.length_append] at hfuel
    obtain ⟨hx, hxs⟩ := Bool.and_eq_true_iff.mp h
    have hle : d + max x.depth (itemsDepth xs) ≤ maxDepth := hdepth
    -- the text of an item is not empty, so the counter has a step for it and one to go on
    obtain ⟨c, cs, hcs, _, _⟩ := chars_head hx
    have hpos : 0 < (chars x).length := by
      rw [hcs]
      exact Nat.succ_pos _
    have hfirst := value_chars x (m := m - 1) (d := d) (r := itemChars xs ++ r) hx
      (by omega) (by omega) (ends_itemChars xs r)
    have hsucc : m - 1 + 1 = m := by omega
    rw [hsucc] at hfirst
    rw [listChars, List.append_assoc]
    cases xs with
    | nil =>
      rw [items, hfirst]
      rfl
    | cons y ys =>
      rw [itemChars_cons, List.length_cons] at hfuel
      have hrest := items_listChars (y :: ys) (m := m - 1) (d := d) (r := r) (by simp) hxs
        (by omega) (by omega)
      rw [hsucc] at hrest
      rw [itemChars_cons, List.cons_append] at hfirst ⊢
      rw [items_comma hfirst, hrest]

theorem members_objectChars : ∀ (fs : List (String × Json)) {m d : ℕ} {r : List Char}, fs ≠ [] →
    fieldsExact fs → d + fieldsDepth fs ≤ maxDepth → 2 * (objectChars fs).length ≤ m →
    members (m + 1) d (objectChars fs ++ r) = some (fs.map fun f => (some f.1, f.2), r)
  | [], _, _, _, h, _, _, _ => absurd rfl h
  | (k, x) :: fs, m, d, r, _, h, hdepth, hfuel => by
    rw [objectChars, List.length_append, List.length_cons, List.length_append] at hfuel
    obtain ⟨hx, hfs⟩ := Bool.and_eq_true_iff.mp h
    have hle : d + max x.depth (fieldsDepth fs) ≤ maxDepth := hdepth
    have hquotes := quotedChars_length k
    have hfirst := value_chars x (m := m - 1) (d := d) (r := fieldChars fs ++ r) hx
      (by omega) (by omega) (ends_fieldChars fs r)
    have hsucc : m - 1 + 1 = m := by omega
    rw [hsucc] at hfirst
    rw [objectChars, List.append_assoc, List.cons_append, List.append_assoc]
    cases fs with
    | nil =>
      rw [members_name, hfirst]
      rfl
    | cons f fs =>
      rw [fieldChars_cons, List.length_cons] at hfuel
      have hrest := members_objectChars (f :: fs) (m := m - 1) (d := d) (r := r) (by simp) hfs
        (by omega) (by omega)
      rw [hsucc] at hrest
      rw [fieldChars_cons, List.cons_append] at hfirst ⊢
      rw [members_comma k hfirst, hrest]
      rfl

end

/-- A value is read back from its text as it was. -/
theorem parse?_render {v : Json} (h : v.isExact) (hdepth : v.depth ≤ maxDepth) :
    parse? v.render = some v := by
  have hvalue := value_chars v (m := 2 * (chars v).length + 1) (d := 0) (r := []) h
    (by omega) (by omega) ends_nil
  rw [List.append_nil] at hvalue
  unfold parse? parseChars? render
  rw [String.toList_ofList, hvalue]
  rfl

end RegionPricing.Json
