import RegionPricing.Decimal.Arithmetic
import RegionPricing.Decimal.Rounding
import RegionPricing.Text.Blank
import RegionPricing.Text.Digits
import RegionPricing.Json.Shape

/-!
# Decimals as text

`toText` keeps the scale and the sign of zero, `canonical` drops both, the zeros
at the end of the fraction and the minus sign of zero. `read` takes digits with
an optional sign and point, underscores between digits, and an exponent. Digits
that a decimal cannot hold are rounded away when they stand after the point, by
the first digit dropped alone; before the point they are an error. A zero that
is written has no minus sign, but one that a negative exponent rounds to has.
-/

namespace RegionPricing.Decimal

open RegionPricing.Text

/-! ## Writing -/

/-- The digits of `n`, with zeros in front to make at least `width` of them. -/
def padded (n width : Nat) : List Char :=
  let ds := digits n
  List.replicate (width - ds.length) '0' ++ ds

/-- The characters of `mantissa / 10 ^ scale` with exactly `scale` places. -/
def plainChars (negative : Bool) (mantissa scale : Nat) : List Char :=
  let sign := if negative then ['-'] else []
  let ds := padded mantissa (scale + 1)
  let whole := ds.take (ds.length - scale)
  if scale = 0 then sign ++ ds
  else sign ++ whole ++ '.' :: ds.drop (ds.length - scale)

/-- The decimal with all its places. -/
def toText (a : Decimal) : String := String.ofList (plainChars a.negative a.mantissa a.scale)

/-- Mantissa and scale without zeros at the end of the fraction. -/
def stripZeros (mantissa : Nat) : Nat → Nat × Nat
  | 0 => (mantissa, 0)
  | s + 1 => if mantissa % 10 = 0 then stripZeros (mantissa / 10) s else (mantissa, s + 1)

theorem stripZeros_le (m s : Nat) : (stripZeros m s).1 ≤ m ∧ (stripZeros m s).2 ≤ s := by
  induction s generalizing m with
  | zero => exact ⟨Nat.le_refl _, Nat.le_refl _⟩
  | succ s ih =>
    unfold stripZeros
    split
    · obtain ⟨h1, h2⟩ := ih (m / 10)
      exact ⟨Nat.le_trans h1 (Nat.div_le_self m 10), Nat.le_succ_of_le h2⟩
    · exact ⟨Nat.le_refl _, Nat.le_refl _⟩

/-- The decimal without zeros at the end of the fraction. -/
def stripped (a : Decimal) : Decimal :=
  ⟨a.negative, (stripZeros a.mantissa a.scale).1, (stripZeros a.mantissa a.scale).2,
    Nat.lt_of_le_of_lt (stripZeros_le _ _).1 a.mantissa_lt,
    Nat.le_trans (stripZeros_le _ _).2 a.scale_le⟩

/-- The decimal without zeros at the end of the fraction, and zero without
sign. -/
def canonical (a : Decimal) : String :=
  let b := a.stripped
  String.ofList (plainChars b.isNegative b.mantissa b.scale)

/-! ## Reading -/

/-- Why a text is no decimal. -/
inductive ReadError where
  | empty
  | noDigits
  | twoPoints
  | leadingSeparator
  | unknownCharacter
  | tooManyDigits
  | overflowAfterRounding
  | exponent
  | exponentRange (e : Nat)
  | tooLarge
  deriving DecidableEq

/-- A scale that is too large, in words. -/
def scaleMessage (scale : Nat) : String :=
  s!"Scale exceeds the maximum precision allowed: {scale} > 28"

/-- The error in words. -/
def ReadError.message : ReadError → String
  | .empty => "Invalid decimal: empty"
  | .noDigits => "Invalid decimal: no digits found"
  | .twoPoints => "Invalid decimal: two decimal points"
  | .leadingSeparator => "Invalid decimal: must start lead with a number"
  | .unknownCharacter => "Invalid decimal: unknown character"
  | .tooManyDigits => "Invalid decimal: overflow from too many digits"
  | .overflowAfterRounding => "Invalid decimal: overflow from mantissa after rounding"
  | .exponent => "Failed to parse"
  | .exponentRange e => scaleMessage e
  | .tooLarge => "Number exceeds maximum value that can be represented."

/-- What has been read of a decimal. -/
structure Scan where
  mantissa : Nat
  scale : Nat
  /-- Whether the point has been read. -/
  point : Bool
  /-- Whether a digit has been read. -/
  digit : Bool
  /-- Whether the last digit went to a number that was already near 64 bits. -/
  wide : Bool

/-- From here on a mantissa is about to leave 64 bits. -/
def nearWord : Nat := 1844674407370954906

/-- Keeps `mantissa / 10 ^ scale` in place of a number that goes on with the
digit `d`, after which only digits and underscores may follow. A whole number
that rounding carries past the limit is an error whatever follows. -/
def roundAt (mantissa scale d : Nat) (rest : List Char) : Except ReadError (Nat × Nat) :=
  if 5 ≤ d ∧ limit ≤ mantissa + 1 ∧ scale = 0 then .error .overflowAfterRounding
  else
    match rest.find? (fun c => (digit? c).isNone && c != '_') with
    | some '.' => .error .twoPoints
    | some _ => .error .unknownCharacter
    | none =>
      if d < 5 then .ok (mantissa, scale)
      else if mantissa + 1 < limit then .ok (mantissa + 1, scale)
      else .ok ((mantissa + 5) / 10, scale - 1)

/-- Mantissa and scale of a decimal without sign. -/
def scan (s : Scan) : List Char → Except ReadError (Nat × Nat)
  | [] => if s.digit then .ok (s.mantissa, s.scale) else .error .noDigits
  | c :: r =>
    match digit? c with
    | some d =>
      if s.point && s.scale == 28 then roundAt s.mantissa s.scale d r
      else if limit ≤ 10 * s.mantissa + d then
        if s.point then roundAt s.mantissa s.scale d r else .error .tooManyDigits
      else
        scan { s with
          mantissa := 10 * s.mantissa + d
          scale := if s.point then s.scale + 1 else 0
          digit := true
          wide := nearWord ≤ s.mantissa } r
    | none =>
      if c = '.' then
        if s.point then .error .twoPoints else scan { s with point := true } r
      else if c = '_' then
        if !s.digit then .error .leadingSeparator
        else if s.point && s.scale == 28 && !s.wide then roundAt s.mantissa s.scale 0 r
        else scan s r
      else .error .unknownCharacter

/-- Nothing has been read yet. -/
def Scan.start : Scan := ⟨0, 0, false, false, false⟩

/-- The decimal of these parts; both are within bounds wherever `scan` answers. -/
def ofScan (negative : Bool) (p : Nat × Nat) : Except ReadError Decimal :=
  match ofParts? (if negative then -(p.1 : Int) else p.1) p.2 with
  | some d => .ok d
  | none => .error .tooLarge

/-- A decimal without exponent. -/
def readPlain : List Char → Except ReadError Decimal
  | [] => .error .empty
  | '-' :: r => (scan .start r).bind (ofScan true)
  | '+' :: r => (scan .start r).bind (ofScan false)
  | cs => (scan .start cs).bind (ofScan false)

/-- The exponent after its letter: whether it is negative, and its size. -/
def readExponent (cs : List Char) : Except ReadError (Bool × Nat) :=
  let (negative, ds) := match cs with
    | '-' :: r => (true, r)
    | _ => (false, cs)
  match unsigned? 4294967295 ds with
  | some e => .ok (negative, e)
  | none => .error .exponent

/-- `a / 10 ^ e`, rounded half away from zero to what 28 places hold. -/
def shiftDown (a : Decimal) (e : Nat) : Except ReadError Decimal :=
  if 28 < e then .error (.exponentRange e)
  else
    let kept := if 28 < a.scale + e then a.roundHalfAway (28 - e) else a
    .ok ⟨kept.negative, kept.mantissa, Nat.min (a.scale + e) 28, kept.mantissa_lt,
      Nat.min_le_right _ _⟩

/-- `a * 10 ^ e`. -/
def shiftUp (a : Decimal) (e : Nat) : Except ReadError Decimal :=
  if e ≤ a.scale then
    match ofParts? a.coeff (a.scale - e) with
    | some d => .ok d
    | none => .error .tooLarge
  else if 28 < e then .error (.exponentRange e)
  else
    match a.mul? (pow10 e) with
    | some d => .ok d.stripped
    | none => .error .tooLarge

/-- Whether a character introduces an exponent. -/
def isExponentLetter (c : Char) : Bool := c == 'e' || c == 'E'

/-- A decimal with an exponent. -/
def readScientific (cs : List Char) : Except ReadError Decimal := do
  let base ← readPlain (cs.takeWhile fun c => !isExponentLetter c)
  let (negative, e) ← readExponent ((cs.dropWhile fun c => !isExponentLetter c).drop 1)
  if negative then base.shiftDown e else base.shiftUp e

/-- A decimal, with or without exponent. -/
def read (cs : List Char) : Except ReadError Decimal :=
  match readPlain cs with
  | .ok d => .ok d
  | .error e => if cs.any isExponentLetter then readScientific cs else .error e

/-- A decimal with blanks around it. -/
def ofText (s : String) : Except ReadError Decimal := read (trim s.toList)

/-! ## In JSON -/

/-- A decimal in JSON is a string that holds all its places. -/
def toJson (a : Decimal) : Json := .string a.toText

/-- A decimal from a JSON string, which has no blanks around it. -/
def ofJson? : Json.Decoder Decimal
  | .string s => (read s.toList).toOption
  | _ => none

end RegionPricing.Decimal
