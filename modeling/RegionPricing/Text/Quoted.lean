import RegionPricing.Text.Unseen
import RegionPricing.Text.Digits

/-!
# Quoted text in messages

A message that repeats a piece of its input shows it in double quotes, with
the quote, the backslash and every character without a visible form escaped,
so that the message always shows where the text begins and ends.
-/

namespace RegionPricing.Text

/-- A hexadecimal digit in lower case. -/
def hexDigit (n : Nat) : Char :=
  if n % 16 < 10 then Char.ofNat (48 + n % 16) else Char.ofNat (87 + n % 16)

/-- The hexadecimal digits of a number, without leading zeros. -/
def hexDigits (n : Nat) : List Char :=
  if n < 16 then [hexDigit n] else hexDigits (n / 16) ++ [hexDigit n]
termination_by n
decreasing_by omega

/-- A character by its number, as `\u` with the number in curly brackets. -/
def byNumber (c : Char) : List Char :=
  ['\\', 'u', '\x7b'] ++ hexDigits c.toNat ++ ['\x7d']

/-- One character of a quoted text. -/
def quotedChar (c : Char) : List Char :=
  if c = '\x00' then ['\\', '0']
  else if c = '\t' then ['\\', 't']
  else if c = '\r' then ['\\', 'r']
  else if c = '\n' then ['\\', 'n']
  else if c = '"' then ['\\', '"']
  else if c = '\\' then ['\\', '\\']
  else if c.toNat < 0x20 || c.toNat == 0x7F then byNumber c
  else if c.toNat < 0x7F then [c]
  else if isUnseen c then byNumber c
  else [c]

/-- A text in double quotes. -/
def quoted (s : String) : String :=
  String.ofList (['"'] ++ s.toList.flatMap quotedChar ++ ['"'])

/-- A list of texts, each in double quotes, between square brackets. -/
def quotedList (xs : List String) : String :=
  "[" ++ String.intercalate ", " (xs.map quoted) ++ "]"

end RegionPricing.Text
