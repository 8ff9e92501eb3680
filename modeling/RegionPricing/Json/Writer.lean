import RegionPricing.Json.Basic
import RegionPricing.Text.Quoted

/-!
# Writing JSON text

`Json.render` writes a value without blanks. In strings the quote, the
backslash and the control characters are escaped and all else stands as it is.
-/

namespace RegionPricing.Json

open RegionPricing.Text

/-- One character of a string. -/
def escapedChar (c : Char) : List Char :=
  if c = '"' then ['\\', '"']
  else if c = '\\' then ['\\', '\\']
  else if c = '\x08' then ['\\', 'b']
  else if c = '\t' then ['\\', 't']
  else if c = '\n' then ['\\', 'n']
  else if c = '\x0c' then ['\\', 'f']
  else if c = '\r' then ['\\', 'r']
  else if c.toNat < 0x20 then
    ['\\', 'u', '0', '0', hexDigit (c.toNat / 16), hexDigit c.toNat]
  else [c]

/-- A string with its quotes. -/
def quotedChars (s : String) : List Char :=
  '"' :: (s.toList.flatMap escapedChar ++ ['"'])

mutual

/-- The characters of a value. An unread part is written as null. -/
def chars : Json → List Char
  | .null => ['n', 'u', 'l', 'l']
  | .bool true => ['t', 'r', 'u', 'e']
  | .bool false => ['f', 'a', 'l', 's', 'e']
  | .integer n => signedDigits n
  | .real t => t.toList
  | .string s => quotedChars s
  | .array [] => ['[', ']']
  | .array (x :: r) => '[' :: (chars x ++ itemChars r)
  | .object [] => ['\x7b', '\x7d']
  | .object ((k, x) :: r) => '\x7b' :: (quotedChars k ++ ':' :: (chars x ++ fieldChars r))
  | .unread => ['n', 'u', 'l', 'l']

/-- The items after the first, with the closing bracket. -/
def itemChars : List Json → List Char
  | [] => [']']
  | x :: r => ',' :: (chars x ++ itemChars r)

/-- The fields after the first, with the closing bracket. -/
def fieldChars : List (String × Json) → List Char
  | [] => ['\x7d']
  | (k, x) :: r => ',' :: (quotedChars k ++ ':' :: (chars x ++ fieldChars r))

end

/-- A value as text. -/
def render (v : Json) : String := String.ofList (chars v)

end RegionPricing.Json
