import RegionPricing.Json.Basic
import RegionPricing.Json.Double

/-!
# Reading JSON text

`Json.parse?` reads one JSON value that fills the whole text, blanks around it
apart. The functions below take the characters that are left and return the
value read with the characters after it. `value` counts down a number that the
length of the text bounds, so it always has enough (`parse?` supplies it).
-/

namespace RegionPricing.Json

open RegionPricing.Text

/-- The blanks that may stand between the parts of a JSON text. -/
def isSpace (c : Char) : Bool := c == ' ' || c == '\n' || c == '\t' || c == '\r'

/-- The characters after the blanks in front. -/
def skip (cs : List Char) : List Char := cs.dropWhile isSpace

/-! ## Strings -/

/-- A piece of a string: a character, or a UTF-16 code unit given by number. -/
inductive Piece where
  | char (c : Char)
  | unit (n : Nat)

/-- The value of a hexadecimal digit. -/
def hex? (c : Char) : Option Nat :=
  let n := c.toNat
  if 48 ≤ n && n ≤ 57 then some (n - 48)
  else if 65 ≤ n && n ≤ 70 then some (n - 55)
  else if 97 ≤ n && n ≤ 102 then some (n - 87)
  else none

/-- The code unit written with four hexadecimal digits. -/
def unit? (a b c d : Char) : Option Nat := do
  let a ← hex? a
  let b ← hex? b
  let c ← hex? c
  let d ← hex? d
  return ((a * 16 + b) * 16 + c) * 16 + d

/-- The character that a letter after a backslash stands for. -/
def escape? (c : Char) : Option Char :=
  match c with
  | '"' => some '"'
  | '\\' => some '\\'
  | '/' => some '/'
  | 'b' => some '\x08'
  | 'f' => some '\x0c'
  | 'n' => some '\n'
  | 'r' => some '\r'
  | 't' => some '\t'
  | _ => none

/-- The pieces of a string up to its closing quote. Control characters must be
escaped. -/
def pieces : List Char → Option (List Piece × List Char)
  | [] => none
  | '"' :: r => some ([], r)
  | '\\' :: 'u' :: a :: b :: c :: d :: r =>
    match unit? a b c d, pieces r with
    | some n, some (ps, rest) => some (.unit n :: ps, rest)
    | _, _ => none
  | '\\' :: e :: r =>
    match escape? e, pieces r with
    | some c, some (ps, rest) => some (.char c :: ps, rest)
    | _, _ => none
  | c :: r =>
    if c.toNat < 0x20 || c == '\\' then none
    else match pieces r with
      | some (ps, rest) => some (.char c :: ps, rest)
      | none => none

/-- A leading half of a surrogate pair. -/
def isLead (n : Nat) : Bool := 0xD800 ≤ n && n < 0xDC00

/-- A trailing half of a surrogate pair. -/
def isTrail (n : Nat) : Bool := 0xDC00 ≤ n && n < 0xE000

/-- The characters that the pieces stand for. Halves of surrogate pairs must
stand together. -/
def assemble : List Piece → Option (List Char)
  | [] => some []
  | .char c :: r => (assemble r).map (c :: ·)
  | .unit n :: .unit m :: r =>
    if isLead n then
      if isTrail m then
        (assemble r).map (Char.ofNat (0x10000 + (n - 0xD800) * 0x400 + (m - 0xDC00)) :: ·)
      else none
    else if isTrail n then none
    else (assemble (.unit m :: r)).map (Char.ofNat n :: ·)
  | .unit n :: r =>
    if isLead n || isTrail n then none else (assemble r).map (Char.ofNat n :: ·)

/-- A string after its opening quote; `none` inside for one that stands for no
text. -/
def text (cs : List Char) : Option (Option String × List Char) :=
  match pieces cs with
  | some (ps, rest) => some ((assemble ps).map String.ofList, rest)
  | none => none

/-! ## Numbers -/

/-- Whether a character is a decimal digit. -/
def isDigit (c : Char) : Bool := 48 ≤ c.toNat && c.toNat ≤ 57

/-- The parts of a written number. -/
structure Numeral where
  negative : Bool
  whole : List Char
  /-- The digits after the point, if there is one. -/
  fraction : Option (List Char)
  /-- The sign and digits of the exponent, if there is one. -/
  exponent : Option (Bool × List Char)

/-- Digits of which there must be at least one. -/
def someDigits (cs : List Char) : Option (List Char × List Char) :=
  match cs.takeWhile isDigit with
  | [] => none
  | ds => some (ds, cs.dropWhile isDigit)

/-- The whole part: no zero stands in front of other digits. -/
def wholePart (cs : List Char) : Option (List Char × List Char) :=
  match someDigits cs with
  | some ('0' :: _ :: _, _) => none
  | other => other

/-- The fraction, if a point follows. -/
def fractionPart : List Char → Option (Option (List Char) × List Char)
  | '.' :: r => (someDigits r).map fun p => (some p.1, p.2)
  | cs => some (none, cs)

/-- The exponent, if its letter follows. -/
def exponentPart : List Char → Option (Option (Bool × List Char) × List Char)
  | c :: r =>
    if c = 'e' ∨ c = 'E' then
      match r with
      | '-' :: r' => (someDigits r').map fun p => (some (true, p.1), p.2)
      | '+' :: r' => (someDigits r').map fun p => (some (false, p.1), p.2)
      | _ => (someDigits r).map fun p => (some (false, p.1), p.2)
    else some (none, c :: r)
  | [] => some (none, [])

/-- A written number. -/
def numeral (cs : List Char) : Option (Numeral × List Char) := do
  let (negative, body) := match cs with
    | '-' :: r => (true, r)
    | _ => (false, cs)
  let (whole, afterWhole) ← wholePart body
  let (fraction, afterFraction) ← fractionPart afterWhole
  let (exponent, rest) ← exponentPart afterFraction
  return ({ negative, whole, fraction, exponent }, rest)

/-- The number that the digits stand for. -/
def natOf (ds : List Char) : Nat := (number? ds).getD 0

/-- The text of a written number. -/
def Numeral.text (n : Numeral) : String :=
  let sign := if n.negative then ['-'] else []
  let fraction := match n.fraction with
    | some ds => '.' :: ds
    | none => []
  let exponent := match n.exponent with
    | some (neg, ds) => 'e' :: (if neg then '-' :: ds else ds)
    | none => []
  String.ofList (sign ++ n.whole ++ fraction ++ exponent)

/-- The power of ten by which a written number is multiplied. -/
def Numeral.shift (n : Numeral) : Int :=
  match n.exponent with
  | some (true, ds) => -(natOf ds : Int)
  | some (false, ds) => natOf ds
  | none => 0

/-- Whether a written number is too large to be kept. -/
def Numeral.tooLarge (n : Numeral) : Bool :=
  let (word, exponent) := leading n.whole (n.fraction.getD [])
  exceedsDouble word (exponent + n.shift)

/-- The value of a written number. Minus zero is not a whole number. -/
def Numeral.toJson (n : Numeral) : Json :=
  if n.tooLarge then .unread
  else if n.fraction.isNone ∧ n.exponent.isNone then
    let size := natOf n.whole
    if n.negative then
      if size = 0 then .real n.text else .integer (-(size : Int))
    else .integer size
  else .real n.text

/-! ## Values -/

/-- The array or object at this depth, or `unread` when it lies too deep. -/
def atDepth (depth : Nat) (v : Json) : Json := if depth ≤ maxDepth then v else .unread

/-- The object of these fields; unread when a name stands for no text. -/
def ofFields (fields : List (Option String × Json)) : Json :=
  match fields.mapM (fun f => f.1.map fun name => (name, f.2)) with
  | some fs => .object fs
  | none => .unread

mutual

/-- One value; `depth` counts the arrays and objects around it. -/
def value : Nat → Nat → List Char → Option (Json × List Char)
  | 0, _, _ => none
  | fuel + 1, depth, cs =>
    match skip cs with
    | '"' :: r =>
      match text r with
      | some (some s, rest) => some (.string s, rest)
      | some (none, rest) => some (.unread, rest)
      | none => none
    | '[' :: r =>
      match skip r with
      | ']' :: rest => some (atDepth (depth + 1) (.array []), rest)
      | _ =>
        match items fuel (depth + 1) r with
        | some (xs, rest) => some (atDepth (depth + 1) (.array xs), rest)
        | none => none
    | '\x7b' :: r =>
      match skip r with
      | '\x7d' :: rest => some (atDepth (depth + 1) (.object []), rest)
      | _ =>
        match members fuel (depth + 1) r with
        | some (fs, rest) => some (atDepth (depth + 1) (ofFields fs), rest)
        | none => none
    | 't' :: 'r' :: 'u' :: 'e' :: r => some (.bool true, r)
    | 'f' :: 'a' :: 'l' :: 's' :: 'e' :: r => some (.bool false, r)
    | 'n' :: 'u' :: 'l' :: 'l' :: r => some (.null, r)
    | r =>
      match numeral r with
      | some (n, rest) => some (n.toJson, rest)
      | none => none

/-- The items of an array up to its closing bracket. -/
def items : Nat → Nat → List Char → Option (List Json × List Char)
  | 0, _, _ => none
  | fuel + 1, depth, cs =>
    match value fuel depth cs with
    | none => none
    | some (x, r) =>
      match skip r with
      | ']' :: rest => some ([x], rest)
      | ',' :: r' =>
        match items fuel depth r' with
        | some (xs, rest) => some (x :: xs, rest)
        | none => none
      | _ => none

/-- The fields of an object up to its closing bracket. -/
def members : Nat → Nat → List Char → Option (List (Option String × Json) × List Char)
  | 0, _, _ => none
  | fuel + 1, depth, cs =>
    match skip cs with
    | '"' :: r =>
      match text r with
      | none => none
      | some (name, r) =>
        match skip r with
        | ':' :: r =>
          match value fuel depth r with
          | none => none
          | some (x, r) =>
            match skip r with
            | '\x7d' :: rest => some ([(name, x)], rest)
            | ',' :: r' =>
              match members fuel depth r' with
              | some (fs, rest) => some ((name, x) :: fs, rest)
              | none => none
            | _ => none
        | _ => none
    | _ => none

end

/-- The value that fills the whole text. -/
def parseChars? (cs : List Char) : Option Json :=
  match value (2 * cs.length + 2) 0 cs with
  | some (v, rest) => if skip rest = [] then some v else none
  | none => none

/-- The value that fills the whole text. -/
def parse? (s : String) : Option Json := parseChars? s.toList

end RegionPricing.Json
