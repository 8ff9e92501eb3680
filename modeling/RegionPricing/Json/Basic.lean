/-!
# JSON values

A `Json` keeps what a decoder can tell apart: whole numbers apart from other
numbers, and the fields of an object in the order of the text, repeats
included. A part of a text that is well formed but stands for no value (a
string with half a surrogate pair, a number too large for a double, nesting
beyond the limit) is `unread`: a decoder that skips it does not notice it, one
that needs it fails.
-/

namespace RegionPricing

/-- A JSON value. -/
inductive Json where
  | null
  | bool (b : Bool)
  /-- A number written without fraction and exponent. -/
  | integer (n : Int)
  /-- Any other number, as it is written. -/
  | real (text : String)
  | string (s : String)
  | array (items : List Json)
  /-- An object with its fields in the order of the text. -/
  | object (fields : List (String × Json))
  /-- A well-formed part that stands for no value. -/
  | unread
  deriving Inhabited

namespace Json

mutual

/-- Whether no part of the value is unread. -/
def isWhole : Json → Bool
  | .unread => false
  | .array xs => itemsWhole xs
  | .object fs => fieldsWhole fs
  | _ => true

/-- Whether no item has an unread part. -/
def itemsWhole : List Json → Bool
  | [] => true
  | x :: r => isWhole x && itemsWhole r

/-- Whether no field has an unread part. -/
def fieldsWhole : List (String × Json) → Bool
  | [] => true
  | (_, x) :: r => isWhole x && fieldsWhole r

end

/-- The deepest nesting of arrays and objects that is read. -/
def maxDepth : Nat := 127

/-- The last field of that name, if the value is an object that has one. -/
def field? (name : String) : Json → Option Json
  | .object fs => (fs.reverse.find? (fun f => f.1 = name)).map Prod.snd
  | _ => none

/-- The fields with one more, which stands in the order of the names; a field of
that name that is already there stays. -/
def insertField (name : String) (v : Json) : List (String × Json) → List (String × Json)
  | [] => [(name, v)]
  | (k, x) :: r =>
    if name = k then (k, x) :: r
    else if name < k then (name, v) :: (k, x) :: r
    else (k, x) :: insertField name v r

mutual

/-- The value with the fields of its objects in the order of their names, of
those with one name only the last. -/
def ordered : Json → Json
  | .array xs => .array (orderedItems xs)
  | .object fs => .object (orderedFields fs)
  | v => v

def orderedItems : List Json → List Json
  | [] => []
  | x :: r => ordered x :: orderedItems r

def orderedFields : List (String × Json) → List (String × Json)
  | [] => []
  | (k, x) :: r => insertField k (ordered x) (orderedFields r)

end

/-- The items, if the value is an array. -/
def items? : Json → Option (List Json)
  | .array xs => some xs
  | _ => none

end Json

end RegionPricing
