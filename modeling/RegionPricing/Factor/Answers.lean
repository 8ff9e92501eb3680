import RegionPricing.KeyMap
import RegionPricing.Failure
import RegionPricing.Factor.Key

/-!
# What is known of some keys

A lookup of many keys never fails as a whole: its `Answers` hold a value or a
failure for every key that was asked for.
-/

namespace RegionPricing.Factor

/-- The outcome of each of some keys. -/
abbrev Answers (κ ν : Type) [DecidableEq κ] := KeyMap κ (Outcome ν)

namespace Answers

variable {κ ν : Type} [DecidableEq κ] [KeyText κ]

/-- The answers that give each of some keys its outcome. -/
def ofKeys (keys : List κ) (outcome : κ → Outcome ν) : Answers κ ν :=
  .ofList (keys.map fun k => (k, outcome k))

/-- The failure of a key for which nothing was found. -/
def notFound (what : String) (key : κ) : Failure := ⟨.notFound, what ++ " " ++ keyText key⟩

/-- What was found for a key, or the failure that it is missing. -/
def ofFound (what : String) (found : KeyMap κ ν) (key : κ) : Outcome ν :=
  match found.get? key with
  | some v => .ok v
  | none => .error (notFound what key)

/-- The outcomes of some keys. What was found for a key is handed out once: where the key
stands again, nothing is left for it. -/
def handedOut (what : String) : List κ → KeyMap κ ν → List (κ × Outcome ν)
  | [], _ => []
  | k :: keys, found => (k, ofFound what found k) :: handedOut what keys (found.erase k)

/-- What was found, with a failure for each key that is missing. -/
def complete (what : String) (keys : List κ) (found : KeyMap κ ν) : Answers κ ν :=
  .ofList (handedOut what keys found)

/-- The same failure for every key. -/
def allFail (keys : List κ) (f : Failure) : Answers κ ν := ofKeys keys fun _ => .error f

/-- The outcome of a key; a key that was not asked for is a failure too. -/
def lookup (what : String) (answers : Answers κ ν) (key : κ) : Outcome ν :=
  (answers.get? key).getD
    (.error ⟨.internal, what ++ " " ++ keyText key ++ " was not resolved"⟩)

end Answers

end RegionPricing.Factor
