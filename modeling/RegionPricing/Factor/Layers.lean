import RegionPricing.Json.Reader
import RegionPricing.Json.Writer
import RegionPricing.Cache.Tier
import RegionPricing.Factor.Answers

/-!
# Looking factors up through cache tiers

A `Source` answers keys. `Source.cached` puts a tier in front of a source: keys
that the tier has are answered there, and only the rest go further. What is
found further away is queued in the tier. Failures are never cached, and an
entry that cannot be read counts as missing. `Source.through` puts all tiers in
front, the nearest first; without tiers the source gets the keys as they are.
-/

namespace RegionPricing.Factor

open RegionPricing.Cache

/-- A part of the caches: its name and how its values are written and read. -/
structure Space (ν : Type) where
  name : String
  encode : ν → String
  decode : String → Option ν

/-- A part of the caches that holds values in JSON. -/
def Space.json {ν : Type} (name : String) (toJson : ν → Json) (ofJson? : Json.Decoder ν) :
    Space ν where
  name := name
  encode v := (toJson v).render
  decode s := (Json.parse? s).bind ofJson?

/-- The text under which a tier holds the factor of a key. -/
def Space.tierKey {ν κ : Type} [KeyText κ] (s : Space ν) (key : κ) : String :=
  s.name ++ ":" ++ keyText key

/-- The time, the cache tiers, the nearest first, and what is behind them. -/
structure Env (ω : Type) where
  now : Nat
  tiers : List Tier
  behind : ω

namespace Env

variable {ω : Type}

/-- What the tier at a level has under some texts; nothing beyond the last one. -/
def readTier (level : Nat) (texts : List String) : StateM (Env ω) (KeyMap String String) :=
  fun e =>
    match e.tiers[level]? with
    | some t =>
      let (found, t) := t.read e.now texts
      (found, { e with tiers := e.tiers.set level t })
    | none => (.empty, e)

/-- Queues entries in the tier at a level. -/
def enqueue (level : Nat) (items : List (String × String)) : StateM (Env ω) Unit := fun e =>
  ((), { e with tiers := e.tiers.modify level fun t => t.enqueue items })

/-- Deletes texts from the tier at a level. -/
def deleteFrom (level : Nat) (texts : List String) : StateM (Env ω) Unit := fun e =>
  ((), { e with tiers := e.tiers.modify level fun t => t.delete e.now texts })

/-- Does something behind the tiers. -/
def direct {α : Type} (act : StateM ω α) : StateM (Env ω) α := fun e =>
  let (a, behind) := act e.behind
  (a, { e with behind })

/-- Writes everything that is queued in the tiers. -/
def settle (e : Env ω) : Env ω := { e with tiers := e.tiers.map fun t => t.settle e.now }

/-- Lets time pass. -/
def advance (e : Env ω) (millis : Nat) : Env ω := { e with now := e.now + millis }

end Env

/-- What answers keys: something behind the tiers, or a tier with what is
further away. -/
structure Source (ω κ ν : Type) [DecidableEq κ] where
  fetch : List κ → StateM (Env ω) (Answers κ ν)
  /-- Hears that cached factors of some keys are out of date. -/
  forget : List κ → StateM (Env ω) Unit

namespace Source

variable {ω κ ν : Type} [DecidableEq κ]

/-- A source behind the tiers that keeps nothing. -/
def behind (fetch : List κ → StateM ω (Answers κ ν)) : Source ω κ ν :=
  ⟨fun keys => Env.direct (fetch keys), fun _ => pure ()⟩

section

variable [KeyText κ]

/-- The readable value that a tier gave for a key. -/
def hit? (s : Space ν) (found : KeyMap String String) (key : κ) : Option ν :=
  (found.get? (s.tierKey key)).bind s.decode

/-- The outcome of a key: the value of this tier, or else what was fetched. -/
def merged (s : Space ν) (found : KeyMap String String) (fetched : Answers κ ν) (key : κ) :
    Outcome ν :=
  match hit? s found key with
  | some v => .ok v
  | none => (fetched.get? key).getD (.error (Answers.notFound s.name key))

/-- What a tier is to hold: the values among some outcomes. -/
def toWrite (s : Space ν) (keys : List κ) (outcome : κ → Outcome ν) : List (String × String) :=
  keys.filterMap fun k =>
    match outcome k with
    | .ok v => some (s.tierKey k, s.encode v)
    | .error _ => none

/-- The tier at a level in front of another source. -/
def cached (s : Space ν) (level : Nat) (inner : Source ω κ ν) : Source ω κ ν where
  fetch keys := do
    let keys := keys.eraseDups
    let found ← Env.readTier level (keys.map s.tierKey)
    let missed := keys.filter fun k => (hit? s found k).isNone
    if missed.isEmpty then return .ofKeys keys (merged s found .empty)
    let fetched ← inner.fetch missed
    let outcome := merged s found fetched
    Env.enqueue level (toWrite s missed outcome)
    return .ofKeys keys outcome
  forget keys := do
    Env.deleteFrom level (keys.map s.tierKey)
    inner.forget keys

/-- So many tiers, from a level on, in front of another source. -/
def layered (s : Space ν) (inner : Source ω κ ν) (level : Nat) : Nat → Source ω κ ν
  | 0 => inner
  | n + 1 => cached s level (layered s inner (level + 1) n)

/-- All tiers in front of a source. -/
def through (s : Space ν) (inner : Source ω κ ν) : Source ω κ ν where
  fetch keys := do (layered s inner 0 (← get).tiers.length).fetch keys
  forget keys := do (layered s inner 0 (← get).tiers.length).forget keys

end

end Source

end RegionPricing.Factor
