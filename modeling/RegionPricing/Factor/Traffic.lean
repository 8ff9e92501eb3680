import RegionPricing.Factor.Layers

/-!
# Lookups and updates that overlap

Several lookups and updates can be under way at once. `Traffic.step` takes one
of them one operation further, so that every way in which they overlap is a list
of events. A lookup reads the tiers from the nearest on and then, key by key,
what is behind them; on the way back it queues in each tier what that tier
missed. An update writes behind the tiers and then deletes the keys that it has
written from one tier after the other. What is queued in a tier is written at
any later time, in any order.
-/

namespace RegionPricing.Factor

open RegionPricing.Cache

/-- How single keys are read and written behind the tiers. -/
structure Behind (ω κ ν : Type) where
  read : ω → κ → Outcome ν
  write : κ → ν → ω → Outcome ω

/-- A tier on the way of a lookup: what it was asked for and what it had. -/
structure Passed (κ : Type) where
  keys : List κ
  found : KeyMap String String

/-- Where a lookup stands, with the tiers that it has to return through, the
farthest first. -/
inductive Lookup (κ ν : Type) [DecidableEq κ] where
  /-- Goes on to the next tier with some keys. -/
  | descending (passed : List (Passed κ)) (keys : List κ)
  /-- Reads some more keys behind the tiers. -/
  | reading (passed : List (Passed κ)) (keys : List κ) (answers : Answers κ ν)
  /-- Returns with what is known of the keys that the last tier missed; without
  tiers left it has ended. -/
  | returning (passed : List (Passed κ)) (answers : Answers κ ν)

/-- Where an update stands. -/
inductive Update (κ ν : Type) where
  /-- Writes some more entries, after others whose keys were written. -/
  | writing (entries : List (κ × ν)) (written : List κ)
  /-- Deletes some more keys from the tiers at their levels; when none is left it
  has ended. -/
  | deleting (rest : List (Nat × κ))
  deriving DecidableEq

/-- All lookups and updates of a source, by their numbers. -/
structure Traffic (ω κ ν : Type) [DecidableEq κ] where
  env : Env ω
  lookups : List (Lookup κ ν)
  updates : List (Update κ ν)

namespace Traffic

variable {ω κ ν : Type} [DecidableEq κ] [KeyText κ]

/-! ## One lookup -/

/-- The keys that a tier did not have. -/
def missed (s : Space ν) (p : Passed κ) : List κ :=
  p.keys.filter fun k => (Source.hit? s p.found k).isNone

/-- A lookup after it has read a tier. -/
def afterTier (s : Space ν) (passed : List (Passed κ)) (p : Passed κ) : Lookup κ ν :=
  if (missed s p).isEmpty then .returning (p :: passed) .empty
  else .descending (p :: passed) (missed s p)

/-- One operation of a lookup that has not ended. -/
def lookupStep (s : Space ν) (b : Behind ω κ ν) : Lookup κ ν → Env ω → Option (Lookup κ ν × Env ω)
  | .descending passed keys, e =>
    if passed.length < e.tiers.length then
      let keys := keys.eraseDups
      let (found, e) := Env.readTier passed.length (keys.map s.tierKey) e
      some (afterTier s passed ⟨keys, found⟩, e)
    else some (.reading passed keys .empty, e)
  | .reading passed [] answers, e => some (.returning passed answers, e)
  | .reading passed (k :: keys) answers, e =>
    some (.reading passed keys (answers.put k (b.read e.behind k)), e)
  | .returning (p :: passed) answers, e =>
    let outcome := Source.merged s p.found answers
    let ((), e) := Env.enqueue passed.length (Source.toWrite s (missed s p) outcome) e
    some (.returning passed (.ofKeys p.keys outcome), e)
  | .returning [] _, _ => none

/-! ## One update -/

/-- The deletions after some keys have been written: all of them at each of so
many levels, the nearest first. -/
def deletions (levels : Nat) (keys : List κ) : List (Nat × κ) :=
  (List.range levels).flatMap fun level => keys.map fun k => (level, k)

/-- One operation of an update that has not ended. -/
def updateStep (s : Space ν) (b : Behind ω κ ν) : Update κ ν → Env ω → Option (Update κ ν × Env ω)
  | .writing [] written, e => some (.deleting (deletions e.tiers.length written), e)
  | .writing ((k, v) :: entries) written, e =>
    match b.write k v e.behind with
    | .ok behind => some (.writing entries (written ++ [k]), { e with behind })
    | .error _ => some (.writing entries written, e)
  | .deleting ((level, k) :: rest), e =>
    let ((), e) := Env.deleteFrom level [s.tierKey k] e
    some (.deleting rest, e)
  | .deleting [], _ => none

/-! ## Events -/

/-- What happens next. -/
inductive Event (κ ν : Type) where
  /-- A lookup of some keys begins. -/
  | ask (keys : List κ)
  /-- A lookup goes one operation further. -/
  | look (n : Nat)
  /-- An update by some entries begins. -/
  | change (entries : List (κ × ν))
  /-- An update goes one operation further. -/
  | proceed (n : Nat)
  /-- What was queued in the tier at a level is written, one batch of it. -/
  | land (level n : Nat)
  | wait (millis : Nat)

/-- The environment after a queued batch has been written. -/
def landed (e : Env ω) (level n : Nat) : Option (Env ω) := do
  let t ← (← e.tiers[level]?).land e.now n
  return { e with tiers := e.tiers.set level t }

/-- The traffic after an event, if the event can happen. -/
def step (s : Space ν) (b : Behind ω κ ν) (t : Traffic ω κ ν) :
    Event κ ν → Option (Traffic ω κ ν)
  | .ask keys => some { t with lookups := t.lookups ++ [.descending [] keys] }
  | .look n => do
    let (l, env) ← lookupStep s b (← t.lookups[n]?) t.env
    return { t with env, lookups := t.lookups.set n l }
  | .change entries => some { t with updates := t.updates ++ [.writing entries []] }
  | .proceed n => do
    let (u, env) ← updateStep s b (← t.updates[n]?) t.env
    return { t with env, updates := t.updates.set n u }
  | .land level n => (landed t.env level n).map fun env => { t with env }
  | .wait millis => some { t with env := t.env.advance millis }

/-- The traffic after some events, if they can happen in this order. -/
def run (s : Space ν) (b : Behind ω κ ν) (t : Traffic ω κ ν) (es : List (Event κ ν)) :
    Option (Traffic ω κ ν) := es.foldlM (step s b) t

/-- Whether nothing is queued in any tier. -/
def settled (t : Traffic ω κ ν) : Bool := t.env.tiers.all fun tier => tier.queued.isEmpty

end Traffic

end RegionPricing.Factor
