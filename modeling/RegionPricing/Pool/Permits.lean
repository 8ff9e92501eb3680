/-!
# Permits

A fixed number of permits is handed out in the order of the requests. A permit
that is given back goes to whoever has waited longest; it is granted to them
until they collect it, and nobody else can take it meanwhile. So nobody waits
while a permit is free.
-/

namespace RegionPricing.Pool

/-- The permits that nobody holds. -/
structure Permits where
  free : Nat
  /-- Who waits for a permit, the longest first. -/
  waiting : List Nat
  /-- Who has been granted a permit and has not collected it. -/
  granted : List Nat
  served : waiting = [] ∨ free = 0
  deriving DecidableEq

namespace Permits

/-- So many permits, all free. -/
def ofNat (n : Nat) : Permits := ⟨n, [], [], .inl rfl⟩

/-- Takes a free permit, if there is one. -/
def take? (p : Permits) : Option Permits :=
  if 0 < p.free then
    some { p with
      free := p.free - 1
      served := p.served.elim .inl fun h => .inr (by omega) }
  else none

/-- Takes a free permit, or joins those who wait. -/
def request (p : Permits) (who : Nat) : Bool × Permits :=
  if h : 0 < p.free then
    (true, { p with
      free := p.free - 1
      served := p.served.elim .inl fun h => .inr (by omega) })
  else (false, { p with waiting := p.waiting ++ [who], served := .inr (by omega) })

/-- Gives a permit back. -/
def release (p : Permits) : Permits :=
  match h : p.waiting with
  | [] => { p with free := p.free + 1, served := .inl h }
  | who :: rest =>
    { p with
      waiting := rest
      granted := p.granted ++ [who]
      served := p.served.elim (fun e => by simp [e] at h) .inr }

/-- Collects a permit that has been granted. -/
def collect (p : Permits) (who : Nat) : Permits := { p with granted := p.granted.erase who }

/-- Takes a request back: it waits no more, and a permit that has been granted to
it goes to the next. -/
def withdraw (p : Permits) (who : Nat) : Permits :=
  if who ∈ p.granted then (p.collect who).release
  else
    { p with
      waiting := p.waiting.erase who
      served := p.served.imp_left fun h => by simp [h] }

/-- How many permits there are that are free or granted. -/
def unheld (p : Permits) : Nat := p.free + p.granted.length

end Permits

end RegionPricing.Pool
