import RegionPricing.FixedPoint
import RegionPricing.Market.Services

/-!
# Quotes in chunks

Logistics answers a batch of requests by quotes in the same order, and takes
batches of limited size. `quoteInChunks` sends marked requests in batches and
gives each mark the outcome of its request. A call that fails, or that answers
with another number of quotes, spoils its own batch only; a failed quote spoils
only its own request. `inOrder` brings marked outcomes back into the order of
their marks.
-/

namespace RegionPricing.Pricing

open RegionPricing.Market

/-- A list cut into parts of the given size; the last may be shorter. A size of
zero counts as one. -/
def chunks {α : Type} (size : Nat) : List α → List (List α)
  | [] => []
  | a :: r => (a :: r.take (size - 1)) :: chunks size (r.drop (size - 1))
termination_by l => l.length
decreasing_by simp only [List.length_drop, List.length_cons]; omega

/-- The failure of a call that answers with the wrong number of quotes. -/
def miscount (quotes requests : Nat) : Failure :=
  ⟨.internal, "logistics returned " ++ Text.numeral quotes ++ " quotes for " ++
    Text.numeral requests ++ " requests"⟩

/-- The outcome of a quote; an error becomes a failure of the given kind. -/
def quoted (kind : Failure.Kind) (q : Quote) : Outcome Decimal :=
  match q.outcome with
  | .ok fee => .ok (FixedPoint.priceOfRaw fee)
  | .error e => .error ⟨kind, e⟩

/-- The outcomes of a batch of `n` requests. -/
def outcomes (kind : Failure.Kind) (n : Nat) : Except ServiceError (List Quote) →
    List (Outcome Decimal)
  | .ok quotes =>
    if quotes.length = n then quotes.map (quoted kind)
    else List.replicate n (.error (miscount quotes.length n))
  | .error e => List.replicate n (.error ⟨kind, e.message⟩)

/-- Sends one batch of marked requests. -/
def quoteChunk {σ ρ μ : Type} (kind : Failure.Kind) (call : List ρ → Call σ (List Quote))
    (chunk : List (μ × ρ)) : StateM σ (List (μ × Outcome Decimal)) := do
  let answer ← call (chunk.map Prod.snd)
  return (chunk.map Prod.fst).zip (outcomes kind chunk.length answer)

/-- Sends marked requests in batches of the given size. -/
def quoteInChunks {σ ρ μ : Type} (size : Nat) (kind : Failure.Kind)
    (call : List ρ → Call σ (List Quote)) (pending : List (μ × ρ)) :
    StateM σ (List (μ × Outcome Decimal)) := do
  return (← (chunks size pending).mapM (quoteChunk kind call)).flatten

/-- What is marked with numbers, in the order of the numbers. -/
def inOrder {α : Type} (marked : List (Nat × α)) : List α :=
  (marked.mergeSort fun a b => a.1 ≤ b.1).map Prod.snd

end RegionPricing.Pricing
