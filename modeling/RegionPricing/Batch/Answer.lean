import RegionPricing.Batch.Query

/-!
# Answers

Each query of a batch has an answer of its own: the identifier of the query with
its outcome. Queries are evaluated as jobs of a worker pool. The pool may refuse
a job, and the jobs that it takes finish in an order of its own; the answers come
in the order of the queries all the same. A job whose arithmetic fails sends no
outcome, and only its own query fails for it.
-/

namespace RegionPricing.Batch

/-- The outcome of a query under its identifier. -/
structure Answer (α : Type) where
  id : Id
  outcome : Outcome α

/-- The answer to a query. -/
def answerTo {α β : Type} [Identified α] (q : α) (outcome : Outcome β) : Answer β :=
  ⟨queryId q, outcome⟩

namespace Answer

/-- An answer in JSON: the value, or the failure in its place. -/
def toJson {α : Type} (encode : α → Json) (a : Answer α) : Json :=
  .object [("query_id", a.id.toJson),
    match a.outcome with
    | .ok v => ("value", encode v)
    | .error f => ("error", f.toJson)]

end Answer

/-- The worker pool as a batch sees it. -/
structure Workers where
  /-- Why the pool does not take the job of the query at a place. -/
  refuses : Nat → Option SubmitError
  /-- The order in which the jobs at some places finish. -/
  order : List Nat → List Nat
  order_perm : ∀ places, (order places).Perm places

namespace Workers

/-- A pool that takes every job; the jobs finish in order. -/
def accepting : Workers := ⟨fun _ => none, id, fun _ => .refl _⟩

/-- A pool for a caller who has withdrawn. -/
def withdrawn : Workers := { accepting with refuses := fun _ => some .cancelled }

end Workers

section

variable {α β : Type} [Identified α]

/-- The failure of a query whose job sends no outcome. -/
def noOutcome (id : Id) : Failure := ⟨.internal, "query " ++ id.text ++ " produced no result"⟩

/-- What the job of the query at a place sends. -/
def sent (evaluate : α → Evaluation β) (qs : List α) (place : Nat) : Option (Nat × Outcome β) :=
  match (qs[place]?).map fun q => (evaluate q).run with
  | some (.ok outcome) => some (place, outcome)
  | _ => none

/-- The answer to the query at a place, from what has been sent. -/
def collected (arrived : List (Nat × Outcome β)) (place : Nat) (q : α) : Answer β :=
  answerTo q ((arrived.lookup place).getD (.error (noOutcome (queryId q))))

/-- Evaluates each query by a job of its own. The batch fails when the pool
refuses a job. -/
def dispatch (w : Workers) (evaluate : α → Evaluation β) (qs : List α) :
    Outcome (List (Answer β)) :=
  let places := List.range qs.length
  match places.findSome? w.refuses with
  | some e => .error e.toFailure
  | none =>
    let arrived := (w.order places).filterMap (sent evaluate qs)
    .ok (qs.mapIdx fun place q => collected arrived place q)

end

end RegionPricing.Batch
