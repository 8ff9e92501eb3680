import RegionPricing.Proofs.Batch.Refusal
import RegionPricing.Proofs.Engine

/-!
# Validation comes first

Every operation on batches refuses exactly the batches that break a rule, and then does nothing
else: whatever services, caches and store there are, they are left as they are
(`batches_validated`).
-/

namespace RegionPricing.Engine

open RegionPricing.Factor RegionPricing.Market RegionPricing.Pricing RegionPricing.Batch
open RegionPricing.Rules

section

variable {σ α β γ : Type} [Checked α] [HasFields α]

/-- An operation that refuses a batch for its parameters exactly when it is empty, too large,
repeats an identifier or has a query that breaks a rule. The refusal is for the first such
query and says so, and the operation does nothing but refuse. -/
structure ValidatesFirst (limit : ℕ) (op : List α → Session σ (Answers β)) : Prop where
  refuses_iff : ∀ (qs : List α) (e : Env (Backing σ)),
    (∃ f, (op qs e).1 = .ok (.error f) ∧ f.kind = .parameter) ↔
      qs = [] ∨ limit < qs.length ∨ ¬(qs.map queryId).Nodup ∨
        ∃ q ∈ qs, ∃ v, Breaks (fieldsOf q) v
  refuses_only : ∀ (qs : List α) (e : Env (Backing σ)) (f : Failure),
    (op qs e).1 = .ok (.error f) → f.kind = .parameter →
      op qs = pure (.ok (.error f)) ∧
        ∃ r, Refused limit qs r ∧ f = r.toFailure ∧ Worded r f.detail

theorem validatesFirst_checked (s : Setup σ) {answers : List α → Session σ (Answers β)}
    (h : ∀ qs e f, (answers qs e).1 = .ok (.error f) → f.kind ≠ .parameter) :
    ValidatesFirst s.maxBatch fun qs => checked s qs (answers qs) := by
  constructor
  · intro qs e
    rw [← refusal?_ne_none_iff]
    cases hrefusal : refusal? s.maxBatch qs with
    | some r =>
      refine iff_of_true ⟨r.toFailure, ?_, rfl⟩ (Option.some_ne_none r)
      rw [checked, hrefusal]
      rfl
    | none =>
      refine iff_of_false ?_ (not_not_intro rfl)
      rintro ⟨f, hanswers, hkind⟩
      rw [checked, hrefusal] at hanswers
      exact h qs e f hanswers hkind
  · intro qs e f hf hkind
    show checked s qs (answers qs) = _ ∧ _
    replace hf : (checked s qs (answers qs) e).1 = .ok (.error f) := hf
    cases hrefusal : refusal? s.maxBatch qs with
    | some r =>
      rw [checked, hrefusal] at hf ⊢
      obtain rfl : r.toFailure = f := Except.error.inj (Except.ok.inj hf)
      exact ⟨rfl, r, refused_of_refusal? hrefusal, rfl, worded_detail r⟩
    | none =>
      rw [checked, hrefusal] at hf
      exact absurd hkind (h qs e f hf)

/-! ## What follows a check -/

/-- A batch is checked, factors are gathered, and the answers are made of them. -/
theorem validatesFirst_gathered (s : Setup σ) (gather : List α → Session σ (Except Fault γ))
    (finish : List α → γ → Outcome (List (Answer β)))
    (h : ∀ qs x f, finish qs x = .error f → f.kind ≠ .parameter) :
    ValidatesFirst s.maxBatch fun qs => checked s qs do
      return (← gather qs).map (finish qs) := by
  refine validatesFirst_checked s fun qs e f hanswers => ?_
  replace hanswers : (gather qs e).1.map (finish qs) = .ok (.error f) := hanswers
  cases hgather : (gather qs e).1 with
  | error fault =>
    rw [hgather] at hanswers
    cases hanswers
  | ok x =>
    rw [hgather] at hanswers
    exact h qs x f (Except.ok.inj hanswers)

theorem validatesFirst_answered (s : Setup σ) (gather : List α → Session σ (Except Fault γ))
    (answers : List α → γ → List (Answer β)) :
    ValidatesFirst s.maxBatch fun qs => checked s qs do
      return (← gather qs).map fun x => .ok (answers qs x) :=
  validatesFirst_gathered s gather (fun qs x => .ok (answers qs x)) fun _ _ _ h => nomatch h

theorem validatesFirst_evaluated (s : Setup σ) (gather : List α → Session σ (Except Fault γ))
    (evaluate : γ → α → Evaluation β) (w : Workers) :
    ValidatesFirst s.maxBatch (evaluated s gather evaluate w) :=
  validatesFirst_gathered s gather (fun qs x => dispatch w (evaluate x) qs)
    fun _ _ _ h => kind_of_dispatch h

end

/-! ## The operations -/

/-- Every operation on batches refuses exactly the batches that break a rule, for the first
query that does, and before it looks up, asks or stores anything. -/
theorem batches_validated {σ : Type} (s : Setup σ) (w : Workers) (book : Book) :
    ValidatesFirst s.maxBatch (hiddenPrices s book) ∧
    ValidatesFirst s.maxBatch (shippingFees s book) ∧
    ValidatesFirst s.maxBatch (listingPrices s w book) ∧
    ValidatesFirst s.maxBatch (crossBorderPrices s w book) ∧
    ValidatesFirst s.maxBatch (articleFees s) ∧
    ValidatesFirst s.maxBatch (conversionPrices s w book) ∧
    ValidatesFirst s.maxBatch (discounts s w) ∧
    ValidatesFirst s.maxBatch (setProfitRates s) := by
  refine ⟨?_, ?_, ?_, ?_, ?_, ?_, ?_, ?_⟩
  · exact validatesFirst_answered s (s.hiddenPrices book) feeAnswers
  · exact validatesFirst_answered s (gathered (s.shippingFees book)) feeAnswers
  · exact validatesFirst_evaluated s (s.listingFees book) (listingPrice book) w
  · exact validatesFirst_evaluated s (gathered (s.crossBorderFactors book))
      (crossBorderPrice book) w
  · exact validatesFirst_answered s (gathered s.articleFees) feeAnswers
  · exact validatesFirst_evaluated s (gathered s.conversionFactors) (conversionPrice book) w
  · exact validatesFirst_evaluated s (gathered fun _ => pure ()) (fun _ => discount) w
  · exact validatesFirst_answered s (gathered Pricing.setProfitRates)
      fun es (outcomes : List (Outcome Unit)) => (es.zip outcomes).map fun e => answerTo e.1 e.2

end RegionPricing.Engine
