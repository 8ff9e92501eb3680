import RegionPricing.Engine
import RegionPricing.Proofs.Batch.Dispatch
import RegionPricing.Proofs.Pricing.Factors

/-!
# Queries of a batch do not touch each other

Queries of one batch share lookups, brackets, calls to logistics and the worker pool.
`queries_independent` says that none of this shows: each operation answers every query
of a batch that passes the check, in the order of the batch, as it would answer the query
alone, whatever the other queries come to and in whatever order their jobs finish.

For each operation this is shown by an answer that is a function of the query, made of
the script, the rules and the store (`Answered`).
-/

namespace RegionPricing.Engine

open RegionPricing.Factor RegionPricing.Market RegionPricing.Pricing RegionPricing.Batch
open RegionPricing.Rules

/-! ## Answers that depend on the query alone -/

section

variable {σ α β γ : Type} [Checked α]

/-- An operation that answers each query of a batch as it answers the query alone,
wherever no cache tiers are in front of the store and the pool takes every job. -/
def AnswersEach (limit : ℕ) (op : Workers → List α → Session σ (Answers β)) : Prop :=
  ∀ (w : Workers) (qs : List α) (e : Env (Backing σ)),
    w.Accepts → refusal? limit qs = none → e.tiers = [] →
    ∃ answers, (op w qs e).1 = .ok (.ok answers) ∧ answers.map Answer.id = qs.map queryId ∧
      ∀ (w' : Workers) (e' : Env (Backing σ)),
        w'.Accepts → e'.tiers = [] → e'.behind.store = e.behind.store →
        List.Forall₂ (fun q a => (op w' [q] e').1 = .ok (.ok [a])) qs answers

/-- An operation that evaluates each query from gathered factors, where a failure of
arithmetic becomes an internal failure of the query itself, and of no other. -/
def ContainsFaults (limit : ℕ) (op : Workers → List α → Session σ (Answers β))
    (gather : List α → Session σ (Except Fault γ)) (evaluate : γ → α → Evaluation β) : Prop :=
  ∀ (w : Workers) (qs : List α) (e : Env (Backing σ)),
    w.Accepts → refusal? limit qs = none → e.tiers = [] →
    ∃ factors answers, (gather qs e).1 = .ok factors ∧ (op w qs e).1 = .ok (.ok answers) ∧
      List.Forall₂ (fun q a => OutcomeBy q (evaluate factors q) a.outcome) qs answers

/-- An operation that answers by a function of the query. -/
def Answered (limit : ℕ) (op : Workers → List α → Session σ (Answers β)) (store : Store)
    (answer : α → Outcome β) : Prop :=
  ∀ w qs, w.Accepts → refusal? limit qs = none →
    Yields (op w qs) store (.ok (.ok (qs.map fun q => answerTo q (answer q))))

theorem answersEach_of_answered {limit : ℕ} {op : Workers → List α → Session σ (Answers β)}
    (h : ∀ store, ∃ answer, Answered limit op store answer) : AnswersEach limit op := by
  intro w qs e hw hqs ht
  obtain ⟨answer, hanswer⟩ := h e.behind.store
  refine ⟨_, (hanswer w qs hw hqs e ht rfl).1, ?_, ?_⟩
  · rw [List.map_map]
    rfl
  · intro w' e' hw' ht' hs'
    rw [List.forall₂_map_right_iff]
    refine List.forall₂_same.mpr fun q hq => ?_
    exact (hanswer w' [q] hw' (refusal?_singleton hqs hq) e' ht' hs').1

theorem checked_eq {s : Setup σ} {qs : List α} (h : refusal? s.maxBatch qs = none)
    (answers : Session σ (Answers β)) : checked s qs answers = answers := by
  rw [checked, h]

theorem feeAnswers_map (qs : List α) (fee : α → Outcome Decimal) :
    feeAnswers qs (qs.map fee)
      = qs.map fun q => answerTo q ((fee q).map FixedPoint.rawOfPrice) := by
  rw [feeAnswers, ← List.map_prod_left_eq_zip, List.map_map]
  rfl

/-! ## Operations that evaluate queries by jobs -/

/-- Gathers the factors of a batch and evaluates each query from them by a job. -/
def evaluated (s : Setup σ) (gather : List α → Session σ (Except Fault γ))
    (evaluate : γ → α → Evaluation β) (w : Workers) (qs : List α) : Session σ (Answers β) :=
  checked s qs do
    return (← gather qs).map fun factors => dispatch w (evaluate factors) qs

/-- Factors that are gathered without a failure. -/
def gathered (gather : List α → Session σ γ) (qs : List α) : Session σ (Except Fault γ) := do
  return .ok (← gather qs)

theorem evaluated_yields {s : Setup σ} {gather : List α → Session σ (Except Fault γ)}
    (evaluate : γ → α → Evaluation β) {store : Store} {qs : List α} {factors : γ} {w : Workers}
    (hg : Yields (gather qs) store (.ok factors)) (hw : w.Accepts)
    (hqs : refusal? s.maxBatch qs = none) :
    Yields (evaluated s gather evaluate w qs) store
      (.ok (.ok (qs.map fun q => answerTo q (contained q (evaluate factors q))))) := by
  rw [evaluated, checked_eq hqs, ← dispatch_eq hw]
  exact hg.map (Except.map fun factors => dispatch w (evaluate factors) qs)

/-- When a query is evaluated from the factors of a batch as from its own, it is answered
as it is alone. -/
theorem evaluated_independent (s : Setup σ) (gather : List α → Session σ (Except Fault γ))
    (evaluate : γ → α → Evaluation β)
    (h : ∀ store, ∃ factors : List α → γ, (∀ qs, Yields (gather qs) store (.ok (factors qs))) ∧
      ∀ qs, (qs.map queryId).Nodup → ∀ q ∈ qs,
        evaluate (factors qs) q = evaluate (factors [q]) q) :
    AnswersEach s.maxBatch (evaluated s gather evaluate) ∧
      ContainsFaults s.maxBatch (evaluated s gather evaluate) gather evaluate := by
  constructor
  · refine answersEach_of_answered fun store => ?_
    obtain ⟨factors, hg, halone⟩ := h store
    refine ⟨fun q => contained q (evaluate (factors [q]) q), fun w qs hw hqs => ?_⟩
    -- The answer that depends on the query alone is the one from the factors of the batch.
    have heq : qs.map (fun q => answerTo q (contained q (evaluate (factors [q]) q)))
        = qs.map fun q => answerTo q (contained q (evaluate (factors qs) q)) := by
      refine List.map_congr_left fun q hq => ?_
      rw [halone qs (nodup_of_refusal? hqs) q hq]
    rw [heq]
    exact evaluated_yields evaluate (hg qs) hw hqs
  · intro w qs e hw hqs ht
    obtain ⟨factors, hg, _⟩ := h e.behind.store
    refine ⟨factors qs, _, (hg qs e ht rfl).1,
      (evaluated_yields evaluate (hg qs) hw hqs e ht rfl).1, ?_⟩
    rw [List.forall₂_map_right_iff]
    exact List.forall₂_same.mpr fun q _ => outcomeBy_contained q (evaluate (factors qs) q)

end

/-! ## The operations -/

section

variable (world : Script) (book : Book) (quoteBatch maxBatch : ℕ)

theorem hiddenPrices_answered (store : Store) :
    ∃ answer, Answered maxBatch
      (fun _ => hiddenPrices (scripted world quoteBatch maxBatch) book) store answer := by
  obtain ⟨price, hprice⟩ := exists_hiddenPrice world book store
  refine ⟨fun q => (price q).map FixedPoint.rawOfPrice, fun _ qs _ hqs => ?_⟩
  show Yields (hiddenPrices _ book qs) store _
  rw [hiddenPrices, checked_eq hqs, ← feeAnswers_map]
  exact (hprice quoteBatch maxBatch qs).bind (.pure _)

theorem shippingFees_answered (store : Store) :
    ∃ answer, Answered maxBatch
      (fun _ => shippingFees (scripted world quoteBatch maxBatch) book) store answer := by
  obtain ⟨fee, hfee⟩ := exists_shippingFee world book store
  refine ⟨fun q => (fee q).map FixedPoint.rawOfPrice, fun _ qs _ hqs => ?_⟩
  show Yields (shippingFees _ book qs) store _
  rw [shippingFees, checked_eq hqs, ← feeAnswers_map]
  exact (hfee quoteBatch maxBatch qs).bind (.pure _)

/-- The fee of an article, in a shop of its merchant. -/
def articleOutcome (q : ArticleQuery) : Outcome Decimal := do
  let _ ← ownedShop (.ofKeys [q.shopId] (found "shop" world.shops)) q.merchantId q.shopId
  articleFee world (articleKey q)

theorem articleFees_yields {store : Store} (qs : List ArticleQuery) :
    Yields ((scripted world quoteBatch maxBatch).articleFees qs) store
      (qs.map (articleOutcome world)) := by
  refine (shops_yields _).bind ((hiddenFees_yields _).bind ?_)
  have heq : qs.map (articleOutcome world) = qs.map fun q =>
      ownedShop (.ofKeys (qs.map ArticleQuery.shopId).eraseDups (found "shop" world.shops))
        q.merchantId q.shopId >>= fun _ =>
      Answers.lookup "hidden fee"
        (.ofKeys (qs.map articleKey).eraseDups.eraseDups (articleFee world)) (articleKey q) := by
    refine List.map_congr_left fun q hq => ?_
    rw [articleOutcome, ownedShop, ownedShop, Answers.lookup_ofKeys List.mem_cons_self,
      Answers.lookup_ofKeys (mem_eraseDups_map _ hq),
      Answers.lookup_ofKeys (List.mem_eraseDups.mpr (mem_eraseDups_map _ hq))]
  rw [heq]
  exact .pure _

theorem articleFees_answered (store : Store) :
    ∃ answer, Answered maxBatch
      (fun _ => articleFees (scripted world quoteBatch maxBatch)) store answer := by
  refine ⟨fun q => (articleOutcome world q).map FixedPoint.rawOfPrice, fun _ qs _ hqs => ?_⟩
  show Yields (articleFees _ qs) store _
  rw [articleFees, checked_eq hqs, ← feeAnswers_map]
  exact (articleFees_yields world quoteBatch maxBatch qs).bind (.pure _)

theorem listingPrices_independent :
    AnswersEach maxBatch (fun w => listingPrices (scripted world quoteBatch maxBatch) w book) ∧
      ContainsFaults maxBatch (fun w => listingPrices (scripted world quoteBatch maxBatch) w book)
        ((scripted world quoteBatch maxBatch).listingFees book) (listingPrice book) := by
  refine evaluated_independent (scripted world quoteBatch maxBatch) _ _ fun store => ?_
  obtain ⟨price, hprice⟩ := exists_hiddenPrice world book store
  obtain ⟨fee, hfee⟩ := exists_shippingFee world book store
  exact ⟨listingFeesOf price fee book,
    listingFees_yields (hprice quoteBatch maxBatch) (hfee quoteBatch maxBatch),
    fun _ h _ hq => listingPrice_alone h hq⟩

theorem crossBorderPrices_independent :
    AnswersEach maxBatch (fun w => crossBorderPrices (scripted world quoteBatch maxBatch) w book) ∧
      ContainsFaults maxBatch
        (fun w => crossBorderPrices (scripted world quoteBatch maxBatch) w book)
        (gathered ((scripted world quoteBatch maxBatch).crossBorderFactors book))
        (crossBorderPrice book) :=
  evaluated_independent (scripted world quoteBatch maxBatch)
    (gathered ((scripted world quoteBatch maxBatch).crossBorderFactors book))
    (crossBorderPrice book) fun store =>
    ⟨crossBorderFactorsOf world store book,
      fun qs => (crossBorderFactors_yields qs).bind (.pure _),
      fun _ h _ hq => crossBorderPrice_alone h hq⟩

theorem conversionPrices_independent :
    AnswersEach maxBatch (fun w => conversionPrices (scripted world quoteBatch maxBatch) w book) ∧
      ContainsFaults maxBatch
        (fun w => conversionPrices (scripted world quoteBatch maxBatch) w book)
        (gathered (scripted world quoteBatch maxBatch).conversionFactors)
        (conversionPrice book) :=
  evaluated_independent (scripted world quoteBatch maxBatch)
    (gathered (scripted world quoteBatch maxBatch).conversionFactors) (conversionPrice book)
    fun store =>
    ⟨conversionFactorsOf world store, fun qs => (conversionFactors_yields qs).bind (.pure _),
      fun _ _ _ hq => conversionPrice_alone hq⟩

theorem discounts_independent :
    AnswersEach maxBatch (fun w => discounts (scripted world quoteBatch maxBatch) w) ∧
      ContainsFaults maxBatch (fun w => discounts (scripted world quoteBatch maxBatch) w)
        (gathered fun _ => pure ()) (fun _ => discount) :=
  evaluated_independent (scripted world quoteBatch maxBatch) (gathered fun _ => pure ())
    (fun _ => discount) fun _ =>
    ⟨fun _ => (), fun _ => .pure _, fun _ _ _ _ => rfl⟩

/-- Each operation answers every query of a batch as it answers the query alone, and
arithmetic that fails spoils no other query. -/
theorem queries_independent :
    (AnswersEach maxBatch (fun _ => hiddenPrices (scripted world quoteBatch maxBatch) book) ∧
      AnswersEach maxBatch (fun _ => shippingFees (scripted world quoteBatch maxBatch) book) ∧
      AnswersEach maxBatch (fun w => listingPrices (scripted world quoteBatch maxBatch) w book) ∧
      AnswersEach maxBatch
        (fun w => crossBorderPrices (scripted world quoteBatch maxBatch) w book) ∧
      AnswersEach maxBatch (fun _ => articleFees (scripted world quoteBatch maxBatch)) ∧
      AnswersEach maxBatch
        (fun w => conversionPrices (scripted world quoteBatch maxBatch) w book) ∧
      AnswersEach maxBatch (fun w => discounts (scripted world quoteBatch maxBatch) w)) ∧
    ContainsFaults maxBatch (fun w => listingPrices (scripted world quoteBatch maxBatch) w book)
      ((scripted world quoteBatch maxBatch).listingFees book) (listingPrice book) ∧
    ContainsFaults maxBatch (fun w => crossBorderPrices (scripted world quoteBatch maxBatch) w book)
      (gathered ((scripted world quoteBatch maxBatch).crossBorderFactors book))
      (crossBorderPrice book) ∧
    ContainsFaults maxBatch (fun w => conversionPrices (scripted world quoteBatch maxBatch) w book)
      (gathered (scripted world quoteBatch maxBatch).conversionFactors) (conversionPrice book) ∧
    ContainsFaults maxBatch (fun w => discounts (scripted world quoteBatch maxBatch) w)
      (gathered fun _ => pure ()) (fun _ => discount) := by
  obtain ⟨hlisting, hlistingFaults⟩ := listingPrices_independent world book quoteBatch maxBatch
  obtain ⟨hcross, hcrossFaults⟩ := crossBorderPrices_independent world book quoteBatch maxBatch
  obtain ⟨hconv, hconvFaults⟩ := conversionPrices_independent world book quoteBatch maxBatch
  obtain ⟨hdiscount, hdiscountFaults⟩ := discounts_independent world quoteBatch maxBatch
  have hhidden := answersEach_of_answered (hiddenPrices_answered world book quoteBatch maxBatch)
  have hshipping := answersEach_of_answered (shippingFees_answered world book quoteBatch maxBatch)
  have harticle := answersEach_of_answered (articleFees_answered world quoteBatch maxBatch)
  exact ⟨⟨hhidden, hshipping, hlisting, hcross, harticle, hconv, hdiscount⟩,
    hlistingFaults, hcrossFaults, hconvFaults, hdiscountFaults⟩

end

/-! A batch of two, of which the first has ratios whose product no decimal holds. -/

/-- From Singapore to Malaysia. -/
def sampleCorridor : Corridor := ⟨.ofText "SG", .ofText "MY"⟩

/-- Three to one. -/
def sampleTerms : Terms :=
  ⟨sampleCorridor, none, some (.ofInt64 3), none, .brackets, .brackets, none⟩

/-- A fee of one for every parcel. -/
def sampleBracket : Fee.Bracket :=
  ⟨FixedPoint.unboundedWeight, .one, .zero, 0, .zero, .zero, .zero, "default:MY", .fallback⟩

def sampleBook : Book where
  terms := .ofList [(sampleCorridor, sampleTerms)]
  currencies := .empty
  tariff := ⟨.empty, .empty,
    some (.ofList [(.ofText "MY", ⟨"default:MY", [sampleBracket], List.pairwise_singleton _ _⟩)])⟩

def sampleWorld : Script :=
  { (default : Script) with
    shops := .ofList [(1, .plain 1 (.ofText "SG"))]
    items := .ofList [(10, ⟨10, 1, 100000, none⟩)] }

/-- A price of 2. -/
def sampleQuery : CrossBorderQuery :=
  ⟨2, 1, 10, sampleCorridor, 200000, 100000, .one, .one, .zero, .zero, .zero, .one⟩

def hugeQuery : CrossBorderQuery :=
  { sampleQuery with
    id := 1
    priceRatio := .ofInt64 1000000000000000000
    ratio := .ofInt64 1000000000000000000 }

def sampleEnv : Env (Backing Calls) := ⟨0, [], ⟨.none, .empty⟩⟩

/-- The first query overflows, and the second is answered as it is alone. -/
theorem queries_independent_overflow :
    ∃ a b, (crossBorderPrices (scripted sampleWorld 1 2) .accepting sampleBook
        [hugeQuery, sampleQuery] sampleEnv).1 = .ok (.ok [a, b]) ∧
      a.outcome = .error ⟨.internal, "query 1 produced no result"⟩ ∧ b.outcome = .ok 700000 ∧
      (crossBorderPrices (scripted sampleWorld 1 2) .accepting sampleBook
        [sampleQuery] sampleEnv).1 = .ok (.ok [b]) := by
  have hvalid : refusal? 2 [hugeQuery, sampleQuery] = none := by decide +kernel
  obtain ⟨⟨_, _, _, halone, _⟩, _, hfaults, _⟩ := queries_independent sampleWorld sampleBook 1 2
  obtain ⟨answers, hop, _, hsame⟩ :=
    halone .accepting [hugeQuery, sampleQuery] sampleEnv (fun _ => rfl) hvalid rfl
  obtain ⟨factors, answers', hgather, hop', hout⟩ :=
    hfaults .accepting [hugeQuery, sampleQuery] sampleEnv (fun _ => rfl) hvalid rfl
  rw [hop] at hop'
  obtain rfl : answers = answers' := Except.ok.inj (Except.ok.inj hop')
  have hfactors : ((scripted sampleWorld 1 2).crossBorderFactors sampleBook
      [hugeQuery, sampleQuery] sampleEnv).1
      = crossBorderFactorsOf sampleWorld .empty sampleBook [hugeQuery, sampleQuery] :=
    (crossBorderFactors_yields _ sampleEnv rfl rfl).1
  obtain rfl : _ = factors := hfactors.symm.trans (Except.ok.inj hgather)
  rcases hout with _ | ⟨ha, _ | ⟨hb, ⟨⟩⟩⟩
  rcases hsame .accepting sampleEnv (fun _ => rfl) rfl rfl with _ | ⟨_, _ | ⟨hsingle, _⟩⟩
  refine ⟨_, _, hop, ?_, ?_, hsingle⟩
  · have hfault : (crossBorderPrice sampleBook (crossBorderFactorsOf sampleWorld .empty
        sampleBook [hugeQuery, sampleQuery]) hugeQuery).run = .error .multiplication := by
      decide +kernel
    obtain ⟨⟨kind, detail⟩, hoverflow, rfl, rfl⟩ := ha.fault _ hfault
    rw [hoverflow]
    rfl
  · have hvalue : (crossBorderPrice sampleBook (crossBorderFactorsOf sampleWorld .empty
        sampleBook [hugeQuery, sampleQuery]) sampleQuery).run = .ok (.ok 700000) := by
      decide +kernel
    exact hb.value _ hvalue

end RegionPricing.Engine
