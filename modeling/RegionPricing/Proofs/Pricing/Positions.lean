import Mathlib.Algebra.Order.Floor.Div
import RegionPricing.Market.Gateway
import RegionPricing.Proofs.Pricing.Quoting

/-!
# Which answer decides which request

Requests are cut into parts of one size (`part`), and each part is sent as a batch of its own.
Whatever the answers to the batches are, one after another, a request at place `i` is decided by
one of them alone: the answer to batch `i / size`, and there by position `i % size`. What that
answer says about a position is `OutcomeAt`. So marks are neither lost nor repeated, and nothing
is told of a request by the answer to another batch.

Behind a gateway an answer is a list of entries, of which some may be unreadable. Such an entry
keeps its position, so that it fails the request there and shifts no other
(`outcomeAt_unreadable`).
-/

namespace RegionPricing.Pricing

open RegionPricing.Market

/-! ## Parts of a list -/

section

variable {α : Type} {size : ℕ} {l : List α}

/-- Part `j` of a list that is cut into parts of one size; a size of zero counts as one. -/
def part (size : ℕ) (l : List α) (j : ℕ) : List α :=
  (l.drop (j * max size 1)).take (max size 1)

/-- The number of parts, the last of which may be shorter. -/
def partCount (size : ℕ) (l : List α) : ℕ := (l.length + max size 1 - 1) / max size 1

theorem part_zero : part size l 0 = l.take (max size 1) := by
  rw [part, Nat.zero_mul, List.drop_zero]

theorem part_succ (j : ℕ) : part size l (j + 1) = part size (l.drop (max size 1)) j := by
  unfold part
  rw [List.drop_drop, Nat.succ_mul, Nat.add_comm]

theorem partCount_of_ne_nil (h : l ≠ []) :
    partCount size l = partCount size (l.drop (max size 1)) + 1 := by
  have hpos : 0 < l.length := List.length_pos_iff.mpr h
  unfold partCount
  rw [List.length_drop]
  generalize hb : max size 1 = b
  have hb1 : 1 ≤ b := by omega
  by_cases hlong : b ≤ l.length
  · have hsum : l.length + b - 1 = l.length - b + b - 1 + b := by omega
    rw [hsum, Nat.add_div_right _ hb1]
  · -- the only part is the whole list
    rw [Nat.div_eq_of_lt_le (k := 1) (by omega) (by omega),
      Nat.div_eq_of_lt (by omega)]

theorem chunks_of_ne_nil (size : ℕ) (h : l ≠ []) :
    chunks size l = part size l 0 :: chunks size (l.drop (max size 1)) := by
  have hsize : max size 1 = size - 1 + 1 := by omega
  cases l with
  | nil => exact absurd rfl h
  | cons a r =>
    rw [chunks, part_zero, hsize, List.take_succ_cons, List.drop_succ_cons]

/-- All parts of a list, in order. -/
def parts (size : ℕ) (l : List α) : List (List α) :=
  (List.range (partCount size l)).map (part size l)

theorem chunks_eq_parts : chunks size l = parts size l := by
  induction hn : l.length using Nat.strong_induction_on generalizing l with
  | _ n ih =>
    by_cases hl : l = []
    · subst hl
      have hnone : partCount size ([] : List α) = 0 := by
        unfold partCount
        rw [List.length_nil]
        exact Nat.div_eq_of_lt (by omega)
      rw [parts, hnone, chunks]
      rfl
    · have hpos : 0 < l.length := List.length_pos_iff.mpr hl
      have hshorter : (l.drop (max size 1)).length < n := by
        rw [List.length_drop]
        omega
      rw [chunks_of_ne_nil size hl, ih _ hshorter rfl, parts, parts, partCount_of_ne_nil hl,
        List.range_succ_eq_map, List.map_cons, List.map_map]
      refine congrArg _ (List.map_congr_left fun j _ => ?_)
      exact (part_succ j).symm

theorem flatten_parts (size : ℕ) (l : List α) : (parts size l).flatten = l := by
  rw [← chunks_eq_parts, flatten_chunks]

theorem length_parts (size : ℕ) (l : List α) :
    (parts size l).length = l.length ⌈/⌉ max size 1 := by
  rw [parts, List.length_map, List.length_range, Nat.ceilDiv_eq_add_pred_div]
  rfl

theorem length_le_of_mem_parts {batch : List α} (h : batch ∈ parts size l) :
    batch.length ≤ max size 1 := by
  obtain ⟨j, _, rfl⟩ := List.mem_map.mp h
  exact List.length_take_le _ _

end

/-! ## Answers, batch by batch -/

section

variable {σ ρ μ : Type} {kind : Failure.Kind} {call : List ρ → Call σ (List Quote)} {size : ℕ}
  {pending : List (μ × ρ)}

/-- The answers to some batches, which are sent one after another. -/
def answersTo (call : List ρ → Call σ (List Quote)) (batches : List (List (μ × ρ))) :
    StateM σ (List (Except ServiceError (List Quote))) :=
  batches.mapM fun batch => call (batch.map Prod.snd)

/-- A batch with its marks and the outcomes that its answer gives. -/
def markedBatch (kind : Failure.Kind) (batch : List (μ × ρ))
    (answer : Except ServiceError (List Quote)) : List (μ × Outcome Decimal) :=
  (batch.map Prod.fst).zip (outcomes kind batch.length answer)

/-- All batches together. -/
def joined (kind : Failure.Kind) (size : ℕ) (pending : List (μ × ρ))
    (answers : List (Except ServiceError (List Quote))) : List (μ × Outcome Decimal) :=
  (List.zipWith (markedBatch kind) (chunks size pending) answers).flatten

theorem length_markedBatch (batch : List (μ × ρ)) (answer : Except ServiceError (List Quote)) :
    (markedBatch kind batch answer).length = batch.length := by
  unfold markedBatch
  rw [List.length_zip, List.length_map, length_outcomes, Nat.min_self]

theorem map_fst_markedBatch (batch : List (μ × ρ)) (answer : Except ServiceError (List Quote)) :
    (markedBatch kind batch answer).map Prod.fst = batch.map Prod.fst := by
  unfold markedBatch
  apply List.map_fst_zip
  rw [List.length_map, length_outcomes]

/-- Each batch has its answer. -/
theorem length_answersTo (batches : List (List (μ × ρ))) (c : σ) :
    (answersTo call batches c).1.length = batches.length := by
  unfold answersTo
  induction batches generalizing c with
  | nil => rfl
  | cons batch batches ih =>
    rw [List.mapM_cons, List.length_cons, ← ih (call (batch.map Prod.snd) c).2]
    rfl

/-- Sending batches leaves the state in which their answers leave it. -/
theorem mapM_quoteChunk (batches : List (List (μ × ρ))) (c : σ) :
    (batches.mapM (quoteChunk kind call)) c =
      (List.zipWith (markedBatch kind) batches (answersTo call batches c).1,
        (answersTo call batches c).2) := by
  unfold answersTo
  induction batches generalizing c with
  | nil => rfl
  | cons batch batches ih =>
    rw [List.mapM_cons, List.mapM_cons, bind_apply, bind_apply, bind_apply, bind_apply, ih]
    rfl

theorem quoteInChunks_eq (c : σ) : quoteInChunks size kind call pending c =
    (joined kind size pending (answersTo call (parts size pending) c).1,
      (answersTo call (parts size pending) c).2) := by
  rw [← chunks_eq_parts]
  unfold quoteInChunks
  rw [bind_apply, mapM_quoteChunk]
  rfl

/-! ## Requests -/

variable {answers : List (Except ServiceError (List Quote))}

theorem map_fst_zipWith {batches : List (List (μ × ρ))} (h : answers.length = batches.length) :
    (List.zipWith (markedBatch kind) batches answers).flatten.map Prod.fst
      = batches.flatten.map Prod.fst := by
  induction answers generalizing batches with
  | nil =>
    rw [List.eq_nil_of_length_eq_zero h.symm]
    rfl
  | cons answer answers ih =>
    cases batches with
    | nil => cases h
    | cons batch batches =>
      rw [List.zipWith_cons_cons, List.flatten_cons, List.flatten_cons, List.map_append,
        List.map_append, map_fst_markedBatch, ih (Nat.succ.inj h)]

/-- No mark is lost, and none is repeated or moved. -/
theorem map_fst_joined (kind : Failure.Kind)
    (h : answers.length = (chunks size pending).length) :
    (joined kind size pending answers).map Prod.fst = pending.map Prod.fst := by
  rw [joined, map_fst_zipWith h, flatten_chunks]

/-- The first batch, and behind it those of the rest. -/
theorem joined_of_ne_nil (h : pending ≠ []) (answer : Except ServiceError (List Quote)) :
    joined kind size pending (answer :: answers) = markedBatch kind (part size pending 0) answer
      ++ joined kind size (pending.drop (max size 1)) answers := by
  rw [joined, chunks_of_ne_nil size h, List.zipWith_cons_cons, List.flatten_cons]
  rfl

/-- A request of a batch has the outcome at its position. -/
theorem exists_getElem?_markedBatch (kind : Failure.Kind) {batch : List (μ × ρ)}
    (answer : Except ServiceError (List Quote)) {i : ℕ} {p : μ × ρ} (hi : batch[i]? = some p) :
    ∃ o, (outcomes kind batch.length answer)[i]? = some o ∧
      (markedBatch kind batch answer)[i]? = some (p.1, o) := by
  have hlt : i < (outcomes kind batch.length answer).length := by
    rw [length_outcomes]
    exact (List.getElem?_eq_some_iff.mp hi).1
  have hmark : (batch.map Prod.fst)[i]? = some p.1 := by
    rw [List.getElem?_map, hi]
    rfl
  refine ⟨_, List.getElem?_eq_getElem hlt, ?_⟩
  rw [markedBatch, List.getElem?_zip_eq_some]
  exact ⟨hmark, List.getElem?_eq_getElem hlt⟩

/-- The request at a place is decided by one position of one answer. -/
theorem exists_getElem?_joined (kind : Failure.Kind)
    (h : answers.length = (chunks size pending).length) {i : ℕ} {p : μ × ρ}
    (hi : pending[i]? = some p) :
    ∃ answer o, answers[i / max size 1]? = some answer ∧
      (outcomes kind (part size pending (i / max size 1)).length answer)[i % max size 1]?
        = some o ∧
      (joined kind size pending answers)[i]? = some (p.1, o) := by
  -- place by place from batch to batch, the first of which is full when there is another
  induction hn : pending.length using Nat.strong_induction_on generalizing pending answers i with
  | _ n ih =>
    have hlt : i < pending.length := (List.getElem?_eq_some_iff.mp hi).1
    have hne : pending ≠ [] := List.ne_nil_of_length_pos (by omega)
    rw [chunks_of_ne_nil size hne, List.length_cons] at h
    cases answers with
    | nil => cases h
    | cons answer answers =>
      rw [joined_of_ne_nil hne]
      have hsize : 0 < max size 1 := by omega
      by_cases hbatch : i < max size 1
      · have hfirst : (part size pending 0)[i]? = some p := by
          rw [part_zero, List.getElem?_take_of_lt hbatch, hi]
        obtain ⟨o, ho, hplace⟩ := exists_getElem?_markedBatch kind answer hfirst
        have hin : i < (markedBatch kind (part size pending 0) answer).length :=
          (List.getElem?_eq_some_iff.mp hplace).1
        rw [Nat.div_eq_of_lt hbatch, Nat.mod_eq_of_lt hbatch, List.getElem?_append_left hin]
        exact ⟨answer, o, rfl, ho, hplace⟩
      · obtain ⟨i', rfl⟩ : ∃ i', i = i' + max size 1 := ⟨i - max size 1, by omega⟩
        have hfull : (markedBatch kind (part size pending 0) answer).length = max size 1 := by
          rw [length_markedBatch, part_zero, List.length_take]
          omega
        have hi' : (pending.drop (max size 1))[i']? = some p := by
          rw [List.getElem?_drop, Nat.add_comm]
          exact hi
        have hshorter : (pending.drop (max size 1)).length < n := by
          rw [List.length_drop]
          omega
        obtain ⟨answer', o, hanswer, ho, hplace⟩ := ih _ hshorter (Nat.succ.inj h) hi' rfl
        rw [Nat.add_div_right _ hsize, Nat.add_mod_right, part_succ, List.getElem?_cons_succ]
        refine ⟨answer', o, hanswer, ho, ?_⟩
        rw [List.getElem?_append_right (by omega), hfull, Nat.add_sub_cancel]
        exact hplace

end

/-! ## What an answer says about a position -/

/-- The outcome of the request at position `p` of a batch of `n`, by the answer to the batch. An
error stands even beside a fee. -/
inductive OutcomeAt (kind : Failure.Kind) (n p : ℕ) :
    Except ServiceError (List Quote) → Outcome Decimal → Prop
  | priced {quotes : List Quote} {q : Quote} {fee : Int64} (hn : quotes.length = n)
    (hq : quotes[p]? = some q) (herror : q.error = none) (hfee : q.fee = some fee) :
    OutcomeAt kind n p (.ok quotes) (.ok (FixedPoint.priceOfRaw fee))
  | failed {quotes : List Quote} {q : Quote} {e : String} (hn : quotes.length = n)
    (hq : quotes[p]? = some q) (herror : q.error = some e) :
    OutcomeAt kind n p (.ok quotes) (.error ⟨kind, e⟩)
  | empty {quotes : List Quote} {q : Quote} (hn : quotes.length = n) (hq : quotes[p]? = some q)
    (herror : q.error = none) (hfee : q.fee = none) :
    OutcomeAt kind n p (.ok quotes) (.error ⟨kind, "empty fee quote"⟩)
  | miscounted {quotes : List Quote} (hn : quotes.length ≠ n) :
    OutcomeAt kind n p (.ok quotes) (.error ⟨.internal, "logistics returned "
      ++ Text.numeral quotes.length ++ " quotes for " ++ Text.numeral n ++ " requests"⟩)
  | down {e : ServiceError} : OutcomeAt kind n p (.error e) (.error ⟨kind, e.message⟩)

section

variable {kind : Failure.Kind} {n p : ℕ} {answer : Except ServiceError (List Quote)}
  {quotes quotes' : List Quote} {o : Outcome Decimal}

theorem getElem?_outcomes {q : Quote} (hn : quotes.length = n) (hq : quotes[p]? = some q) :
    (outcomes kind n (.ok quotes))[p]? = some (quoted kind q) := by
  unfold outcomes
  dsimp only
  rw [if_pos hn, List.getElem?_map, hq]
  rfl

theorem outcomeAt_of_quote {q : Quote} (hn : quotes.length = n) (hq : quotes[p]? = some q) :
    OutcomeAt kind n p (.ok quotes) (quoted kind q) := by
  obtain ⟨fee, error⟩ := q
  cases error with
  | some e => exact .failed hn hq rfl
  | none =>
    cases fee with
    | some fee => exact .priced hn hq rfl rfl
    | none => exact .empty hn hq rfl rfl

theorem outcomeAt_of_outcomes (h : (outcomes kind n answer)[p]? = some o) :
    OutcomeAt kind n p answer o := by
  cases answer with
  | ok quotes =>
    unfold outcomes at h
    dsimp only at h
    by_cases hn : quotes.length = n
    · rw [if_pos hn, List.getElem?_map, Option.map_eq_some_iff] at h
      obtain ⟨q, hq, rfl⟩ := h
      exact outcomeAt_of_quote hn hq
    · rw [if_neg hn] at h
      obtain rfl := List.eq_of_mem_replicate (List.mem_of_getElem? h)
      exact .miscounted hn
  | error e =>
    obtain rfl := List.eq_of_mem_replicate (List.mem_of_getElem? h)
    exact .down

theorem outcomes_of_outcomeAt (hp : p < n) (h : OutcomeAt kind n p answer o) :
    (outcomes kind n answer)[p]? = some o := by
  cases h with
  | priced hn hq herror hfee =>
    rw [getElem?_outcomes hn hq, quoted, Quote.outcome, herror, hfee]
  | failed hn hq herror => rw [getElem?_outcomes hn hq, quoted, Quote.outcome, herror]
  | empty hn hq herror hfee =>
    rw [getElem?_outcomes hn hq, quoted, Quote.outcome, herror, hfee]
  | miscounted hn =>
    unfold outcomes
    dsimp only
    rw [if_neg hn, List.getElem?_replicate_of_lt hp]
    rfl
  | down => exact List.getElem?_replicate_of_lt hp

/-- All that matters is how many quotes there are, and the one at the position. -/
theorem OutcomeAt.congr (hlength : quotes.length = quotes'.length)
    (hq : quotes[p]? = quotes'[p]?) (h : OutcomeAt kind n p (.ok quotes) o) :
    OutcomeAt kind n p (.ok quotes') o := by
  cases h with
  | priced hn hget herror hfee => exact .priced (hlength ▸ hn) (hq ▸ hget) herror hfee
  | failed hn hget herror => exact .failed (hlength ▸ hn) (hq ▸ hget) herror
  | empty hn hget herror hfee => exact .empty (hlength ▸ hn) (hq ▸ hget) herror hfee
  | miscounted hn =>
    rw [hlength]
    exact .miscounted (hlength ▸ hn)

/-! ## Entries of a gateway -/

variable {τ : Type} {v w x : Json} {xs : List Json} {i : ℕ}

theorem quotes_set (g : Gateway τ) (hv : Gateway.dataItems v = .ok xs)
    (hw : Gateway.dataItems w = .ok (xs.set i x)) (hx : Quote.ofJson? x = none) :
    ∃ qs, g.quotes v = .ok qs ∧ qs.length = xs.length ∧
      g.quotes w = .ok (qs.set i (.failed ("malformed quote: " ++ g.entryFault x))) := by
  refine ⟨xs.map fun y =>
      (Quote.ofJson? y).getD (.failed ("malformed quote: " ++ g.entryFault y)),
    ?_, List.length_map _, ?_⟩
  · rw [Gateway.quotes, hv]
    rfl
  · rw [Gateway.quotes, hw]
    show Except.ok (List.map _ (xs.set i x)) = _
    rw [List.map_set, hx]
    rfl

/-- An entry that cannot be read fails the request at its position, and no other. -/
theorem outcomeAt_unreadable (g : Gateway τ) (hv : Gateway.dataItems v = .ok xs)
    (hw : Gateway.dataItems w = .ok (xs.set i x)) (hi : i < xs.length)
    (hx : Quote.ofJson? x = none) :
    OutcomeAt kind xs.length i (g.quotes w) (.error ⟨kind, "malformed quote: " ++ g.entryFault x⟩) ∧
    ∀ n p o, p ≠ i → (OutcomeAt kind n p (g.quotes w) o ↔ OutcomeAt kind n p (g.quotes v) o) := by
  obtain ⟨qs, hqs, hlength, hset⟩ := quotes_set g hv hw hx
  rw [hqs, hset]
  constructor
  · refine .failed (q := .failed ("malformed quote: " ++ g.entryFault x)) ?_ ?_ rfl
    · rw [List.length_set, hlength]
    · exact List.getElem?_set_self (hlength ▸ hi)
  · intro n p o hp
    have hsame : (qs.set i (.failed ("malformed quote: " ++ g.entryFault x)))[p]? = qs[p]? :=
      List.getElem?_set_ne hp.symm
    constructor
    · exact .congr List.length_set hsame
    · exact .congr List.length_set.symm hsame.symm

end

/-! ## All requests -/

section

variable {σ ρ μ : Type} {kind : Failure.Kind} {call : List ρ → Call σ (List Quote)} {size : ℕ}
  {pending : List (μ × ρ)}

theorem map_fst_quoteInChunks (c : σ) :
    (quoteInChunks size kind call pending c).1.map Prod.fst = pending.map Prod.fst := by
  rw [quoteInChunks_eq]
  apply map_fst_joined
  rw [length_answersTo, chunks_eq_parts]

/-- An entry has the mark of its request, and the outcome that the answer to its batch gives
its position there. -/
theorem getElem?_quoteInChunks_iff (c : σ) {i : ℕ} {m : μ} {o : Outcome Decimal} :
    (quoteInChunks size kind call pending c).1[i]? = some (m, o) ↔
      ∃ r answer, pending[i]? = some (m, r) ∧
        (answersTo call (parts size pending) c).1[i / max size 1]? = some answer ∧
        OutcomeAt kind (part size pending (i / max size 1)).length (i % max size 1) answer o := by
  have hlength : (answersTo call (parts size pending) c).1.length
      = (chunks size pending).length := by
    rw [length_answersTo, chunks_eq_parts]
  rw [quoteInChunks_eq]
  constructor
  · intro h
    have hmark : (pending.map Prod.fst)[i]? = some m := by
      rw [← map_fst_joined kind hlength, List.getElem?_map, h]
      rfl
    rw [List.getElem?_map, Option.map_eq_some_iff] at hmark
    obtain ⟨⟨m', r⟩, hi, rfl⟩ := hmark
    obtain ⟨answer, o', hanswer, ho, hplace⟩ := exists_getElem?_joined kind hlength hi
    rw [h, Option.some.injEq, Prod.mk.injEq] at hplace
    exact ⟨r, answer, hi, hanswer, hplace.2 ▸ outcomeAt_of_outcomes ho⟩
  · intro ⟨r, answer, hi, hanswer, ho⟩
    obtain ⟨answer', o', hanswer', ho', hplace⟩ :=
      exists_getElem?_joined kind hlength hi
    obtain rfl := Option.some.inj (hanswer.symm.trans hanswer')
    have hlt := (List.getElem?_eq_some_iff.mp ho').1
    rw [length_outcomes] at hlt
    rw [outcomes_of_outcomeAt hlt ho] at ho'
    obtain rfl := Option.some.inj ho'
    exact hplace

/-- Distinct marks find their outcomes. -/
theorem existsUnique_outcome (hmarks : (pending.map Prod.fst).Nodup) (c : σ) {p : μ × ρ}
    (hp : p ∈ pending) : ∃! o, (p.1, o) ∈ (quoteInChunks size kind call pending c).1 := by
  have hmap : (quoteInChunks size kind call pending c).1.map Prod.fst = pending.map Prod.fst :=
    map_fst_quoteInChunks c
  have hmem : p.1 ∈ (quoteInChunks size kind call pending c).1.map Prod.fst := by
    rw [hmap]
    exact List.mem_map_of_mem hp
  obtain ⟨⟨m, o⟩, hentry, hm⟩ := List.mem_map.mp hmem
  obtain rfl : m = p.1 := hm
  refine ⟨o, hentry, ?_⟩
  intro o' ho'
  rw [← hmap] at hmarks
  exact (Prod.mk.inj (List.inj_on_of_nodup_map hmarks ho' hentry rfl)).2

/-- A service that answers each request for itself can be asked in batches of any size. -/
theorem quoteInChunks_of_itemwise {quote : ρ → Quote}
    (h : ∀ rs c, (call rs c).1 = .ok (rs.map quote)) (size : ℕ) (c : σ) :
    (quoteInChunks size kind call pending c).1
      = pending.map fun p => (p.1, quoted kind (quote p.2)) := by
  refine quoteInChunks_gives (g := fun r => quoted kind (quote r)) ?_ size pending c
  intro rs
  refine ⟨_, h rs, ?_⟩
  simp [outcomes]

end

/-- Requests with distinct marks, sent in batches of any size to a call that may answer anything
in any state. Each mark comes back once, in the order of the requests, and the state is the one
that the answers leave. The entry at a place is decided by the answer to one batch, and there by
one position. An entry of a gateway that cannot be read fails the request at its position and no
other. And where the service answers each request for itself, the size makes no difference. -/
theorem quoteInChunks_positional {σ ρ μ : Type} (size : ℕ) (kind : Failure.Kind)
    (call : List ρ → Call σ (List Quote)) {pending : List (μ × ρ)}
    (hmarks : (pending.map Prod.fst).Nodup) (c : σ) :
    ((quoteInChunks size kind call pending c).1.map Prod.fst = pending.map Prod.fst ∧
      (∀ p ∈ pending, ∃! o, (p.1, o) ∈ (quoteInChunks size kind call pending c).1) ∧
      (quoteInChunks size kind call pending c).2
        = (answersTo call (parts size pending) c).2) ∧
    (∀ i m o, (quoteInChunks size kind call pending c).1[i]? = some (m, o) ↔
      ∃ r answer, pending[i]? = some (m, r) ∧
        (answersTo call (parts size pending) c).1[i / max size 1]? = some answer ∧
        OutcomeAt kind (part size pending (i / max size 1)).length (i % max size 1) answer o) ∧
    (∀ (τ : Type) (g : Gateway τ) v w x xs i,
      Gateway.dataItems v = .ok xs → Gateway.dataItems w = .ok (xs.set i x) →
      i < xs.length → Quote.ofJson? x = none →
      OutcomeAt kind xs.length i (g.quotes w)
        (.error ⟨kind, "malformed quote: " ++ g.entryFault x⟩) ∧
      ∀ n p o, p ≠ i →
        (OutcomeAt kind n p (g.quotes w) o ↔ OutcomeAt kind n p (g.quotes v) o)) ∧
    ∀ quote : ρ → Quote, (∀ rs c, (call rs c).1 = .ok (rs.map quote)) → ∀ size',
      (quoteInChunks size' kind call pending c).1 = (quoteInChunks size kind call pending c).1 := by
  refine ⟨⟨map_fst_quoteInChunks c, ?_, ?_⟩, ?_, ?_, ?_⟩
  · intro p hp
    exact existsUnique_outcome hmarks c hp
  · rw [quoteInChunks_eq]
  · intro i m o
    exact getElem?_quoteInChunks_iff c
  · intro τ g v w x xs i hv hw hi hx
    exact outcomeAt_unreadable g hv hw hi hx
  · intro quote hquote size'
    rw [quoteInChunks_of_itemwise hquote size' c, quoteInChunks_of_itemwise hquote size c]

/-! Three requests in two batches, for a service that quotes what it is asked; and two entries of
a gateway, the second of which becomes unreadable. -/

/-- Each request is answered by itself as the fee. -/
def echo (fees : List Int64) : Call Unit (List Quote) :=
  fun c => (.ok (fees.map Quote.priced), c)

def feeRequests : List (ℕ × Int64) := [(4, 100000), (2, 200000), (7, 300000)]

def firstEntry : Json := (Quote.priced 100000).toJson

def twoEntries : Json := .object [("data", .array [firstEntry, (Quote.priced 200000).toJson])]

def oneEntryUnreadable : Json := .object [("data", .array [firstEntry, .null])]

/-- A gateway whose reader says which type it did not expect. -/
def typedGateway : Gateway Unit where
  send _ _ := return .ok ⟨200, oneEntryUnreadable.render⟩
  retries := return 0
  bodyFault _ := "error decoding response body"
  entryFault
    | .null => "invalid type: null, expected struct FeeQuote"
    | _ => "invalid type, expected struct FeeQuote"

theorem quoteInChunks_positional_echo :
    (feeRequests.map Prod.fst).Nodup ∧
      (∃! o, (2, o) ∈ (quoteInChunks 2 .calculateHiddenFee echo feeRequests ()).1) ∧
      (quoteInChunks 2 .calculateHiddenFee echo feeRequests ()).1[2]?
        = some (7, .ok (FixedPoint.priceOfRaw 300000)) ∧
      OutcomeAt .calculateHiddenFee 2 1 (typedGateway.quotes oneEntryUnreadable)
        (.error ⟨.calculateHiddenFee,
          "malformed quote: invalid type: null, expected struct FeeQuote"⟩) ∧
      OutcomeAt .calculateHiddenFee 2 0 (typedGateway.quotes oneEntryUnreadable)
        (.ok (FixedPoint.priceOfRaw 100000)) ∧
      (quoteInChunks 0 .calculateHiddenFee echo feeRequests ()).1
        = (quoteInChunks 2 .calculateHiddenFee echo feeRequests ()).1 := by
  have hmarks : (feeRequests.map Prod.fst).Nodup := by decide
  obtain ⟨⟨_, hunique, _⟩, hplace, hgateway, hsize⟩ :=
    quoteInChunks_positional 2 .calculateHiddenFee echo hmarks ()
  obtain ⟨hfails, hothers⟩ := hgateway Unit typedGateway twoEntries oneEntryUnreadable
    .null _ 1 rfl rfl (by decide) rfl
  refine ⟨hmarks, hunique (2, 200000) (by decide), ?_, hfails, ?_,
    hsize Quote.priced (fun _ _ => rfl) 0⟩
  · apply (hplace 2 7 _).mpr
    exact ⟨300000, .ok [.priced 300000], rfl, rfl, .priced rfl rfl rfl rfl⟩
  · apply (hothers 2 0 _ (by decide)).mpr
    have hquotes : typedGateway.quotes twoEntries = .ok [.priced 100000, .priced 200000] := by rfl
    rw [hquotes]
    exact .priced rfl rfl rfl rfl

end RegionPricing.Pricing
