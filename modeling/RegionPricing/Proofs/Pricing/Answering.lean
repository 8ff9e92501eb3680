import RegionPricing.Pricing.Conversion
import RegionPricing.Proofs.Factor.Layers
import RegionPricing.Proofs.Factor.Resolved
import RegionPricing.Proofs.Pricing.HiddenFees

/-!
# Sources that answer every key

A source that answers every key it is asked for does so behind any cache tiers, whatever they
hold (`answering_through`). The sources of factors are of this kind: a service that fails, or
leaves a key out, and a store without an entry make a failure of the key, not a missing key.
For hidden fees this needs that each article gets an outcome of its own, from the parts in
which the fees arrive (`hiddenFeesVia_resolved`).
-/

namespace RegionPricing.Pricing

open RegionPricing.Factor RegionPricing.Market

variable {σ : Type}

/-- A call behind the tiers. -/
theorem ensures_ask {α : Type} {call : StateM σ α} {good : α → Prop} (h : Ensures call good) :
    Ensures (ask call : Session σ α) good :=
  fun e => h e.behind.market

/-! ## Sources -/

section

variable {ω κ ν : Type} [DecidableEq κ] [KeyText κ]

/-- A source that answers every key it is asked for. -/
def Answering (src : Source ω κ ν) : Prop :=
  ∀ keys, Ensures (src.fetch keys) fun answers => ∀ k ∈ keys, Answered (answers.get? k)

/-- What a tier has is resolved, and so is what it misses when that was answered. -/
theorem merged_resolved {s : Space ν} {found : KeyMap String String} {fetched : Answers κ ν} {k : κ}
    (h : Source.hit? s found k = none → Answered (fetched.get? k)) :
    IsResolved (Source.merged s found fetched k) := by
  cases hv : Source.hit? s found k with
  | some v =>
    rw [merged_of_hit hv]
    exact resolved_ok v
  | none =>
    obtain ⟨outcome, hget, hresolved⟩ := h hv
    rw [merged_of_miss hv, hget, Option.getD_some]
    exact hresolved

theorem answering_cached {inner : Source ω κ ν} (h : Answering inner) (s : Space ν) (level : ℕ) :
    Answering (Source.cached s level inner) := by
  intro keys e k hk
  have hkey : k ∈ keys.eraseDups := List.mem_eraseDups.mpr hk
  rcases hr : Env.readTier level (keys.eraseDups.map s.tierKey) e with ⟨found, e'⟩
  -- a key that the tier does not have is among the ones that are fetched
  have hmissed : Source.hit? s found k = none →
      k ∈ keys.eraseDups.filter fun k => (Source.hit? s found k).isNone := fun hv =>
    List.mem_filter.mpr ⟨hkey, by rw [hv]; rfl⟩
  cases hm : (keys.eraseDups.filter fun k => (Source.hit? s found k).isNone).isEmpty with
  | true =>
    rw [cached_fetch_of_found _ hr hm]
    refine answered_ofKeys hkey (merged_resolved fun hv => ?_)
    have hin := hmissed hv
    rw [List.isEmpty_iff.mp hm] at hin
    exact absurd hin List.not_mem_nil
  | false =>
    rw [cached_fetch_of_missed _ hr rfl hm rfl]
    exact answered_ofKeys hkey (merged_resolved fun hv => h _ e' k (hmissed hv))

/-- Behind any tiers a source answers every key. -/
theorem answering_through {inner : Source ω κ ν} (h : Answering inner) (s : Space ν) :
    Answering (Source.through s inner) := by
  have hlayered : ∀ n level, Answering (Source.layered s inner level n) := by
    intro n
    induction n with
    | zero => exact fun _ => h
    | succ n ih => exact fun level => answering_cached (ih (level + 1)) s level
  exact fun keys e => hlayered e.tiers.length 0 keys e

theorem answering_fromService (what : String) (call : List κ → Call σ (KeyMap κ ν)) :
    Answering (fromService what call) := by
  intro keys e k hk
  have hfailure : ∀ e : ServiceError, IsResolved (.error e.toFailure : Outcome ν) :=
    fun e => resolved_of_kind (by decide)
  unfold fromService Source.behind Env.direct
  rcases hr : call keys e.behind.market with ⟨_ | found, market⟩ <;>
    simp only [bind_apply, onMarket, hr]
  · exact answered_ofKeys hk (hfailure _)
  · have hget := Answers.get?_complete what keys found k
    rw [if_pos hk] at hget
    refine ⟨_, hget, ?_⟩
    have hmissing : IsResolved (.error (Answers.notFound what k) : Outcome ν) :=
      resolved_of_kind (by decide)
    split
    · unfold Answers.ofFound
      split
      · exact resolved_ok _
      · exact hmissing
    · exact hmissing

theorem resolved_whenOpen {α : Type} (store : Store) (a : α) : IsResolved (store.whenOpen a) := by
  unfold Store.whenOpen
  split
  · exact resolved_ok a
  · exact resolved_of_kind (by decide)

omit [KeyText κ] in
theorem answering_fromStore {ρ : Type} {read : Store → κ → Outcome (Option ρ)}
    (hread : ∀ store k, IsResolved (read store k)) (value : ρ → ν) (missing : κ → String) :
    Answering (fromStore read value missing : Source (Backing σ) κ ν) := by
  intro keys e k hk
  have hstored : IsResolved (fromStored read value missing e.behind.store k) := by
    have hresolved := hread e.behind.store k
    unfold fromStored
    split
    · exact resolved_ok _
    · exact resolved_of_kind (by decide)
    next f hf => exact resolved_error (hresolved f hf)
  exact answered_ofKeys hk hstored

end

section

variable (s : Setup σ)

theorem answering_shops : Answering s.shops := answering_through (answering_fromService _ _) _

theorem answering_items : Answering s.items := answering_through (answering_fromService _ _) _

theorem answering_commissions : Answering s.commissions :=
  answering_through (answering_fromService _ _) _

theorem answering_exchangeRates : Answering (exchangeRates : Source (Backing σ) _ _) :=
  answering_through (answering_fromStore (fun _ _ => resolved_whenOpen _ _) _ _) _

theorem answering_profitRates : Answering (profitRates : Source (Backing σ) _ _) :=
  answering_through (answering_fromStore (fun _ _ => resolved_whenOpen _ _) _ _) _

theorem answering_profitRateLimits : Answering (profitRateLimits : Source (Backing σ) _ _) :=
  answering_through (answering_fromStore (fun _ _ => resolved_whenOpen _ _) _ _) _

end

/-- What is fetched for the keys of some queries answers the key of each. -/
theorem answering_fetch_map {ω κ ν α : Type} [DecidableEq κ] {src : Source ω κ ν}
    (h : Answering src) (key : α → κ) (qs : List α) :
    Ensures (src.fetch (qs.map key).eraseDups) fun answers =>
      ∀ q ∈ qs, Answered (answers.get? (key q)) :=
  (h _).mono fun _ ha _ hq => ha _ (mem_eraseDups_map key hq)

/-! ## Quotes -/

/-- IsResolved outcomes, so many. -/
structure Settled {μ : Type} (n : ℕ) (outcomes : List (μ × Outcome Decimal)) : Prop where
  length_eq : outcomes.length = n
  resolved : ∀ o ∈ outcomes, IsResolved o.2

section

variable {μ ρ : Type} {kind : Failure.Kind}

theorem Settled.append {m n : ℕ} {os os' : List (μ × Outcome Decimal)} (h : Settled m os)
    (h' : Settled n os') : Settled (m + n) (os ++ os') := by
  refine ⟨by rw [List.length_append, h.length_eq, h'.length_eq], fun o ho => ?_⟩
  exact (List.mem_append.mp ho).elim (h.resolved o) (h'.resolved o)

theorem resolved_miscount (quotes requests : ℕ) :
    IsResolved (.error (miscount quotes requests) : Outcome Decimal) :=
  resolved_error (Failure.not_isUnresolved_of_end (c := 's') (by decide +kernel) (by decide))

theorem outcomes_resolved (hkind : kind ≠ .internal) (n : ℕ)
    (answer : Except ServiceError (List Quote)) :
    ∀ o ∈ outcomes kind n answer, IsResolved o := by
  unfold outcomes
  split
  next quotes =>
    split
    next hn =>
      intro o ho
      obtain ⟨q, _, rfl⟩ := List.mem_map.mp ho
      unfold quoted
      split
      · exact resolved_ok _
      · exact resolved_of_kind hkind
    next =>
      intro o ho
      rw [(List.mem_replicate.mp ho).2]
      exact resolved_miscount _ _
  next e =>
    intro o ho
    rw [(List.mem_replicate.mp ho).2]
    exact resolved_of_kind hkind

/-- Each request gets an outcome, in whatever batches they are sent. -/
theorem quoteInChunks_settled (hkind : kind ≠ .internal) (size : ℕ)
    (call : List ρ → Call σ (List Quote)) (pending : List (μ × ρ)) :
    Ensures (quoteInChunks size kind call pending) (Settled pending.length) := by
  have hchunk : ∀ chunk : List (μ × ρ),
      Ensures (quoteChunk kind call chunk) (Settled chunk.length) := by
    intro chunk
    refine (Ensures.trivial _).bind fun answer _ => .pure ?_
    refine ⟨?_, fun o ho => outcomes_resolved hkind chunk.length answer _ (List.of_mem_zip ho).2⟩
    rw [List.length_zip, List.length_map, length_outcomes, Nat.min_self]
  have hflatten : ∀ {parts : List (List (μ × ρ))} {outs : List (List (μ × Outcome Decimal))},
      List.Forall₂ (fun part out => Settled part.length out) parts outs →
        Settled parts.flatten.length outs.flatten := by
    intro parts outs h
    induction h with
    | nil => exact ⟨rfl, by simp⟩
    | cons hout _ ih =>
      rw [List.flatten_cons, List.flatten_cons, List.length_append]
      exact hout.append ih
  refine (Ensures.mapM hchunk).bind fun outs houts => .pure ?_
  have hsettled := hflatten houts
  rwa [flatten_chunks] at hsettled

end

theorem length_inOrder {α : Type} (marked : List (ℕ × α)) :
    (inOrder marked).length = marked.length := by
  rw [inOrder, List.length_map, List.length_mergeSort]

theorem Settled.inOrder {n : ℕ} {os : List (ℕ × Outcome Decimal)} (h : Settled n os) :
    (inOrder os).length = n ∧ ∀ o ∈ inOrder os, IsResolved o := by
  refine ⟨(length_inOrder os).trans h.length_eq, fun o ho => ?_⟩
  obtain ⟨m, hm, rfl⟩ := List.mem_map.mp ho
  exact h.resolved m (List.mem_mergeSort.mp hm)

/-! ## Hidden fees -/

theorem bucketOf_resolved {shops : Answers Id Shop} {items : Answers Id Item}
    {answer : Except ServiceError (KeyMap ShopItem (List Channel))} {key : HiddenFeeKey}
    {fee : Outcome Decimal} (hshop : Answered (shops.get? key.shopId))
    (hitem : Answered (items.get? key.itemId))
    (h : bucketOf shops items (enabledChannels answer) key = .known fee) : IsResolved fee := by
  have hshop := hshop.lookup "shop"
  have hitem := hitem.lookup "item"
  unfold bucketOf at h
  split at h
  next f hf =>
    obtain rfl := Bucket.known.inj h
    cases answer with
    | ok found => cases hf
    | error e =>
      cases hf
      exact resolved_of_kind (by decide)
  next =>
    split at h
    next =>
      obtain rfl := Bucket.known.inj h
      unfold withoutChannels
      split
      · exact resolved_of_kind (by decide)
      · exact resolved_ok _
    next =>
      split at h
      next f hf =>
        obtain rfl := Bucket.known.inj h
        exact resolved_error (hshop f hf)
      next f _ hf =>
        obtain rfl := Bucket.known.inj h
        exact resolved_error (hitem f hf)
      next =>
        unfold bucketFor at h
        split at h
        · obtain rfl := Bucket.known.inj h
          exact resolved_ok _
        · cases h

/-- Each key has a known fee or a request. -/
theorem length_buckets (buckets : List (ℕ × Bucket)) :
    (knownFees buckets).length + (requests buckets).length = buckets.length := by
  have hperm := (knownFees_append_perm (fun _ => .ok .zero) buckets).length_eq
  rwa [List.length_append, List.length_map, List.length_map] at hperm

theorem knownFees_settled {buckets : List (ℕ × Bucket)}
    (h : ∀ b ∈ buckets, ∀ fee, b.2 = .known fee → IsResolved fee) :
    Settled (knownFees buckets).length (knownFees buckets) := by
  refine ⟨rfl, fun o ho => ?_⟩
  obtain ⟨b, hb, hsome⟩ := List.mem_filterMap.mp ho
  split at hsome
  next fee hfee =>
    obtain rfl := Option.some.inj hsome
    exact h b hb fee hfee
  next => cases hsome

variable (s : Setup σ)

theorem hiddenFeesVia_resolved (keys : List HiddenFeeKey) :
    Ensures (s.hiddenFeesVia s.shops s.items keys) fun fees =>
      fees.length = keys.length ∧ ∀ fee ∈ fees, IsResolved fee := by
  refine (answering_fetch_map (answering_shops s) HiddenFeeKey.shopId keys).bind
    fun shops hshops => ?_
  refine (answering_fetch_map (answering_items s) HiddenFeeKey.itemId keys).bind
    fun items hitems => ?_
  refine (Ensures.trivial _).bind fun answer _ => ?_
  dsimp only
  generalize hbuckets : (keys.zipIdx.map fun k =>
    (k.2, bucketOf shops items (enabledChannels answer) k.1)) = buckets
  have hknown : ∀ b ∈ buckets, ∀ fee, b.2 = .known fee → IsResolved fee := by
    intro b hb fee hfee
    rw [← hbuckets] at hb
    obtain ⟨k, hk, rfl⟩ := List.mem_map.mp hb
    have hkey : k.1 ∈ keys := List.fst_mem_of_mem_zipIdx hk
    exact bucketOf_resolved (hshops k.1 hkey) (hitems k.1 hkey) hfee
  refine (ensures_ask (quoteInChunks_settled (by decide) _ _ (requests buckets))).bind
    fun quotes hquotes => .pure ?_
  have hlength : (knownFees buckets).length + (requests buckets).length = keys.length := by
    rw [length_buckets, ← hbuckets, List.length_map, List.length_zipIdx]
  rw [← hlength]
  exact ((knownFees_settled hknown).append hquotes).inOrder

theorem answering_hiddenFees : Answering s.hiddenFees := by
  refine answering_through (fun keys => ?_) _
  refine (hiddenFeesVia_resolved s keys.eraseDups).bind fun fees hfees => .pure fun k hk => ?_
  exact answered_ofList_zip hfees.1 hfees.2 (List.mem_eraseDups.mpr hk)

end RegionPricing.Pricing
