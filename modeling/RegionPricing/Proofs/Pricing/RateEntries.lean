import RegionPricing.Proofs.Pricing.Factors
import RegionPricing.Proofs.Pricing.Storing

/-!
# Entries stored one after the other

A batch of profit rates takes its entries one after the other. Each is held against the limit
that the store has for its merchant; one that is refused leaves the store, and one that is
taken changes its own row and no other (`StoredOneByOne`). So after the batch each row holds
the rate of the last entry that was taken for it (`StoredOneByOne.get?`). Without cache tiers
this is what storing a batch comes to (`setProfitRates_leaves`).
-/

namespace RegionPricing.Pricing

open RegionPricing.Factor RegionPricing.Batch

/-! ## Entries -/

/-- The row of an entry. -/
def rowOf (entry : ProfitRateEntry) : MerchantShop := ⟨entry.merchantId, entry.shopId⟩

/-- Whether a store takes an entry: it is open, and if it has a limit for the merchant, the
rate keeps within it. -/
def Takes (store : Store) (entry : ProfitRateEntry) : Prop :=
  store.isOpen = true ∧ ∀ l, store.limits.get? entry.merchantId = some l →
    l.least ≤ entry.rate ∧ entry.rate ≤ l.greatest

/-- The store with the rate of an entry. -/
def withRate (store : Store) (entry : ProfitRateEntry) : Store :=
  { store with profitRates := store.profitRates.put (rowOf entry) entry.rate }

/-- Entries stored one after the other. An entry that is refused leaves the store, and an entry
that is taken changes its own row. -/
inductive StoredOneByOne : List ProfitRateEntry → List (Outcome Unit) → Store → Store → Prop
  | nil {store : Store} : StoredOneByOne [] [] store store
  | refused {entry : ProfitRateEntry} {es : List ProfitRateEntry} {f : Failure}
      {outcomes : List (Outcome Unit)} {store store' : Store} (h : ¬Takes store entry)
      (rest : StoredOneByOne es outcomes store store') :
      StoredOneByOne (entry :: es) (.error f :: outcomes) store store'
  | taken {entry : ProfitRateEntry} {es : List ProfitRateEntry} {outcomes : List (Outcome Unit)}
      {store store' : Store} (h : Takes store entry)
      (rest : StoredOneByOne es outcomes (withRate store entry) store') :
      StoredOneByOne (entry :: es) (.ok () :: outcomes) store store'

variable {σ α : Type} {store store' : Store} {entry : ProfitRateEntry}
  {es : List ProfitRateEntry} {outcomes : List (Outcome Unit)}

/-- The entries that were taken. -/
def takenOf (es : List ProfitRateEntry) (outcomes : List (Outcome Unit)) : List ProfitRateEntry :=
  (es.zip outcomes).filterMap fun e =>
    match e.2 with
    | .ok () => some e.1
    | .error _ => none

/-- The rate of the last entry for a row. -/
def lastRate (k : MerchantShop) (es : List ProfitRateEntry) : Option Int64 :=
  (es.reverse.find? fun entry => rowOf entry = k).map ProfitRateEntry.rate

theorem lastRate_cons (k : MerchantShop) (entry : ProfitRateEntry) (es : List ProfitRateEntry) :
    lastRate k (entry :: es)
      = (lastRate k es).or (if rowOf entry = k then some entry.rate else none) := by
  rw [lastRate, List.reverse_cons, List.find?_append, Option.map_or, ← lastRate,
    List.find?_singleton]
  by_cases h : rowOf entry = k <;> simp [h]

/-- After entries each row holds the rate of the last one that was taken for it. -/
theorem StoredOneByOne.get? (h : StoredOneByOne es outcomes store store') (k : MerchantShop) :
    store'.profitRates.get? k
      = (lastRate k (takenOf es outcomes)).or (store.profitRates.get? k) := by
  induction h with
  | nil => rfl
  | refused _ _ ih => exact ih
  | @taken entry es outcomes store store' _ _ ih =>
    have htaken : takenOf (entry :: es) (.ok () :: outcomes) = entry :: takenOf es outcomes := rfl
    rw [ih, withRate, KeyMap.get?_put, htaken, lastRate_cons, Option.or_assoc]
    by_cases hrow : rowOf entry = k
    · rw [if_pos hrow, if_pos hrow]
      rfl
    · rw [if_neg hrow, if_neg hrow, Option.none_or]

/-- Entries change nothing but rates. -/
theorem StoredOneByOne.rest (h : StoredOneByOne es outcomes store store') :
    ∃ rates, store' = { store with profitRates := rates } := by
  induction h with
  | nil => exact ⟨_, rfl⟩
  | refused _ _ ih => exact ih
  | taken _ _ ih =>
    obtain ⟨rates, hrates⟩ := ih
    exact ⟨rates, hrates⟩

theorem StoredOneByOne.takes (h : StoredOneByOne es outcomes store store')
    (hmem : entry ∈ takenOf es outcomes) : entry ∈ es ∧ Takes store entry := by
  induction h with
  | nil => cases hmem
  | refused _ _ ih =>
    obtain ⟨hes, htakes⟩ := ih hmem
    exact ⟨List.mem_cons_of_mem _ hes, htakes⟩
  | taken h _ ih =>
    rcases List.mem_cons.mp hmem with rfl | hmem
    · exact ⟨List.mem_cons_self, h⟩
    · -- the limits are those from before the first entry
      obtain ⟨hes, htakes⟩ := ih hmem
      exact ⟨List.mem_cons_of_mem _ hes, htakes⟩

theorem mem_of_lastRate {k : MerchantShop} {rate : Int64} (h : lastRate k es = some rate) :
    ∃ entry ∈ es, rowOf entry = k ∧ entry.rate = rate := by
  obtain ⟨entry, hfind, hrate⟩ := Option.map_eq_some_iff.mp h
  obtain ⟨hmem, hrow⟩ := KeyMap.mem_of_find?_key hfind
  exact ⟨entry, List.mem_reverse.mp hmem, hrow, hrate⟩

/-! ## A batch -/

theorem checkLimit_eq_ok_iff {limits : Answers Id ProfitRateLimit} {m : Id} {rate : Int64}
    (h : limits.get? m = some (storedLimit store m)) :
    checkLimit limits m rate = .ok () ↔ store.isOpen = true ∧
      ∀ l, store.limits.get? m = some l → l.least ≤ rate ∧ rate ≤ l.greatest := by
  rw [checkLimit, Answers.lookup_of_get? h, storedLimit, fromStored, Store.limit?, Store.whenOpen]
  cases hopen : store.isOpen with
  | false => simp [Store.closedFailure]
  | true =>
    cases hl : store.limits.get? m with
    | none => simp
    | some l =>
      simp only [if_true, id_eq, true_and, Option.some.injEq, forall_eq']
      by_cases hcontains : l.contains rate = true
      · rw [if_pos hcontains]
        simpa [ProfitRateLimit.contains] using hcontains
      · rw [if_neg hcontains]
        simpa [ProfitRateLimit.contains] using hcontains

theorem storeOne_cases {limits : Answers Id ProfitRateLimit}
    (h : limits.get? entry.merchantId = some (storedLimit store entry.merchantId)) :
    (Takes store entry ∧ storeOne limits entry store = (.ok (), withRate store entry)) ∨
      ¬Takes store entry ∧ ∃ f, storeOne limits entry store = (.error f, store) := by
  have htakes : checkLimit limits entry.merchantId entry.rate = .ok () ↔ Takes store entry :=
    checkLimit_eq_ok_iff h
  unfold storeOne
  cases hcheck : checkLimit limits entry.merchantId entry.rate with
  | error f =>
    refine .inr ⟨fun hopen => ?_, f, rfl⟩
    rw [htakes.mpr hopen] at hcheck
    cases hcheck
  | ok _ =>
    have hentry := htakes.mp hcheck
    refine .inl ⟨hentry, ?_⟩
    rw [Store.putProfitRate, Store.whenOpen, if_pos hentry.1]
    rfl

theorem storeAll_oneByOne {limits : Answers Id ProfitRateLimit}
    (h : ∀ entry ∈ es, limits.get? entry.merchantId = some (storedLimit store entry.merchantId)) :
    StoredOneByOne es (storeAll limits es store).1 store (storeAll limits es store).2 := by
  induction es generalizing store with
  | nil => exact .nil
  | cons entry es ih =>
    rw [storeAll]
    rcases storeOne_cases (h entry List.mem_cons_self) with ⟨htakes, heq⟩ | ⟨hrefuses, f, heq⟩
    · rw [heq]
      exact .taken htakes (ih fun entry' hmem => h entry' (List.mem_cons_of_mem entry hmem))
    · rw [heq]
      exact .refused hrefuses (ih fun entry' hmem => h entry' (List.mem_cons_of_mem entry hmem))

theorem storeDirectly_oneByOne (es : List ProfitRateEntry) (store : Store) :
    StoredOneByOne es (storeDirectly es store).1 store (storeDirectly es store).2 := by
  refine storeAll_oneByOne fun entry hentry => ?_
  rw [Answers.get?_ofKeys, if_pos (mem_eraseDups_map _ hentry)]

/-! ## Calls without tiers -/

/-- What a call comes to wherever no tiers are in front of a store, and the store after it. -/
def Leaves (x : Session σ α) (store : Store) (a : α) (store' : Store) : Prop :=
  ∀ e : Env (Backing σ), e.tiers = [] → e.behind.store = store →
    (x e).1 = a ∧ (x e).2.tiers = [] ∧ (x e).2.behind.store = store'

/-- Without tiers there is nothing to forget. -/
theorem forget_through {κ ν : Type} [DecidableEq κ] [KeyText κ] (space : Space ν)
    (fetch : List κ → StateM (Backing σ) (Answers κ ν)) (keys : List κ) {e : Env (Backing σ)}
    (ht : e.tiers = []) : (Source.through space (.behind fetch)).forget keys e = ((), e) := by
  have hl : (Source.through space (.behind fetch)).forget keys e
      = (Source.layered space (.behind fetch) 0 e.tiers.length).forget keys e := rfl
  rw [hl, ht]
  rfl

theorem setProfitRates_leaves (es : List ProfitRateEntry) (store : Store) :
    Leaves (setProfitRates es : Session σ _) store (storeDirectly es store).1
      (storeDirectly es store).2 := by
  intro e ht hs
  rcases hf : profitRateLimits.fetch (es.map ProfitRateEntry.merchantId).eraseDups e
    with ⟨limits, e1⟩
  obtain ⟨hlimits, ht1, hs1⟩ := profitRateLimits_yields
    (es.map ProfitRateEntry.merchantId).eraseDups e ht hs
  rw [hf] at hlimits ht1 hs1
  dsimp only at hlimits ht1 hs1
  subst hlimits
  rw [setProfitRates_apply es hf, hs1, ← storeDirectly]
  refine ⟨rfl, ?_⟩
  have ht2 : (withStore e1 (storeDirectly es store).2).tiers = [] := ht1
  split
  · exact ⟨ht1, rfl⟩
  · rw [profitRates, rawProfitRates, fromStore, forget_through _ _ _ ht2]
    exact ⟨ht1, rfl⟩

/-! ## A limit -/

/-- A limit within the bounds of profit rates. -/
def InBounds (l : ProfitRateLimit) : Prop :=
  0 < l.least ∧ l.least ≤ l.greatest ∧ l.greatest ≤ 100000

theorem outOfBounds_iff {l : ProfitRateLimit} :
    (!isBound l.least || !isBound l.greatest || decide (l.greatest < l.least)) = true ↔
      ¬InBounds l := by
  rw [← Bool.not_eq_false, not_iff_not]
  simp only [isBound, InBounds, Bool.or_eq_false_iff, Bool.not_eq_false', Bool.and_eq_true,
    decide_eq_true_eq, decide_eq_false_iff_not, Int64.not_lt]
  constructor
  · rintro ⟨⟨⟨hpos, _⟩, _, hmax⟩, hle⟩
    exact ⟨hpos, hle, hmax⟩
  · rintro ⟨hpos, hle, hmax⟩
    exact ⟨⟨⟨hpos, Int64.le_trans hle hmax⟩, Int64.lt_of_lt_of_le hpos hle, hmax⟩, hle⟩

/-- A limit is refused, or put in place of the one that the merchant had. -/
theorem setLimit_leaves (l : ProfitRateLimit) (store : Store) :
    (¬(store.isOpen = true ∧ InBounds l) ∧
      ∃ f, Leaves (setLimit l : Session σ _) store (.error f) store) ∨
    (store.isOpen = true ∧ InBounds l) ∧ Leaves (setLimit l : Session σ _) store (.ok ())
      { store with limits := store.limits.put l.merchantId l } := by
  unfold setLimit
  split
  next hbounds =>
    refine .inl ⟨fun h => outOfBounds_iff.mp hbounds h.2, _, fun e ht hs => ⟨rfl, ht, hs⟩⟩
  next hbounds =>
    have hvalid : InBounds l := by
      by_contra hnot
      exact hbounds (outOfBounds_iff.mpr hnot)
    cases hput : store.putLimit l with
    | error f =>
      refine .inl ⟨fun h => ?_, f, fun e ht hs => ?_⟩
      · rw [Store.putLimit, Store.whenOpen, if_pos h.1] at hput
        cases hput
      · rw [bind_apply, writing_apply, hs, hput]
        exact ⟨rfl, ht, hs⟩
    | ok store' =>
      obtain ⟨hopen, rfl⟩ := whenOpen_ok hput
      refine .inr ⟨⟨hopen, hvalid⟩, fun e ht hs => ?_⟩
      rw [bind_apply, writing_apply, hs, hput]
      dsimp only
      rw [bind_apply, profitRateLimits, rawProfitRateLimits, fromStore, forget_through]
      · exact ⟨rfl, ht, rfl⟩
      · exact ht

end RegionPricing.Pricing
