import RegionPricing.Factor.Traffic
import RegionPricing.Proofs.Cache.Contents
import RegionPricing.Proofs.Factor.Layers

/-!
# What the cache tiers carry during lookups

`Env.Carries P Q e` says of the tier at each level `i` that what is written in it passes
`P i` and what is queued passes `Q i`. A lookup through the tiers keeps this when what it
fetches passes `Q`, and what it finds passes `P` (`Source.Gives.through`). So an answer
that is told by the key and by what is behind the tiers stays so behind any tiers.
-/

namespace RegionPricing.Factor

open RegionPricing.Cache

/-! ## Single operations -/

namespace Env

variable {ω : Type}

/-- Whether what is written in each tier passes `P` and what is queued passes `Q`, by level. -/
def Carries (P Q : ℕ → String → String → Prop) (e : Env ω) : Prop :=
  ∀ (i : ℕ) (t : Tier), e.tiers[i]? = some t → t.Carries (P i) (Q i)

variable {P Q P' Q' : ℕ → String → String → Prop} {e : Env ω} {level : ℕ}

theorem Carries.mono (h : e.Carries P Q) (hP : ∀ i key value, P i key value → P' i key value)
    (hQ : ∀ i key value, Q i key value → Q' i key value) : e.Carries P' Q' :=
  fun i t ht => (h i t ht).mono (hP i) (hQ i)

theorem Carries.readTier (h : e.Carries P Q) (level : ℕ) (texts : List String) :
    (Env.readTier level texts e).2.Carries P Q := by
  unfold Env.readTier
  cases ht : e.tiers[level]? with
  | none => exact h
  | some t =>
    intro i t' hi
    by_cases hlevel : level = i
    · subst hlevel
      rw [List.getElem?_set_self (List.getElem?_eq_some_iff.mp ht).1] at hi
      obtain rfl := Option.some.inj hi
      exact (h level t ht).read texts
    · rw [List.getElem?_set_ne hlevel] at hi
      exact h i t' hi

theorem Carries.found (h : e.Carries P Q) {texts : List String} {key value : String}
    (hk : (Env.readTier level texts e).1.get? key = some value) : P level key value := by
  unfold Env.readTier at hk
  cases ht : e.tiers[level]? with
  | none =>
    rw [ht] at hk
    exact absurd hk (by simp)
  | some t =>
    rw [ht] at hk
    exact (h level t ht).found hk

theorem Carries.enqueue (h : e.Carries P Q) {items : List (String × String)}
    (hi : ∀ item ∈ items, Q level item.1 item.2) : (Env.enqueue level items e).2.Carries P Q := by
  intro i t' ht'
  have hmodify : (e.tiers.modify level fun t => t.enqueue items)[i]? = some t' := ht'
  rw [List.getElem?_modify] at hmodify
  obtain ⟨t, ht, rfl⟩ := Option.map_eq_some_iff.mp hmodify
  by_cases hlevel : level = i
  · subst hlevel
    rw [if_pos rfl]
    exact (h level t ht).enqueue hi
  · rw [if_neg hlevel]
    exact h i t ht

/-- Deleting touches one tier, and there only what is written. -/
theorem Carries.deleteFrom (h : e.Carries P Q) (level : ℕ) (texts : List String) :
    (Env.deleteFrom level texts e).2.Carries
      (fun i key value => P i key value ∧ (i = level → key ∉ texts)) Q := by
  intro i t' ht'
  have hmodify : (e.tiers.modify level fun t => t.delete e.now texts)[i]? = some t' := ht'
  rw [List.getElem?_modify] at hmodify
  obtain ⟨t, ht, rfl⟩ := Option.map_eq_some_iff.mp hmodify
  by_cases hlevel : level = i
  · subst hlevel
    rw [if_pos rfl]
    exact ((h level t ht).delete texts).mono (fun key value hp => ⟨hp.1, fun _ => hp.2⟩)
      fun _ _ hq => hq
  · rw [if_neg hlevel]
    exact (h i t ht).mono (fun key value hp => ⟨hp, fun heq => absurd heq.symm hlevel⟩)
      fun _ _ hq => hq

theorem Carries.settle (h : e.Carries P Q) (hQ : ∀ i key value, Q i key value → P i key value) :
    e.settle.Carries P Q' := by
  intro i t' ht'
  have hmap : (e.tiers.map fun t => t.settle e.now)[i]? = some t' := ht'
  rw [List.getElem?_map] at hmap
  obtain ⟨t, ht, rfl⟩ := Option.map_eq_some_iff.mp hmap
  exact (h i t ht).settle (hQ i)

theorem landed_eq_some {level n : ℕ} {e' : Env ω} (h : Traffic.landed e level n = some e') :
    ∃ t t', e.tiers[level]? = some t ∧ t.land e.now n = some t' ∧
      e' = { e with tiers := e.tiers.set level t' } := by
  obtain ⟨t, ht, hwritten⟩ := Option.bind_eq_some_iff.mp h
  obtain ⟨t', hland, he⟩ := Option.bind_eq_some_iff.mp hwritten
  exact ⟨t, t', ht, hland, (Option.some.inj he).symm⟩

/-- A batch that is written was queued. -/
theorem Carries.landed (h : e.Carries P Q) (hQ : ∀ i key value, Q i key value → P i key value)
    {level n : ℕ} {e' : Env ω} (he : Traffic.landed e level n = some e') : e'.Carries P Q := by
  obtain ⟨t, t', ht, hland, rfl⟩ := landed_eq_some he
  intro i t'' hi
  by_cases hlevel : level = i
  · subst hlevel
    rw [List.getElem?_set_self (List.getElem?_eq_some_iff.mp ht).1] at hi
    obtain rfl := Option.some.inj hi
    exact (h level t ht).land (hQ level) hland
  · rw [List.getElem?_set_ne hlevel] at hi
    exact h i t'' hi

@[simp] theorem behind_readTier (level : ℕ) (texts : List String) (e : Env ω) :
    (Env.readTier level texts e).2.behind = e.behind := by
  unfold Env.readTier
  split <;> rfl

@[simp] theorem length_readTier (level : ℕ) (texts : List String) (e : Env ω) :
    (Env.readTier level texts e).2.tiers.length = e.tiers.length := by
  unfold Env.readTier
  split
  · exact List.length_set
  · rfl

end Env

/-! ## Computations that keep an invariant -/

/-- A computation that keeps an invariant and whose answers are good. -/
def Keeps {ω α : Type} (I : Env ω → Prop) (x : StateM (Env ω) α) (good : α → Prop) : Prop :=
  ∀ e, I e → I (x e).2 ∧ good (x e).1

namespace Keeps

variable {ω α β : Type} {I : Env ω → Prop} {x : StateM (Env ω) α} {good good' : α → Prop}

theorem pure {a : α} (h : good a) : Keeps I (pure a) good := fun _ he => ⟨he, h⟩

theorem bind {f : α → StateM (Env ω) β} {good' : β → Prop} (hx : Keeps I x good)
    (hf : ∀ a, good a → Keeps I (f a) good') : Keeps I (x >>= f) good' := by
  intro e he
  obtain ⟨hI, hgood⟩ := hx e he
  exact hf _ hgood _ hI

theorem mono (h : Keeps I x good) (hgood : ∀ a, good a → good' a) : Keeps I x good' :=
  fun e he => ⟨(h e he).1, hgood _ (h e he).2⟩

end Keeps

/-! ## Lookups -/

/-- Tiers whose contents pass `P` and whose queues pass `Q`, before something that passes `R`. -/
structure Guarded {ω : Type} (P Q : String → String → Prop) (R : ω → Prop) (e : Env ω) : Prop where
  tiers : e.Carries (fun _ => P) fun _ => Q
  behind : R e.behind

/-- A source that keeps an invariant, with an outcome of each key that passes `A`. -/
def Source.Gives {ω κ ν : Type} [DecidableEq κ] (src : Source ω κ ν) (I : Env ω → Prop)
    (A : κ → Option (Outcome ν) → Prop) : Prop :=
  ∀ keys, Keeps I (src.fetch keys) fun answers => ∀ k ∈ keys, A k (answers.get? k)

section

variable {ω κ ν : Type} [KeyText κ] {P Q : String → String → Prop} {R : ω → Prop}
  {A : κ → Option (Outcome ν) → Prop} {s : Space ν}

/-- Whether what tiers carry of a part of the caches goes together with the outcomes of a
source: what is found is such an outcome, and such an outcome may be queued. -/
structure Fits (P Q : String → String → Prop) (s : Space ν) (A : κ → Option (Outcome ν) → Prop) :
    Prop where
  hit : ∀ k raw v, P (s.tierKey k) raw → s.decode raw = some v → A k (some (.ok v))
  miss : ∀ k o, A k o → A k (some (o.getD (.error (Answers.notFound s.name k))))
  write : ∀ k v, A k (some (.ok v)) → Q (s.tierKey k) (s.encode v)

/-- A source with an outcome of its own for each key: what is written is its value, and a
value of its own may be queued. -/
theorem Fits.exact {outcome : κ → Outcome ν}
    (hread : ∀ k raw, P (s.tierKey k) raw → ∃ v, outcome k = .ok v ∧ raw = s.encode v)
    (hcodec : ∀ v, s.decode (s.encode v) = some v)
    (hwrite : ∀ k v, outcome k = .ok v → Q (s.tierKey k) (s.encode v)) :
    Fits P Q s fun k o => o = some (outcome k) where
  hit k raw v hraw hv := by
    obtain ⟨v', hv', rfl⟩ := hread k raw hraw
    rw [hcodec v'] at hv
    rw [hv', Option.some.inj hv]
  miss k o ho := by rw [ho, Option.getD_some]
  write k v hv := hwrite k v (Option.some.inj hv).symm

variable [DecidableEq κ] {inner : Source ω κ ν}

theorem Source.Gives.cached (hfits : Fits P Q s A) (h : inner.Gives (Guarded P Q R) A) (level : ℕ) :
    (Source.cached s level inner).Gives (Guarded P Q R) A := by
  intro keys e he
  have hread := he.tiers.readTier level (keys.eraseDups.map s.tierKey)
  have hbehind := Env.behind_readTier level (keys.eraseDups.map s.tierKey) e
  have hfound : ∀ k v, Source.hit? s (Env.readTier level (keys.eraseDups.map s.tierKey) e).1 k
      = some v → A k (some (.ok v)) := by
    intro k v hv
    obtain ⟨raw, hraw, hdecode⟩ := Option.bind_eq_some_iff.mp hv
    exact hfits.hit k raw v (he.tiers.found hraw) hdecode
  rcases hr : Env.readTier level (keys.eraseDups.map s.tierKey) e with ⟨found, e1⟩
  rw [hr] at hread hbehind hfound
  have he1 : Guarded P Q R e1 := ⟨hread, by rw [hbehind]; exact he.behind⟩
  have hmissed : ∀ k ∈ keys, Source.hit? s found k = none →
      k ∈ keys.eraseDups.filter fun k => (Source.hit? s found k).isNone := by
    intro k hk hv
    exact List.mem_filter.mpr ⟨List.mem_eraseDups.mpr hk, by rw [hv]; rfl⟩
  cases hm : (keys.eraseDups.filter fun k => (Source.hit? s found k).isNone).isEmpty with
  | true =>
    rw [cached_fetch_of_found _ hr hm]
    refine ⟨he1, fun k hk => ?_⟩
    rw [Answers.get?_ofKeys, if_pos (List.mem_eraseDups.mpr hk)]
    cases hv : Source.hit? s found k with
    | some v =>
      rw [merged_of_hit hv]
      exact hfound k v hv
    | none =>
      have hin := hmissed k hk hv
      rw [List.isEmpty_iff.mp hm] at hin
      exact absurd hin List.not_mem_nil
  | false =>
    obtain ⟨hI, hanswers⟩ :=
      h (keys.eraseDups.filter fun k => (Source.hit? s found k).isNone) e1 he1
    rw [cached_fetch_of_missed _ hr rfl hm rfl]
    have hright : ∀ k ∈ keys, A k (some (Source.merged s found (inner.fetch
        (keys.eraseDups.filter fun k => (Source.hit? s found k).isNone) e1).1 k)) := by
      intro k hk
      cases hv : Source.hit? s found k with
      | some v =>
        rw [merged_of_hit hv]
        exact hfound k v hv
      | none =>
        rw [merged_of_miss hv]
        exact hfits.miss k _ (hanswers k (hmissed k hk hv))
    refine ⟨⟨hI.tiers.enqueue fun item hitem => ?_, hI.behind⟩, fun k hk => ?_⟩
    · -- only values that were fetched are queued
      obtain ⟨k, hk, hsome⟩ := List.mem_filterMap.mp hitem
      have hkeys := List.mem_eraseDups.mp (List.mem_filter.mp hk).1
      have hk' := hright k hkeys
      split at hsome
      · rename_i v hv
        obtain rfl := Option.some.inj hsome
        rw [hv] at hk'
        exact hfits.write k v hk'
      · cases hsome
    · rw [Answers.get?_ofKeys, if_pos (List.mem_eraseDups.mpr hk)]
      exact hright k hk

theorem Source.Gives.layered (hfits : Fits P Q s A) (h : inner.Gives (Guarded P Q R) A) :
    ∀ n level, (Source.layered s inner level n).Gives (Guarded P Q R) A := by
  intro n
  induction n with
  | zero => exact fun _ => h
  | succ n ih => exact fun level => (ih (level + 1)).cached hfits level

/-- Behind any tiers a source gives the same outcomes. -/
theorem Source.Gives.through (hfits : Fits P Q s A) (h : inner.Gives (Guarded P Q R) A) :
    (Source.through s inner).Gives (Guarded P Q R) A :=
  fun keys e he => h.layered hfits e.tiers.length 0 keys e he

/-! ## Forgetting -/

/-- Forgetting deletes the keys from one tier after the other. -/
theorem Env.Carries.forget_layered {Q : ℕ → String → String → Prop}
    (hinner : ∀ keys e, inner.forget keys e = ((), e)) (keys : List κ) :
    ∀ n level {P : ℕ → String → String → Prop} {e : Env ω}, e.Carries P Q →
      ((Source.layered s inner level n).forget keys e).2.Carries
        (fun i key value => P i key value ∧
          (level ≤ i → i < level + n → key ∉ keys.map s.tierKey)) Q ∧
      ((Source.layered s inner level n).forget keys e).2.behind = e.behind ∧
      ((Source.layered s inner level n).forget keys e).2.tiers.length = e.tiers.length := by
  intro n
  induction n with
  | zero =>
    intro level P e h
    have heq : (Source.layered s inner level 0).forget keys e = ((), e) := hinner keys e
    rw [heq]
    exact ⟨h.mono (fun i key value hp => ⟨hp, by omega⟩) fun _ _ _ hq => hq, rfl, rfl⟩
  | succ n ih =>
    intro level P e h
    obtain ⟨hcarries, hbehind, hlength⟩ := ih (level + 1) (h.deleteFrom level (keys.map s.tierKey))
    refine ⟨hcarries.mono (fun i key value hp => ⟨hp.1.1, fun hle hlt => ?_⟩) fun _ _ _ hq => hq,
      hbehind, hlength.trans (List.length_modify ..)⟩
    by_cases hlevel : i = level
    · exact hp.1.2 hlevel
    · exact hp.2 (by omega) (by omega)

/-- After forgetting, no tier has anything written under the keys. -/
theorem Env.Carries.forget {P Q : ℕ → String → String → Prop} {e : Env ω} (h : e.Carries P Q)
    (hinner : ∀ keys e, inner.forget keys e = ((), e)) (keys : List κ) :
    ((Source.through s inner).forget keys e).2.Carries
        (fun i key value => P i key value ∧ key ∉ keys.map s.tierKey) Q ∧
      ((Source.through s inner).forget keys e).2.behind = e.behind := by
  obtain ⟨hcarries, hbehind, hlength⟩ := h.forget_layered hinner keys e.tiers.length 0
  refine ⟨fun i t ht => ?_, hbehind⟩
  have hi : i < e.tiers.length := hlength ▸ (List.getElem?_eq_some_iff.mp ht).1
  exact (hcarries i t ht).mono (fun key value hp => ⟨hp.1, hp.2 (Nat.zero_le i) (by omega)⟩)
    fun _ _ hq => hq

end

end RegionPricing.Factor
