import RegionPricing.Proofs.Factor.ByKey
import RegionPricing.Proofs.Factor.Staleness

/-!
# What a lookup asks and writes

A lookup through tiers asks the source behind them once, for the keys that no tier has a
readable value for (`Env.missing`), or not at all when there are none. To each tier it queues
the values that were found further away, under the keys that neither this tier nor any nearer
one had. `Source.Looked` says so of the tiers from a level on; it holds of a source without
tiers, and a tier in front keeps it (`Source.Looked.cached`), so it holds of any number of tiers
(`Source.looked_layered`). `Source.asks_what_no_tier_has` is what that comes to for all tiers.
-/

namespace RegionPricing.Cache

/-- A queue with a batch more, if there is anything in it. -/
def queueing (items : List (String × String)) (queued : List (List (String × String))) :
    List (List (String × String)) :=
  if items.isEmpty then queued else queued ++ [items]

theorem Tier.queued_enqueue (t : Tier) (items : List (String × String)) :
    (t.enqueue items).queued = queueing items t.queued := by
  unfold enqueue queueing
  split <;> rfl

end RegionPricing.Cache

namespace RegionPricing.Factor

open RegionPricing.Cache

namespace Env

variable {ω κ ν : Type} [KeyText κ]

/-- Whether the tier at a level holds a live entry for a key, and one that can be read. -/
def Has (s : Space ν) (e : Env ω) (level : ℕ) (k : κ) : Prop :=
  ∃ t c entry v, e.tiers[level]? = some t ∧ t.storage = .expiring c ∧
    c.Holds (s.tierKey k) entry ∧ e.now < entry.expiresAt ∧ s.decode entry.value = some v

/-- The keys that none of so many tiers, from a level on, has a readable value for. -/
def missing (s : Space ν) (e : Env ω) (level n : ℕ) (keys : List κ) : List κ :=
  keys.filter fun k => (e.nearest s k level n).isNone

/-- What is queued in the tier at a level. -/
def queuedAt (e : Env ω) (level : ℕ) : Option (List (List (String × String))) :=
  e.tiers[level]?.map Tier.queued

variable {s : Space ν} {e e' : Env ω} {level n : ℕ} {k : κ} {keys : List κ}

/-! ## Keys that tiers have -/

theorem missing_congr (h : e'.sees = e.sees) :
    e'.missing s level n keys = e.missing s level n keys := by
  unfold missing
  simp only [nearest_congr h]

/-- A key is missing in tiers when each of them lacks it. -/
theorem nearest_eq_none_iff : e.nearest s k level n = none ↔
    ∀ i, level ≤ i → i < level + n → e.readable s i k = none := by
  induction n generalizing level with
  | zero => exact ⟨fun _ i _ _ => by omega, fun _ => rfl⟩
  | succ n ih =>
    rw [nearest, Option.or_eq_none_iff, ih]
    constructor
    · rintro ⟨hfirst, hrest⟩ i hle hlt
      rcases Nat.eq_or_lt_of_le hle with rfl | hbeyond
      · exact hfirst
      · exact hrest i hbeyond (by omega)
    · intro h
      exact ⟨h level (Nat.le_refl _) (by omega), fun i hle hlt => h i (by omega) (by omega)⟩

/-- What is missing in a tier and in the ones behind it. -/
theorem missing_succ : e.missing s level (n + 1) keys
    = e.missing s (level + 1) n (keys.filter fun k => (e.readable s level k).isNone) := by
  rw [missing, missing, List.filter_filter]
  refine List.filter_congr fun k _ => ?_
  rw [nearest, Option.isNone_or, Bool.and_comm]

theorem missing_one : e.missing s level 1 keys
    = keys.filter fun k => (e.readable s level k).isNone := by
  rw [missing_succ]
  exact List.filter_eq_self.mpr fun _ _ => rfl

theorem missing_nil : e.missing s level n ([] : List κ) = [] := rfl

/-- Tiers that hold their entries in memory, or fail every call, have a readable value for
exactly the keys that they hold a live entry for that can be read. -/
theorem readable_isSome_iff (hlocal : ∀ t ∈ e.tiers,
    t.storage = .broken ∨ ∃ c, t.storage = .expiring c) :
    (e.readable s level k).isSome = true ↔ e.Has s level k := by
  rw [Option.isSome_iff_exists]
  constructor
  · rintro ⟨v, hv⟩
    obtain ⟨text, htext, hdecode⟩ := Option.bind_eq_some_iff.mp hv
    obtain ⟨t, ht, hsees⟩ := Option.bind_eq_some_iff.mp htext
    rcases hlocal t (List.mem_of_getElem? ht) with hbroken | ⟨c, hc⟩
    · rw [Tier.sees, hbroken] at hsees
      cases hsees
    · rw [Tier.sees, hc] at hsees
      obtain ⟨entry, hholds, rfl, hlive⟩ := Expiring.peek_eq_some_iff.mp hsees
      exact ⟨t, c, entry, v, ht, hc, hholds, hlive, hdecode⟩
  · rintro ⟨t, c, entry, v, ht, hc, hholds, hlive, hdecode⟩
    have hsees : t.sees e.now (s.tierKey k) = some entry.value := by
      rw [Tier.sees, hc]
      exact Expiring.peek_eq_some_iff.mpr ⟨entry, hholds, rfl, hlive⟩
    exact ⟨v, by rw [readable, sees, ht, Option.bind_some, hsees, Option.bind_some, hdecode]⟩

theorem mem_missing_iff (hlocal : ∀ t ∈ e.tiers,
    t.storage = .broken ∨ ∃ c, t.storage = .expiring c) :
    k ∈ e.missing s level n keys ↔
      k ∈ keys ∧ ∀ i, level ≤ i → i < level + n → ¬e.Has s i k := by
  rw [missing, List.mem_filter, Option.isNone_iff_eq_none, nearest_eq_none_iff]
  refine and_congr_right fun _ => forall_congr' fun i => ?_
  rw [← readable_isSome_iff hlocal, Option.not_isSome_iff_eq_none]

/-! ## Queues -/

theorem queuedAt_readTier (e : Env ω) (level : ℕ) (texts : List String) (i : ℕ) :
    (readTier level texts e).2.queuedAt i = e.queuedAt i := by
  unfold readTier queuedAt
  split
  next t ht =>
    show (e.tiers.set level (t.read e.now texts).2)[i]?.map Tier.queued = _
    by_cases hlevel : level = i
    · subst hlevel
      rw [List.getElem?_set_self (List.getElem?_eq_some_iff.mp ht).1, ht]
      exact congrArg some (t.queued_read e.now texts)
    · rw [List.getElem?_set_ne hlevel]
  next => rfl

theorem queuedAt_enqueue (e : Env ω) (level : ℕ) (items : List (String × String)) (i : ℕ) :
    (enqueue level items e).2.queuedAt i =
      if level = i then (e.queuedAt i).map (queueing items) else e.queuedAt i := by
  show (e.tiers.modify level fun t => t.enqueue items)[i]?.map Tier.queued = _
  split
  next hlevel =>
    subst hlevel
    rw [List.getElem?_modify_eq, queuedAt]
    cases e.tiers[level]? with
    | none => rfl
    | some t => exact congrArg some (t.queued_enqueue items)
  next hlevel =>
    rw [List.getElem?_modify_ne _ _ hlevel]
    rfl

end Env

namespace Source

/-- A source behind the tiers, whatever it does to be told to forget keys. -/
def asking {ω κ ν : Type} [DecidableEq κ] (fetch : List κ → StateM ω (Answers κ ν))
    (forget : List κ → StateM (Env ω) Unit) : Source ω κ ν :=
  ⟨fun keys => Env.direct (fetch keys), forget⟩

theorem toWrite_congr {κ ν : Type} [KeyText κ] {s : Space ν} {keys : List κ}
    {outcome outcome' : κ → Outcome ν} (h : ∀ k ∈ keys, outcome k = outcome' k) :
    toWrite s keys outcome = toWrite s keys outcome' :=
  List.filterMap_congr fun k hk => by rw [h k hk]

section

variable {ω κ ν : Type} [DecidableEq κ] [KeyText κ]

/-- The outcome of a key in some answers, which may leave it out. -/
def given (s : Space ν) (answers : Answers κ ν) (k : κ) : Outcome ν :=
  (answers.get? k).getD (.error (Answers.notFound s.name k))

/-- What a lookup of keys without repeats through some tiers, from a level on, asks, answers
and queues. -/
structure Looked (s : Space ν) (fetch : List κ → StateM ω (Answers κ ν)) (e : Env ω)
    (level n : ℕ) (keys : List κ) (r : Answers κ ν × Env ω) : Prop where
  now : r.2.now = e.now
  sees : r.2.sees = e.sees
  behind : r.2.behind = if e.missing s level n keys = [] then e.behind
    else (fetch (e.missing s level n keys) e.behind).2
  outcome : ∀ k ∈ keys, given s r.1 k =
    preferring (given s (fetch (e.missing s level n keys) e.behind).1)
      (fun k => e.nearest s k level n) k
  queued : ∀ i, r.2.queuedAt i = if level ≤ i ∧ i < level + n then
      (e.queuedAt i).map (queueing (toWrite s (e.missing s level (i + 1 - level) keys)
        (given s r.1)))
    else e.queuedAt i

variable {s : Space ν} {fetch : List κ → StateM ω (Answers κ ν)}
  {forget : List κ → StateM (Env ω) Unit} {e : Env ω} {level n : ℕ} {keys : List κ}

/-- Without tiers the source gets the keys, of which there are some. -/
theorem looked_asking (hkeys : keys ≠ []) :
    Looked s fetch e level 0 keys ((asking fetch forget).fetch keys e) := by
  have hall : e.missing s level 0 keys = keys := List.filter_eq_self.mpr fun _ _ => rfl
  refine ⟨rfl, rfl, ?_, fun k _ => ?_, fun i => ?_⟩
  · rw [hall, if_neg hkeys]
    rfl
  · rw [hall]
    rfl
  · rw [if_neg (by omega)]
    rfl

theorem given_ofKeys {outcome : κ → Outcome ν} {k : κ} (hk : k ∈ keys) :
    given s (Answers.ofKeys keys outcome) k = outcome k := by
  rw [given, Answers.get?_ofKeys, if_pos hk, Option.getD_some]

/-- What reading a tier finds of some keys; it leaves all else as it is. -/
structure ReadOf (s : Space ν) (e : Env ω) (level : ℕ) (keys : List κ)
    (r : KeyMap String String × Env ω) : Prop where
  now : r.2.now = e.now
  sees : r.2.sees = e.sees
  behind : r.2.behind = e.behind
  queued : ∀ i, r.2.queuedAt i = e.queuedAt i
  hit : ∀ k ∈ keys, hit? s r.1 k = e.readable s level k

omit [DecidableEq κ] in
theorem readOf_readTier (s : Space ν) (e : Env ω) (level : ℕ) (keys : List κ) :
    ReadOf s e level keys (Env.readTier level (keys.map s.tierKey) e) where
  now := e.now_readTier level _
  sees := e.sees_readTier level _
  behind := Env.behind_readTier level _ e
  queued := e.queuedAt_readTier level _
  hit k hk := by
    rw [hit?, e.get?_readTier, if_pos (List.mem_map_of_mem hk)]
    rfl

section

variable {r : KeyMap String String × Env ω} (h : ReadOf s e level keys r)

include h

/-- A tier that has all keys: nothing is asked or queued. -/
theorem ReadOf.looked_of_found
    (hall : keys.filter (fun k => (e.readable s level k).isNone) = []) :
    Looked s fetch e level (n + 1) keys (.ofKeys keys (merged s r.1 .empty), r.2) where
  now := h.now
  sees := h.sees
  behind := by
    rw [Env.missing_succ, hall, if_pos Env.missing_nil]
    exact h.behind
  outcome k hk := by
    obtain ⟨v, hv⟩ : ∃ v, e.readable s level k = some v := by
      rw [← Option.ne_none_iff_exists']
      simpa using List.filter_eq_nil_iff.mp hall k hk
    have hnearest : e.nearest s k level (n + 1) = some v := by
      rw [Env.nearest, hv]
      rfl
    rw [given_ofKeys hk, merged_of_hit ((h.hit k hk).trans hv), preferring, hnearest]
    rfl
  queued i := by
    rw [h.queued i]
    split
    next hlevel =>
      obtain ⟨m, hm⟩ : ∃ m, i + 1 - level = m + 1 := ⟨i - level, by omega⟩
      rw [hm, Env.missing_succ, hall, Env.missing_nil]
      exact Option.map_id.symm ▸ rfl
    next => rfl

/-- A tier that lacks some keys: the source further away is asked for them, and what it has is
queued. -/
theorem ReadOf.looked_of_missed {f : Answers κ ν × Env ω}
    (hfar : Looked s fetch r.2 (level + 1) n
      (keys.filter fun k => (e.readable s level k).isNone) f) :
    Looked s fetch e level (n + 1) keys (.ofKeys keys (merged s r.1 f.1),
      (Env.enqueue level (toWrite s (keys.filter fun k => (e.readable s level k).isNone)
        (merged s r.1 f.1)) f.2).2) := by
  have hmissing : ∀ m, e.missing s level (m + 1) keys = r.2.missing s (level + 1) m
      (keys.filter fun k => (e.readable s level k).isNone) := fun m => by
    rw [Env.missing_succ, Env.missing_congr h.sees]
  -- a key that the tier lacks gets the outcome from further away
  have hmiss : ∀ k ∈ keys, e.readable s level k = none →
      merged s r.1 f.1 k = given s f.1 k := fun k hk hnone =>
    merged_of_miss ((h.hit k hk).trans hnone)
  have hlacks : ∀ m, ∀ k ∈ e.missing s level (m + 1) keys,
      k ∈ keys ∧ e.readable s level k = none := by
    intro m k hk
    rw [hmissing] at hk
    obtain ⟨hkeys, hnone⟩ := List.mem_filter.mp (List.mem_filter.mp hk).1
    exact ⟨hkeys, Option.isNone_iff_eq_none.mp hnone⟩
  refine ⟨hfar.now.trans h.now, ?_, ?_, fun k hk => ?_, fun i => ?_⟩
  · rw [Env.sees_enqueue, hfar.sees, h.sees]
  · show f.2.behind = _
    rw [hfar.behind, hmissing, h.behind]
  · rw [given_ofKeys hk, hmissing, ← h.behind]
    cases hv : e.readable s level k with
    | some v =>
      have hnearest : e.nearest s k level (n + 1) = some v := by
        rw [Env.nearest, hv]
        rfl
      rw [merged_of_hit ((h.hit k hk).trans hv), preferring, hnearest]
      rfl
    | none =>
      have hnearest : e.nearest s k level (n + 1) = r.2.nearest s k (level + 1) n := by
        rw [Env.nearest, hv, Env.nearest_congr h.sees]
        rfl
      rw [hmiss k hk hv, hfar.outcome k (List.mem_filter.mpr ⟨hk, by rw [hv]; rfl⟩), preferring,
        preferring, hnearest]
  · rw [Env.queuedAt_enqueue, hfar.queued, h.queued]
    by_cases hi : level = i
    · subst hi
      have hone : level + 1 - level = 0 + 1 := by omega
      rw [if_pos rfl, if_neg (by omega), if_pos ⟨Nat.le_refl _, by omega⟩, hone,
        Env.missing_one]
      rw [toWrite_congr fun k hk => (given_ofKeys (List.mem_filter.mp hk).1).symm]
    · rw [if_neg hi]
      by_cases hbeyond : level ≤ i ∧ i < level + (n + 1)
      · obtain ⟨m, hm⟩ : ∃ m, i + 1 - level = m + 1 := ⟨i - level, by omega⟩
        have hm' : i + 1 - (level + 1) = m := by omega
        rw [if_pos hbeyond, if_pos (by omega), hm, hm', hmissing,
          toWrite_congr fun k hk => ?_]
        rw [← hmissing] at hk
        obtain ⟨hkeys, hnone⟩ := hlacks m k hk
        rw [given_ofKeys hkeys, hmiss k hkeys hnone]
      · rw [if_neg hbeyond, if_neg (by omega)]

end

/-- A tier in front of a source that does so. -/
theorem Looked.cached {inner : Source ω κ ν}
    (hinner : ∀ missed, missed ≠ [] → missed.Nodup → ∀ e',
      Looked s fetch e' (level + 1) n missed (inner.fetch missed e'))
    (keys : List κ) (e : Env ω) :
    Looked s fetch e level (n + 1) keys.eraseDups ((Source.cached s level inner).fetch keys e) := by
  have hread := readOf_readTier s e level keys.eraseDups
  have hmissed : keys.eraseDups.filter (fun k => (hit? s
      (Env.readTier level (keys.eraseDups.map s.tierKey) e).1 k).isNone)
      = keys.eraseDups.filter fun k => (e.readable s level k).isNone :=
    List.filter_congr fun k hk => by rw [hread.hit k hk]
  by_cases hnone : keys.eraseDups.filter (fun k => (e.readable s level k).isNone) = []
  · rw [cached_fetch_of_found inner rfl (by rw [hmissed, hnone]; rfl)]
    exact hread.looked_of_found hnone
  · rw [cached_fetch_of_missed inner rfl hmissed (List.isEmpty_eq_false_iff.mpr hnone) rfl]
    exact hread.looked_of_missed
      (hinner _ hnone ((Answers.nodup_eraseDups keys).filter _) _)

/-- So many tiers in front of a source, from any level on. -/
theorem looked_layered (n level : ℕ) (keys : List κ) (hkeys : keys ≠ []) (hnodup : keys.Nodup)
    (e : Env ω) :
    Looked s fetch e level n keys ((layered s (asking fetch forget) level n).fetch keys e) := by
  induction n generalizing level keys e with
  | zero => exact looked_asking hkeys
  | succ n ih =>
    have hcached := Looked.cached (fun missed hmissed hnodup' e' =>
      ih (level + 1) missed hmissed hnodup' e') keys e
    rw [Answers.eraseDups_of_nodup hnodup] at hcached
    exact hcached

/-- A tier answers each key once. -/
theorem keys_cached (inner : Source ω κ ν) (keys : List κ) (e : Env ω) :
    ((Source.cached s level inner).fetch keys e).1.keys = keys.eraseDups := by
  have hkeys : ∀ outcome : κ → Outcome ν,
      (Answers.ofKeys keys.eraseDups outcome).keys = keys.eraseDups := by
    intro outcome
    have hfst : (keys.eraseDups.map fun k => (k, outcome k)).map Prod.fst = keys.eraseDups := by
      rw [List.map_map]
      exact List.map_id _
    rw [Answers.ofKeys, KeyMap.keys_ofList (hfst.symm ▸ Answers.nodup_eraseDups keys), hfst]
  cases hm : (keys.eraseDups.filter fun k => (hit? s
      (Env.readTier level (keys.eraseDups.map s.tierKey) e).1 k).isNone).isEmpty with
  | true =>
    rw [cached_fetch_of_found inner rfl hm]
    exact hkeys _
  | false =>
    rw [cached_fetch_of_missed inner rfl rfl hm rfl]
    exact hkeys _

/-- A lookup through tiers, each in memory or failing every call. `lacking n` are the keys, each
once and in the order in which they first came, that none of the nearest `n` tiers holds a live
entry for that can be read. With a tier at least, the source is asked once, for those that all
tiers lack, and not at all when there are none. Every key has one outcome. Each tier is given the
values of the keys that it and all nearer tiers lack, and nothing else. Without tiers the source is
asked for the keys as they are. -/
theorem asks_what_no_tier_has (s : Space ν) (fetch : List κ → StateM ω (Answers κ ν))
    (forget : List κ → StateM (Env ω) Unit) (keys : List κ) (e : Env ω)
    (hlocal : ∀ t ∈ e.tiers, t.storage = .broken ∨ ∃ c, t.storage = .expiring c) :
    let r := (Source.through s (asking fetch forget)).fetch keys e
    let lacking n := e.missing s 0 n keys.eraseDups
    let asked := lacking e.tiers.length
    (e.tiers = [] →
      r = ((fetch keys e.behind).1, { e with behind := (fetch keys e.behind).2 })) ∧
    (e.tiers ≠ [] →
      (∀ n, (lacking n).Sublist keys.eraseDups ∧
        ∀ k, k ∈ lacking n ↔ k ∈ keys ∧ ∀ i < n, ¬e.Has s i k) ∧
      r.2.behind = (if asked = [] then e.behind else (fetch asked e.behind).2) ∧
      r.1.keys = keys.eraseDups ∧
      (∀ k ∈ keys, r.1.get? k = some (preferring (given s (fetch asked e.behind).1)
        (fun k => e.nearest s k 0 e.tiers.length) k)) ∧
      r.2.now = e.now ∧ r.2.sees = e.sees ∧
      ∀ i, r.2.queuedAt i =
        (e.queuedAt i).map (queueing (toWrite s (lacking (i + 1)) (given s r.1)))) := by
  intro r lacking asked
  refine ⟨fun hnone => ?_, fun hsome => ?_⟩
  · show (layered s (asking fetch forget) 0 e.tiers.length).fetch keys e = _
    rw [List.length_eq_zero_iff.mpr hnone]
    rfl
  obtain ⟨n, hn⟩ := Nat.exists_eq_succ_of_ne_zero
    (Nat.ne_of_gt (List.length_pos_iff.mpr hsome))
  have hr : r = (Source.cached s 0 (layered s (asking fetch forget) 1 n)).fetch keys e := by
    show (layered s (asking fetch forget) 0 e.tiers.length).fetch keys e = _
    rw [hn]
    rfl
  have hlooked : Looked s fetch e 0 e.tiers.length keys.eraseDups r := by
    rw [hr, hn]
    exact Looked.cached (fun missed hmissed hnodup e' =>
      looked_layered n 1 missed hmissed hnodup e') keys e
  have hkeys : r.1.keys = keys.eraseDups := by
    rw [hr]
    exact keys_cached _ keys e
  refine ⟨fun n => ⟨List.filter_sublist, fun k => ?_⟩, hlooked.behind, hkeys, fun k hk => ?_,
    hlooked.now, hlooked.sees, fun i => ?_⟩
  · rw [Env.mem_missing_iff hlocal, List.mem_eraseDups]
    simp
  · have hmem : k ∈ r.1.keys := hkeys ▸ List.mem_eraseDups.mpr hk
    obtain ⟨o, ho⟩ := Option.ne_none_iff_exists'.mp
      fun hnone => KeyMap.get?_eq_none_iff.mp hnone hmem
    have hgiven := hlooked.outcome k (List.mem_eraseDups.mpr hk)
    rw [given, ho, Option.getD_some] at hgiven
    rw [ho, hgiven]
  · rw [hlooked.queued i]
    split
    next => rfl
    next hbeyond =>
      have hnone : e.queuedAt i = none := by
        rw [Env.queuedAt, List.getElem?_eq_none (by omega), Option.map_none]
      rw [hnone, Option.map_none]

end

end Source

namespace Table

/-- A tier that fails in front of one that has the value of one key, and a table with the value
of another. -/
def halfKnown : Env (Table Id Bool) where
  now := 0
  tiers := [⟨.broken, 5, []⟩,
    ⟨.expiring ((Expiring.empty 10 .asWritten).set 0 7 "flags:1" "true"), 7, []⟩]
  behind := (Table.empty false).put 2 (.ok false)

theorem asks_what_no_tier_has_flags :
    let r := (Source.through flags source).fetch [1, 2, 1, 3] halfKnown
    r.2.behind.asked = [[2, 3]] ∧ r.1.keys = [1, 2, 3] ∧
      r.2.queuedAt 0 = some [[("flags:1", "true"), ("flags:2", "false")]] ∧
      r.2.queuedAt 1 = some [[("flags:2", "false")]] := by
  intro r
  have hlocal : ∀ t ∈ halfKnown.tiers, t.storage = .broken ∨ ∃ c, t.storage = .expiring c := by
    intro t ht
    simp only [halfKnown, List.mem_cons, List.not_mem_nil, or_false] at ht
    rcases ht with rfl | rfl
    · exact .inl rfl
    · exact .inr ⟨_, rfl⟩
  obtain ⟨_, hbehind, hkeys, _, _, _, hqueued⟩ :=
    (Source.asks_what_no_tier_has flags _ source.forget [1, 2, 1, 3] halfKnown hlocal).2
      (by decide)
  refine ⟨(congrArg Table.asked hbehind).trans ?_, hkeys, (hqueued 0).trans ?_,
    (hqueued 1).trans ?_⟩
  · decide +kernel
  · decide +kernel
  · decide +kernel

/-- Without tiers the table is asked for the keys as they stand, and even when there are
none. -/
theorem asked_without_tiers :
    let e : Env (Table Id Bool) := ⟨0, [], .empty false⟩
    ((Source.through flags source).fetch [5, 5] e).2.behind.asked = [[5, 5]] ∧
      e.missing flags 0 0 [5, 5].eraseDups = ([5] : List Id) ∧
      ((Source.through flags source).fetch [] e).2.behind.asked = [[]] := by
  decide +kernel

end Table

end RegionPricing.Factor
