import RegionPricing.Proofs.Factor.Carrying

/-!
# Answers told by the key

A tier has under each text what it has, whatever is read with it (`Tier.get?_read`), and a
lookup takes nothing away that could be found and only queues what it adds. So the
environments that one lookup runs through are `Alike`, and a source that gives each key an
outcome of its own there (`Source.GivesEach`) still does so behind any tiers: the readable
value of the nearest tier, or else its own outcome (`Source.GivesEach.layered`). A tier asks
for each key once, so the source behind it needs to do so only for keys that stand once in what
it is asked (`Once`).

`Source.KeyByKey` is what that comes to for whoever asks: exactly the keys asked for have an
outcome, each has the one that it has alone, and repeats do not matter.
-/

namespace RegionPricing.Cache

/-! ## What a tier has under a text -/

/-- What a storage finds under a key; nothing when it fails. -/
def Storage.sees (s : Storage) (now : ℕ) (key : String) : Option String :=
  match s with
  | .expiring c => c.peek now key
  | .remote r => if r.server.failing then none else r.server.read now (r.fullKey key)
  | .broken => none

/-- What a tier finds under a key. -/
def Tier.sees (t : Tier) (now : ℕ) (key : String) : Option String := t.storage.sees now key

namespace Storage

/-- Looking up takes nothing away that could be found. -/
theorem sees_getMany (s : Storage) (now : ℕ) (keys : List String) :
    (s.getMany now keys).2.sees now = s.sees now := by
  funext key
  cases s with
  | expiring c => exact (c.getMany_peek now keys key).1
  | remote r =>
    obtain ⟨server, hs, hcontents, hfailing⟩ := getMany_remote r now keys
    rw [hs]
    simp only [sees, hfailing, Server.read, hcontents]
    rfl
  | broken => rfl

/-- What is found under a key, whatever is looked up with it. -/
theorem get?_getMany (s : Storage) (now : ℕ) (keys : List String) (key : String) :
    (((s.getMany now keys).1.toOption).bind fun found => found.get? key)
      = if key ∈ keys then s.sees now key else none := by
  cases s with
  | expiring c => exact (c.getMany_peek now keys key).2
  | broken => exact (ite_self none).symm
  | remote r =>
    show ((r.getMany now keys).1.toOption.bind fun found => found.get? key) = _
    unfold Remote.getMany
    cases keys with
    | nil => rfl
    | cons first rest =>
      rw [if_neg (by simp)]
      cases hfailing : r.server.failing with
      | true =>
        rw [Server.execute_of_failing hfailing]
        simp [sees, hfailing, Except.toOption]
      | false =>
        rw [Server.execute_of_works hfailing]
        -- the log is no part of what is read
        have hread : (((first :: rest).zip (((first :: rest).map r.fullKey).map
              (r.server.read now))).filterMap fun e => e.2.map fun v => (e.1, v))
            = (first :: rest).filterMap fun k =>
                (r.server.read now (r.fullKey k)).map fun v => (k, v) := by
          rw [List.map_map, ← List.map_prod_left_eq_zip, List.filterMap_map]
          rfl
        show (KeyMap.ofList (((first :: rest).zip (((first :: rest).map r.fullKey).map
          (r.server.read now))).filterMap fun e => e.2.map fun v => (e.1, v))).get? key = _
        rw [hread, KeyMap.get?_ofList_filterMap]
        simp only [sees, hfailing]
        rfl

end Storage

namespace Tier

variable (t : Tier) (now : ℕ)

theorem get?_read (keys : List String) (key : String) :
    (t.read now keys).1.get? key = if key ∈ keys then t.sees now key else none := by
  have h := t.storage.get?_getMany now keys key
  unfold read
  rcases hr : t.storage.getMany now keys with ⟨_ | found, storage⟩ <;> rw [hr] at h <;> exact h

theorem sees_read (keys : List String) : (t.read now keys).2.sees now = t.sees now := by
  rw [read_snd]
  exact t.storage.sees_getMany now keys

theorem sees_enqueue (items : List (String × String)) :
    (t.enqueue items).sees now = t.sees now := by
  unfold enqueue
  split <;> rfl

end Tier

end RegionPricing.Cache

namespace RegionPricing.Factor

open RegionPricing.Cache

/-! ## Environments that one lookup runs through -/

namespace Env

variable {ω : Type}

/-- What the tier at a level finds under a text. -/
def sees (e : Env ω) (level : ℕ) (text : String) : Option String :=
  e.tiers[level]?.bind fun t => t.sees e.now text

theorem get?_readTier (e : Env ω) (level : ℕ) (texts : List String) (text : String) :
    (readTier level texts e).1.get? text = if text ∈ texts then e.sees level text else none := by
  unfold readTier sees
  cases e.tiers[level]? with
  | none => exact (ite_self none).symm
  | some t => exact t.get?_read e.now texts text

theorem now_readTier (e : Env ω) (level : ℕ) (texts : List String) :
    (readTier level texts e).2.now = e.now := by
  unfold readTier
  split <;> rfl

theorem sees_readTier (e : Env ω) (level : ℕ) (texts : List String) :
    (readTier level texts e).2.sees = e.sees := by
  unfold readTier
  split
  next t ht =>
    funext i text
    show ((e.tiers.set level _)[i]?.bind fun t => t.sees e.now text) = _
    by_cases hlevel : level = i
    · subst hlevel
      rw [List.getElem?_set_self (List.getElem?_eq_some_iff.mp ht).1, sees, ht]
      exact congrFun (t.sees_read e.now texts) text
    · rw [List.getElem?_set_ne hlevel]
      rfl
  next => rfl

theorem sees_enqueue (e : Env ω) (level : ℕ) (items : List (String × String)) :
    (enqueue level items e).2.sees = e.sees := by
  funext i text
  show ((e.tiers.modify level _)[i]?.bind fun t => t.sees e.now text) = _
  by_cases hlevel : level = i
  · subst hlevel
    rw [List.getElem?_modify_eq, sees]
    cases e.tiers[level]? with
    | none => rfl
    | some t => exact congrFun (t.sees_enqueue e.now items) text
  · rw [List.getElem?_modify_ne _ _ hlevel]
    rfl

end Env

/-- Environments at the time of a first one, with as many tiers, which find the same as there,
before something that passes `R`. -/
structure Alike {ω : Type} (R : ω → Prop) (e₀ e : Env ω) : Prop where
  now : e.now = e₀.now
  length : e.tiers.length = e₀.tiers.length
  sees : e.sees = e₀.sees
  behind : R e.behind

theorem Alike.refl {ω : Type} {R : ω → Prop} {e : Env ω} (h : R e.behind) : Alike R e e :=
  ⟨rfl, rfl, rfl, h⟩

section

variable {ω : Type} {R : ω → Prop} {e₀ e : Env ω}

theorem Alike.readTier (h : Alike R e₀ e) (level : ℕ) (texts : List String) :
    Alike R e₀ (Env.readTier level texts e).2 where
  now := (e.now_readTier level texts).trans h.now
  length := (Env.length_readTier level texts e).trans h.length
  sees := (e.sees_readTier level texts).trans h.sees
  behind := by
    rw [Env.behind_readTier]
    exact h.behind

theorem Alike.enqueue (h : Alike R e₀ e) (level : ℕ) (items : List (String × String)) :
    Alike R e₀ (Env.enqueue level items e).2 :=
  ⟨h.now, (List.length_modify ..).trans h.length, (e.sees_enqueue level items).trans h.sees,
    h.behind⟩

end

/-! ## Readable values -/

namespace Env

variable {ω κ ν : Type} [KeyText κ]

/-- The readable value that the tier at a level has for a key. -/
def readable (s : Space ν) (e : Env ω) (level : ℕ) (key : κ) : Option ν :=
  (e.sees level (s.tierKey key)).bind s.decode

/-- The readable value for a key in the nearest of so many tiers, from a level on. -/
def nearest (s : Space ν) (e : Env ω) (key : κ) (level : ℕ) : ℕ → Option ν
  | 0 => none
  | n + 1 => (e.readable s level key).or (nearest s e key (level + 1) n)

section

variable {ω' : Type} {s : Space ν} {e : Env ω} {e' : Env ω'} {k : κ} {level n : ℕ}

theorem readable_congr (h : e'.sees = e.sees) : e'.readable s level k = e.readable s level k := by
  rw [readable, h]
  rfl

/-- What is behind the tiers does not matter. -/
theorem nearest_congr (h : e'.sees = e.sees) :
    e'.nearest s k level n = e.nearest s k level n := by
  induction n generalizing level with
  | zero => rfl
  | succ n ih => rw [nearest, nearest, readable_congr h, ih]

end

end Env

/-! ## Sources with an outcome of its own for each key -/

variable {ω κ ν : Type}

/-- The outcome of a key where a tier may have a value. -/
def preferring (outcome : κ → Outcome ν) (found : κ → Option ν) (key : κ) : Outcome ν :=
  (found key).elim (outcome key) .ok

theorem preferring_preferring (outcome : κ → Outcome ν) (near far : κ → Option ν) :
    preferring (preferring outcome far) near = preferring outcome fun k => (near k).or (far k) := by
  funext k
  unfold preferring
  cases hnear : near k <;> simp [hnear]

variable [DecidableEq κ]

/-- A key that stands once in a list. -/
def Once (keys : List κ) (k : κ) : Prop := keys.count k = 1

theorem once_of_nodup {keys : List κ} {k : κ} (h : keys.Nodup) (hk : k ∈ keys) : Once keys k :=
  List.count_eq_one_of_mem h hk

/-- A source that keeps an invariant, and gives each key of a list, where it is settled there,
an outcome of its own, and a key that is not in the list none. -/
def Source.GivesEach (src : Source ω κ ν) (I : Env ω → Prop) (settled : List κ → κ → Prop)
    (outcome : κ → Outcome ν) : Prop :=
  ∀ keys, Keeps I (src.fetch keys) fun answers =>
    ∀ k, (k ∈ keys → settled keys k) →
      answers.get? k = if k ∈ keys then some (outcome k) else none

section

variable {src : Source ω κ ν} {I : Env ω → Prop} {settled settled' : List κ → κ → Prop}
  {outcome : κ → Outcome ν}

theorem Source.GivesEach.mono (h : src.GivesEach I settled outcome)
    (hsettled : ∀ keys k, settled' keys k → settled keys k) : src.GivesEach I settled' outcome :=
  fun keys => (h keys).mono fun _ hanswers k hk =>
    hanswers k fun hmem => hsettled keys k (hk hmem)

/-- Keys without repeats are all settled. -/
theorem Source.GivesEach.of_nodup (h : src.GivesEach I Once outcome) {keys : List κ}
    (hkeys : keys.Nodup) : Keeps I (src.fetch keys) fun answers =>
      ∀ k, answers.get? k = if k ∈ keys then some (outcome k) else none :=
  (h keys).mono fun _ hanswers k => hanswers k (once_of_nodup hkeys)

end

section

variable [KeyText κ] {inner : Source ω κ ν} {R : ω → Prop} {e₀ : Env ω} {s : Space ν}
  {outcome : κ → Outcome ν}

/-- Behind a tier a source gives each key its readable value there, or else its own
outcome. The tier asks it for each key at most once. -/
theorem Source.GivesEach.cached (h : inner.GivesEach (Alike R e₀) Once outcome)
    (level : ℕ) : (Source.cached s level inner).GivesEach (Alike R e₀) (fun _ _ => True)
      (preferring outcome (e₀.readable s level)) := by
  intro keys e he
  have hread := he.readTier level (keys.eraseDups.map s.tierKey)
  have hfound : ∀ k ∈ keys, Source.hit? s
      (Env.readTier level (keys.eraseDups.map s.tierKey) e).1 k = e₀.readable s level k := by
    intro k hk
    rw [Source.hit?, e.get?_readTier, he.sees,
      if_pos (List.mem_map_of_mem (List.mem_eraseDups.mpr hk))]
    rfl
  rcases hr : Env.readTier level (keys.eraseDups.map s.tierKey) e with ⟨found, e1⟩
  rw [hr] at hread hfound
  -- whatever was fetched, a hit is the readable value
  have hhit : ∀ (fetched : Answers κ ν) (k : κ), k ∈ keys →
      (Source.hit? s found k = none → fetched.get? k = some (outcome k)) →
      Source.merged s found fetched k = preferring outcome (e₀.readable s level) k := by
    intro fetched k hk hfetched
    rw [preferring, ← hfound k hk]
    cases hv : Source.hit? s found k with
    | some v => exact merged_of_hit hv
    | none =>
      rw [merged_of_miss hv, hfetched hv]
      rfl
  have hmissed : ∀ k ∈ keys, Source.hit? s found k = none →
      k ∈ keys.eraseDups.filter fun k => (Source.hit? s found k).isNone := by
    intro k hk hv
    exact List.mem_filter.mpr ⟨List.mem_eraseDups.mpr hk, by rw [hv]; rfl⟩
  have hanswer : ∀ fetched : Answers κ ν,
      (∀ k ∈ keys, Source.hit? s found k = none → fetched.get? k = some (outcome k)) →
      ∀ k, (k ∈ keys → True) →
        (Answers.ofKeys keys.eraseDups (Source.merged s found fetched)).get? k
          = if k ∈ keys then some (preferring outcome (e₀.readable s level) k) else none := by
    intro fetched hfetched k _
    rw [Answers.get?_ofKeys]
    by_cases hk : k ∈ keys
    · rw [if_pos (List.mem_eraseDups.mpr hk), if_pos hk, hhit fetched k hk (hfetched k hk)]
    · rw [if_neg (fun hk' => hk (List.mem_eraseDups.mp hk')), if_neg hk]
  cases hm : (keys.eraseDups.filter fun k => (Source.hit? s found k).isNone).isEmpty with
  | true =>
    rw [cached_fetch_of_found _ hr hm]
    refine ⟨hread, hanswer .empty fun k hk hv => ?_⟩
    have hin := hmissed k hk hv
    rw [List.isEmpty_iff.mp hm] at hin
    exact absurd hin List.not_mem_nil
  | false =>
    obtain ⟨hI, hanswers⟩ := h.of_nodup ((Answers.nodup_eraseDups keys).filter fun k =>
      (Source.hit? s found k).isNone) e1 hread
    rw [cached_fetch_of_missed _ hr rfl hm rfl]
    refine ⟨hI.enqueue level _, hanswer _ fun k hk hv => ?_⟩
    rw [hanswers k, if_pos (hmissed k hk hv)]

/-- One tier more. -/
theorem Source.GivesEach.layered_succ {n level : ℕ}
    (h : (Source.layered s inner (level + 1) n).GivesEach (Alike R e₀) Once
      (preferring outcome fun k => e₀.nearest s k (level + 1) n)) :
    (Source.layered s inner level (n + 1)).GivesEach (Alike R e₀) (fun _ _ => True)
      (preferring outcome fun k => e₀.nearest s k level (n + 1)) := by
  have hcached := h.cached (s := s) level
  rw [preferring_preferring] at hcached
  exact hcached

/-- Behind so many tiers a source gives each key the readable value of the nearest one, or
else its own outcome. -/
theorem Source.GivesEach.layered (h : inner.GivesEach (Alike R e₀) Once outcome) :
    ∀ n level, (Source.layered s inner level n).GivesEach (Alike R e₀) Once
      (preferring outcome fun k => e₀.nearest s k level n) := by
  intro n
  induction n with
  | zero => exact fun _ => h
  | succ n ih => exact fun level => (ih (level + 1)).layered_succ.mono fun _ _ _ => trivial

/-- Behind all tiers that there are. -/
theorem Source.GivesEach.through (h : inner.GivesEach (Alike R e₀) Once outcome) :
    (Source.through s inner).GivesEach (Alike R e₀) Once
      (preferring outcome fun k => e₀.nearest s k 0 e₀.tiers.length) := by
  intro keys e he
  have hlayered := h.layered (s := s) e.tiers.length 0 keys e he
  rw [he.length] at hlayered
  show Alike R e₀ ((Source.layered s inner 0 e.tiers.length).fetch keys e).2 ∧ ∀ k, _ →
    ((Source.layered s inner 0 e.tiers.length).fetch keys e).1.get? k = _
  rw [he.length]
  exact hlayered

/-- With a tier in front, keys may be repeated. -/
theorem Source.GivesEach.layered_pos (h : inner.GivesEach (Alike R e₀) Once outcome)
    {n : ℕ} (hn : 0 < n) (level : ℕ) :
    (Source.layered s inner level n).GivesEach (Alike R e₀) (fun _ _ => True)
      (preferring outcome fun k => e₀.nearest s k level n) := by
  obtain ⟨n, rfl⟩ := Nat.exists_eq_succ_of_ne_zero (Nat.ne_of_gt hn)
  exact (h.layered n (level + 1)).layered_succ

end

/-! ## Key by key -/

/-- Answers to lists of keys, seen from outside: exactly the keys asked for have an outcome,
and where a key is settled it has the one that it has when it is asked for alone, and it does not
matter whether keys are repeated. -/
structure Source.KeyByKey (src : Source ω κ ν) (e : Env ω) (settled : List κ → κ → Prop) :
    Prop where
  domain : ∀ keys k, ((src.fetch keys e).1.get? k).isSome = true ↔ k ∈ keys
  alone : ∀ keys, ∀ k ∈ keys, settled keys k →
    (src.fetch keys e).1.get? k = (src.fetch [k] e).1.get? k
  distinct : ∀ keys k, (k ∈ keys → settled keys k) →
    (src.fetch keys e).1.get? k = (src.fetch keys.eraseDups e).1.get? k

/-- What a source gives behind tiers: key by key, whatever is repeated, the readable value of
the nearest tier that has one, and else what the source gives when each key is asked for
once. -/
structure Source.KeyByKeyBehind [KeyText κ] (src : Source ω κ ν) (s : Space ν) (e : Env ω) :
    Prop where
  keyByKey : ∀ level n, 0 < n → (Source.layered s src level n).KeyByKey e fun _ _ => True
  value : ∀ level n, 0 < n → ∀ keys, ∀ k ∈ keys,
    ((Source.layered s src level n).fetch keys e).1.get? k =
      match e.nearest s k level n with
      | some v => some (.ok v)
      | none => (src.fetch keys.eraseDups e).1.get? k

/-- A source that is told by the key, as it is where a key is settled, and behind any tiers for
all keys. -/
structure Source.Regular [KeyText κ] (src : Source ω κ ν) (e : Env ω)
    (settled : List κ → κ → Prop) : Prop where
  plain : src.KeyByKey e settled
  cached : ∀ s, src.KeyByKeyBehind s e

section

variable {src : Source ω κ ν} {I : Env ω → Prop} {settled : List κ → κ → Prop}
  {outcome : κ → Outcome ν} {e : Env ω}

theorem Source.GivesEach.keyByKey (h : src.GivesEach I settled outcome) (he : I e)
    (hsettled : ∀ keys : List κ, keys.Nodup → ∀ k ∈ keys, settled keys k)
    (hdomain : ∀ keys k, ((src.fetch keys e).1.get? k).isSome = true ↔ k ∈ keys) :
    src.KeyByKey e settled where
  domain := hdomain
  alone keys k hk hkey := by
    rw [(h keys e he).2 k fun _ => hkey,
      (h [k] e he).2 k (hsettled _ (List.nodup_singleton k) k), if_pos hk,
      if_pos List.mem_cons_self]
  distinct keys k hkey := by
    rw [(h keys e he).2 k hkey,
      (h _ e he).2 k (hsettled _ (Answers.nodup_eraseDups keys) k)]
    simp only [List.mem_eraseDups]

/-- Where all keys are settled, the outcomes tell which keys were asked for. -/
theorem Source.GivesEach.domain (h : src.GivesEach I (fun _ _ => True) outcome) (he : I e)
    (keys : List κ) (k : κ) : ((src.fetch keys e).1.get? k).isSome = true ↔ k ∈ keys := by
  rw [(h keys e he).2 k fun _ => trivial]
  by_cases hk : k ∈ keys <;> simp [hk]

variable [KeyText κ] {R : ω → Prop}

theorem Source.GivesEach.behind (h : src.GivesEach (Alike R e) Once outcome)
    (he : R e.behind) (s : Space ν) : src.KeyByKeyBehind s e where
  keyByKey level n hn :=
    have hlayered := h.layered_pos (s := s) hn level
    hlayered.keyByKey (.refl he) (fun _ _ _ _ => trivial) (hlayered.domain (.refl he))
  value level n hn keys k hk := by
    rw [(h.layered_pos hn level keys e (.refl he)).2 k fun _ => trivial, if_pos hk,
      (h.of_nodup (Answers.nodup_eraseDups keys) e (.refl he)).2 k,
      if_pos (List.mem_eraseDups.mpr hk), preferring]
    cases e.nearest s k level n <;> rfl

/-- A source with an outcome of its own for each key, whatever is repeated. -/
theorem Source.GivesEach.regular (h : src.GivesEach (Alike R e) (fun _ _ => True) outcome)
    (he : R e.behind) : src.Regular e fun _ _ => True where
  plain := h.keyByKey (.refl he) (fun _ _ _ _ => trivial) (h.domain (.refl he))
  cached s := (h.mono fun _ _ _ => trivial).behind he s

end

end RegionPricing.Factor
