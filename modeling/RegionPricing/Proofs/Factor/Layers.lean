import Mathlib.Logic.Function.Basic
import RegionPricing.Proofs.Cache.Tier
import RegionPricing.Proofs.Evaluation
import RegionPricing.Proofs.Factor.Answers
import RegionPricing.Factor.Table

/-!
# One lookup through the cache tiers

`Sound s W B e` says of every entry, in a tier or queued for it, that it was written for
some key with a value that was right at some moment (`W`), and that it expires soon
enough: `B i` after that moment, for the tier at level `i`. A lookup keeps this. What it
finds at a level was right less than `B i` ago (`Right`), and when it goes on to a
nearer level, where it starts a new lifetime, the bound of that level has room for it.
-/

namespace RegionPricing.Factor

open RegionPricing.Cache

variable {κ ν : Type}

/-- The answer of a table to a key, with a failure in place of an answer left out. -/
def Table.present [DecidableEq κ] [KeyText κ] (s : Space ν) (t : Table κ ν) (k : κ) : Outcome ν :=
  if t.omitMissing && (t.get? k).isNone then .error (Answers.notFound s.name k) else t.answer k

theorem Table.present_congr [DecidableEq κ] [KeyText κ] (s : Space ν) {t t' : Table κ ν}
    (he : t'.entries = t.entries) (ho : t'.omitMissing = t.omitMissing) :
    t'.present s = t.present s := by
  obtain ⟨entries, omitMissing, _, _⟩ := t
  obtain ⟨entries', omitMissing', _, _⟩ := t'
  obtain rfl : entries' = entries := he
  obtain rfl : omitMissing' = omitMissing := ho
  rfl

/-- An entry written for a key whose value was right at a moment, which expires within a
bound after it. -/
def Cached [KeyText κ] (s : Space ν) (W : κ → ν → ℕ → Prop) (bound : ℕ) (text : String)
    (e : Entry) : Prop :=
  ∃ k v moment, text = s.tierKey k ∧ e.value = s.encode v ∧ W k v moment ∧
    e.expiresAt ≤ moment + bound

/-- What every entry of the tiers is worth, by level. -/
structure Sound {ω : Type} [KeyText κ] (s : Space ν) (W : κ → ν → ℕ → Prop) (B : ℕ → ℕ)
    (e : Env ω) : Prop where
  tier : ∀ {i : ℕ} {t : Tier}, e.tiers[i]? = some t → t.Sound (Cached s W (B i)) e.now
  /-- A lifetime more than the next level. -/
  bound : ∀ {i : ℕ} {t : Tier}, e.tiers[i]? = some t → B (i + 1) + t.lifetime ≤ B i

/-- An outcome that is right: the present failure, the present value, or one that was
right less than a bound ago. -/
def Right (W : κ → ν → ℕ → Prop) (present : κ → Outcome ν) (now bound : ℕ) (k : κ) :
    Outcome ν → Prop
  | .error f => present k = .error f
  | .ok v => present k = .ok v ∨ ∃ moment, W k v moment ∧ now < moment + bound

theorem Right.mono {W : κ → ν → ℕ → Prop} {present : κ → Outcome ν} {now b c : ℕ} {k : κ}
    {o : Outcome ν} (h : Right W present now b k o) (hbc : b ≤ c) : Right W present now c k o := by
  cases o with
  | error f => exact h
  | ok v =>
    rcases h with hp | ⟨moment, hW, hlt⟩
    · exact Or.inl hp
    · exact Or.inr ⟨moment, hW, by omega⟩

/-- Same time, same number of tiers, same table. -/
structure Like (e e' : Env (Table κ ν)) : Prop where
  now : e'.now = e.now
  length : e'.tiers.length = e.tiers.length
  entries : e'.behind.entries = e.behind.entries
  omitMissing : e'.behind.omitMissing = e.behind.omitMissing

theorem Like.trans {e e' e'' : Env (Table κ ν)} (h : Like e e') (h' : Like e' e'') : Like e e'' :=
  ⟨h'.now.trans h.now, h'.length.trans h.length, h'.entries.trans h.entries,
    h'.omitMissing.trans h.omitMissing⟩

theorem Like.present [DecidableEq κ] [KeyText κ] {s : Space ν} {e e' : Env (Table κ ν)}
    (h : Like e e') : e'.behind.present s = e.behind.present s :=
  Table.present_congr s h.entries h.omitMissing

/-! ## One tier -/

section

theorem readTier_like (level : ℕ) (texts : List String) (e : Env (Table κ ν)) :
    Like e (Env.readTier level texts e).2 := by
  unfold Env.readTier
  split
  next => exact ⟨rfl, List.length_set, rfl, rfl⟩
  next => exact ⟨rfl, rfl, rfl, rfl⟩

theorem enqueue_like (level : ℕ) (items : List (String × String)) (e : Env (Table κ ν)) :
    Like e (Env.enqueue level items e).2 :=
  ⟨rfl, List.length_modify .., rfl, rfl⟩

variable [KeyText κ] {s : Space ν} {W : κ → ν → ℕ → Prop} {B : ℕ → ℕ} {e : Env (Table κ ν)}
  {level : ℕ}

theorem Sound.readTier (h : Sound s W B e) (level : ℕ) (texts : List String) :
    Sound s W B (Env.readTier level texts e).2 := by
  unfold Env.readTier
  split
  next t ht =>
    refine ⟨fun {i t'} hi => ?_, fun {i t'} hi => ?_⟩ <;>
      rcases eq_or_ne level i with rfl | hne
    · rw [List.getElem?_set_self (List.getElem?_eq_some_iff.mp ht).1] at hi
      cases hi
      exact (h.tier ht).read texts
    · rw [List.getElem?_set_ne hne] at hi
      exact h.tier hi
    · rw [List.getElem?_set_self (List.getElem?_eq_some_iff.mp ht).1] at hi
      cases hi
      rw [Tier.lifetime_read]
      exact h.bound ht
    · rw [List.getElem?_set_ne hne] at hi
      exact h.bound hi
  next => exact h

/-- What a tier has under the text of a key was right less than the bound of its level
ago. -/
theorem Sound.hit (h : Sound s W B e) (hinj : Function.Injective fun k : κ => s.tierKey k)
    (hcodec : ∀ v, s.decode (s.encode v) = some v) {texts : List String} {k : κ} {v : ν}
    (hv : Source.hit? s (Env.readTier level texts e).1 k = some v) :
    ∃ moment, W k v moment ∧ e.now < moment + B level := by
  obtain ⟨raw, hraw, hdec⟩ := Option.bind_eq_some_iff.mp hv
  unfold Env.readTier at hraw
  split at hraw
  next t ht =>
    obtain ⟨e', ⟨k', v', moment, hk, hval, hW, hexp⟩, hraw', hlt⟩ := (h.tier ht).found hraw
    cases hinj hk
    rw [← hraw', hval, hcodec] at hdec
    cases hdec
    exact ⟨moment, hW, by omega⟩
  next => exact absurd hraw (by simp)

theorem Sound.enqueue (h : Sound s W B e) {items : List (String × String)}
    (hi : ∀ t, e.tiers[level]? = some t →
      ∀ item ∈ items, Cached s W (B level) item.1 ⟨item.2, e.now + t.lifetime⟩) :
    Sound s W B (Env.enqueue level items e).2 := by
  unfold Env.enqueue
  refine ⟨fun {i t'} hm => ?_, fun {i t'} hm => ?_⟩ <;>
    (rw [List.getElem?_modify] at hm; obtain ⟨t, ht, rfl⟩ := Option.map_eq_some_iff.mp hm)
  · split
    next heq =>
      subst heq
      exact (h.tier ht).enqueue (hi t ht)
    next => exact h.tier ht
  · split
    next =>
      rw [Tier.lifetime_enqueue]
      exact h.bound ht
    next => exact h.bound ht

/-- Right outcomes of the next level may be written. -/
theorem cached_of_mem_toWrite {keys : List κ} {outcome : κ → Outcome ν} {present : κ → Outcome ν}
    {now lifetime b c : ℕ} (hbc : b + lifetime ≤ c)
    (hpresent : ∀ k v, present k = .ok v → W k v now)
    (hright : ∀ k ∈ keys, Right W present now b k (outcome k)) :
    ∀ item ∈ Source.toWrite s keys outcome, Cached s W c item.1 ⟨item.2, now + lifetime⟩ := by
  intro item hitem
  obtain ⟨k, hk, hsome⟩ := List.mem_filterMap.mp hitem
  have hr := hright k hk
  cases ho : outcome k with
  | error f =>
    rw [ho] at hsome
    exact absurd hsome (by simp)
  | ok v =>
    rw [ho] at hsome hr
    cases hsome
    rcases hr with hp | ⟨moment, hW, hlt⟩
    · exact ⟨k, v, now, rfl, rfl, hpresent k v hp, by dsimp only; omega⟩
    · exact ⟨k, v, moment, rfl, rfl, hW, by dsimp only; omega⟩

/-- Settling writes what is queued and keeps the rest. -/
theorem Sound.settle (h : Sound s W B e) : Sound s W B e.settle := by
  unfold Env.settle
  refine ⟨fun {i t'} hi => ?_, fun {i t'} hi => ?_⟩ <;>
    (rw [List.getElem?_map] at hi; obtain ⟨t, ht, rfl⟩ := Option.map_eq_some_iff.mp hi)
  · exact (h.tier ht).settle
  · rw [Tier.lifetime_settle]
    exact h.bound ht

/-- With nothing queued, other times and weaker promises do. -/
theorem Sound.mono {W' : κ → ν → ℕ → Prop} {e' : Env (Table κ ν)} (h : Sound s W B e)
    (hq : ∀ t ∈ e.tiers, t.queued = []) (hW : ∀ k v moment, W k v moment → W' k v moment)
    (htiers : e'.tiers = e.tiers) : Sound s W' B e' := by
  refine ⟨fun {i t} ht => ?_, fun {i t} ht => ?_⟩ <;> rw [htiers] at ht
  · refine (h.tier ht).mono (hq t (List.mem_of_getElem? ht)) ?_
    rintro text entry ⟨k, v, moment, rfl, hval, hk, hexp⟩
    exact ⟨k, v, moment, rfl, hval, hW k v moment hk, hexp⟩
  · exact h.bound ht

/-- After forgetting, no tier holds an entry of these keys. -/
theorem Sound.forget {e e' : Env (Table κ ν)} (h : Sound s W B e)
    (hq : ∀ t ∈ e.tiers, t.queued = []) {keys : List κ}
    (htiers : ∀ i : ℕ, e'.tiers[i]? = e.tiers[i]?.map fun t : Tier =>
      t.delete e.now (keys.map s.tierKey)) :
    Sound s (fun k v moment => W k v moment ∧ k ∉ keys) B e' := by
  refine ⟨fun {i t'} hi => ?_, fun {i t'} hi => ?_⟩ <;>
    (rw [htiers] at hi; obtain ⟨t, ht, rfl⟩ := Option.map_eq_some_iff.mp hi)
  · have hqt := hq t (List.mem_of_getElem? ht)
    refine ((h.tier ht).delete hqt _ : Tier.Sound _ e.now _).mono ?_ ?_
    · exact hqt
    · rintro text entry ⟨⟨k, v, moment, rfl, hval, hW, hexp⟩, hnot⟩
      exact ⟨k, v, moment, rfl, hval, ⟨hW, fun hk => hnot (List.mem_map_of_mem hk)⟩, hexp⟩
  · rw [Tier.lifetime_delete]
    exact h.bound ht

end

/-! ## All tiers -/

section

variable [DecidableEq κ] [KeyText κ]

/-- What a lookup comes to: right outcomes, the missing ones filled in, and sound tiers. -/
structure Fetched (s : Space ν) (W : κ → ν → ℕ → Prop) (B : ℕ → ℕ) (level : ℕ) (keys : List κ)
    (e : Env (Table κ ν)) (r : Answers κ ν × Env (Table κ ν)) : Prop where
  sound : Sound s W B r.2
  like : Like e r.2
  right : ∀ k ∈ keys, Right W (e.behind.present s) e.now (B level) k
    ((r.1.get? k).getD (.error (Answers.notFound s.name k)))

variable {s : Space ν} {W : κ → ν → ℕ → Prop} {B : ℕ → ℕ}

theorem right_present (s : Space ν) (W : κ → ν → ℕ → Prop) (t : Table κ ν) (now bound : ℕ)
    (k : κ) : Right W (t.present s) now bound k (t.present s k) := by
  cases h : t.present s k with
  | error f => exact h
  | ok v => exact Or.inl h

theorem source_fetched (level : ℕ) (keys : List κ) {e : Env (Table κ ν)} (h : Sound s W B e) :
    Fetched s W B level keys e (Table.source.fetch keys e) := by
  refine ⟨⟨h.tier, h.bound⟩, ⟨rfl, rfl, rfl, rfl⟩, fun k hk => ?_⟩
  have heq : ((Table.source.fetch keys e).1.get? k).getD (.error (Answers.notFound s.name k))
      = e.behind.present s k := by
    show ((Answers.ofKeys _ e.behind.answer).get? k).getD _ = _
    rw [Answers.get?_ofKeys, Table.present]
    by_cases hm : (e.behind.omitMissing && (e.behind.get? k).isNone) = true
    · rw [if_pos hm, if_neg]
      · rfl
      · simp_all
    · rw [if_neg hm, if_pos]
      · rfl
      · rw [List.mem_filter]
        refine ⟨hk, ?_⟩
        cases ho : e.behind.omitMissing <;> cases hg : e.behind.get? k <;> simp_all
  rw [heq]
  exact right_present s W e.behind e.now (B level) k

/-- A lookup that all keys are found by at once. -/
theorem cached_fetch_of_found {ω : Type} {level : ℕ} (inner : Source ω κ ν) {keys : List κ}
    {e : Env ω} {r : KeyMap String String × Env ω}
    (hr : Env.readTier level (keys.eraseDups.map s.tierKey) e = r)
    (hm : (keys.eraseDups.filter fun k => (Source.hit? s r.1 k).isNone).isEmpty = true) :
    (Source.cached s level inner).fetch keys e
      = (.ofKeys keys.eraseDups (Source.merged s r.1 .empty), r.2) := by
  simp only [Source.cached, bind_apply, hr, hm, if_true]
  rfl

/-- A lookup that goes further with the keys that a tier missed. -/
theorem cached_fetch_of_missed {ω : Type} {level : ℕ} (inner : Source ω κ ν) {keys missed : List κ}
    {e : Env ω} {r : KeyMap String String × Env ω} {f : Answers κ ν × Env ω}
    (hr : Env.readTier level (keys.eraseDups.map s.tierKey) e = r)
    (hm : keys.eraseDups.filter (fun k => (Source.hit? s r.1 k).isNone) = missed)
    (hne : missed.isEmpty = false) (hf : inner.fetch missed r.2 = f) :
    (Source.cached s level inner).fetch keys e
      = (.ofKeys keys.eraseDups (Source.merged s r.1 f.1),
        (Env.enqueue level (Source.toWrite s missed (Source.merged s r.1 f.1)) f.2).2) := by
  simp only [Source.cached, bind_apply, hr, hm, hne, if_false, Bool.false_eq_true, hf]
  rfl

theorem merged_of_hit {found : KeyMap String String} {fetched : Answers κ ν} {k : κ} {v : ν}
    (h : Source.hit? s found k = some v) : Source.merged s found fetched k = .ok v := by
  rw [Source.merged, h]

theorem merged_of_miss {found : KeyMap String String} {fetched : Answers κ ν} {k : κ}
    (h : Source.hit? s found k = none) :
    Source.merged s found fetched k
      = (fetched.get? k).getD (.error (Answers.notFound s.name k)) := by
  rw [Source.merged, h]

/-- A merged outcome is right when the one of the tier is, or, where the tier missed the
key, the fetched one. -/
theorem merged_right {found : KeyMap String String} {fetched : Answers κ ν}
    {present : κ → Outcome ν} {now bound : ℕ} {k : κ}
    (hhit : ∀ v, Source.hit? s found k = some v → Right W present now bound k (.ok v))
    (hmiss : Source.hit? s found k = none → Right W present now bound k
      ((fetched.get? k).getD (.error (Answers.notFound s.name k)))) :
    Right W present now bound k (Source.merged s found fetched k) := by
  cases hv : Source.hit? s found k with
  | some v =>
    rw [merged_of_hit hv]
    exact hhit v hv
  | none =>
    rw [merged_of_miss hv]
    exact hmiss hv

/-- A tier in front of a source that finds what is right does so too, and it stays sound
when what was found is queued in it. -/
theorem cached_fetched (hinj : Function.Injective fun k : κ => s.tierKey k)
    (hcodec : ∀ v, s.decode (s.encode v) = some v) {inner : Source (Table κ ν) κ ν} {level : ℕ}
    {e : Env (Table κ ν)} (keys : List κ) (hlevel : level < e.tiers.length)
    (hpresent : ∀ k v, e.behind.present s k = .ok v → W k v e.now) (h : Sound s W B e)
    (hinner : ∀ (missed : List κ) {e' : Env (Table κ ν)}, Like e e' → Sound s W B e' →
      Fetched s W B (level + 1) missed e' (inner.fetch missed e')) :
    Fetched s W B level keys e ((Source.cached s level inner).fetch keys e) := by
  have hlike := readTier_like level (keys.eraseDups.map s.tierKey) e
  have hread := h.readTier level (keys.eraseDups.map s.tierKey)
  rcases hr : Env.readTier level (keys.eraseDups.map s.tierKey) e with ⟨found, e1⟩
  rw [hr] at hlike hread
  have hhit : ∀ k v, Source.hit? s found k = some v →
      Right W (e.behind.present s) e.now (B level) k (.ok v) := fun k v hv =>
    Or.inr (h.hit hinj hcodec (by rw [hr]; exact hv))
  have hmissed : ∀ k ∈ keys, Source.hit? s found k = none →
      k ∈ keys.eraseDups.filter fun k => (Source.hit? s found k).isNone := fun k hk hv =>
    List.mem_filter.mpr ⟨List.mem_eraseDups.mpr hk, by rw [hv]; rfl⟩
  cases hm : (keys.eraseDups.filter fun k => (Source.hit? s found k).isNone).isEmpty with
  | true =>
    rw [cached_fetch_of_found _ hr hm]
    refine ⟨hread, hlike, fun k hk => ?_⟩
    rw [Answers.get?_ofKeys, if_pos (List.mem_eraseDups.mpr hk), Option.getD_some]
    refine merged_right (hhit k) fun hv => ?_
    have hin := hmissed k hk hv
    rw [List.isEmpty_iff.mp hm] at hin
    exact absurd hin List.not_mem_nil
  | false =>
    have hfar := hinner (keys.eraseDups.filter fun k => (Source.hit? s found k).isNone) hlike hread
    rw [cached_fetch_of_missed _ hr rfl hm rfl]
    have hright := hfar.right
    rw [hlike.present, hlike.now] at hright
    refine ⟨?_, ?_, fun k hk => ?_⟩
    · refine hfar.sound.enqueue fun t ht => ?_
      rw [hfar.like.now, hlike.now]
      refine cached_of_mem_toWrite (hfar.sound.bound ht) hpresent fun k hk => ?_
      rw [merged_of_miss (Option.isNone_iff_eq_none.mp (List.mem_filter.mp hk).2)]
      exact hright k hk
    · exact (hlike.trans hfar.like).trans (enqueue_like level _ _)
    · rw [Answers.get?_ofKeys, if_pos (List.mem_eraseDups.mpr hk), Option.getD_some]
      -- The bound of this level has room for that of the next.
      have hb := h.bound (List.getElem?_eq_getElem hlevel)
      exact merged_right (hhit k) fun hv => (hright k (hmissed k hk hv)).mono (by omega)

/-- A lookup at any level finds what is right, and leaves the tiers sound. The present
values are right now. -/
theorem layered_fetched (hinj : Function.Injective fun k : κ => s.tierKey k)
    (hcodec : ∀ v, s.decode (s.encode v) = some v) :
    ∀ (n level : ℕ) (keys : List κ) {e : Env (Table κ ν)}, e.tiers.length = level + n →
      (∀ k v, e.behind.present s k = .ok v → W k v e.now) → Sound s W B e →
      Fetched s W B level keys e ((Source.layered s Table.source level n).fetch keys e) := by
  intro n
  induction n with
  | zero => exact fun level keys e _ _ h => source_fetched level keys h
  | succ n ih =>
    intro level keys e hlen hpresent h
    refine cached_fetched hinj hcodec keys (by omega) hpresent h fun missed e' hlike h' => ?_
    refine ih (level + 1) missed ?_ ?_ h'
    · rw [hlike.length, hlen]
      omega
    · rw [hlike.present, hlike.now]
      exact hpresent

/-- With a tier, or with a table that leaves no key out, every key has an outcome. -/
theorem get?_layered_isSome (s : Space ν) (level : ℕ) {n : ℕ} {keys : List κ}
    {e : Env (Table κ ν)} {k : κ} (h : 0 < n ∨ e.behind.omitMissing = false)
    (hk : k ∈ keys) :
    ∃ o, ((Source.layered s Table.source level n).fetch keys e).1.get? k = some o := by
  cases n with
  | zero =>
    have homit := h.resolve_left (by omega)
    refine ⟨e.behind.answer k, ?_⟩
    show (Answers.ofKeys _ e.behind.answer).get? k = _
    rw [Answers.get?_ofKeys, if_pos]
    exact List.mem_filter.mpr ⟨hk, by rw [homit]; rfl⟩
  | succ n =>
    have hk' : k ∈ keys.eraseDups := List.mem_eraseDups.mpr hk
    cases hr : Env.readTier level (keys.eraseDups.map s.tierKey) e with
    | mk found e1 =>
      cases hm : (keys.eraseDups.filter fun k => (Source.hit? s found k).isNone).isEmpty with
      | true =>
        rw [Source.layered, cached_fetch_of_found _ hr hm]
        exact ⟨_, by rw [Answers.get?_ofKeys, if_pos hk']⟩
      | false =>
        rw [Source.layered, cached_fetch_of_missed _ hr rfl hm rfl]
        exact ⟨_, by rw [Answers.get?_ofKeys, if_pos hk']⟩

/-! ## Forgetting -/

/-- Forgetting deletes the keys from every tier, and leaves the table as it is. -/
theorem layered_forget (s : Space ν) (keys : List κ) :
    ∀ (n level : ℕ) {e : Env (Table κ ν)}, e.tiers.length = level + n →
      Like e ((Source.layered s Table.source level n).forget keys e).2 ∧
      ∀ i, ((Source.layered s Table.source level n).forget keys e).2.tiers[i]? =
        if level ≤ i then e.tiers[i]?.map fun t => t.delete e.now (keys.map s.tierKey)
        else e.tiers[i]? := by
  intro n
  induction n with
  | zero =>
    refine fun level e hlen => ⟨⟨rfl, rfl, rfl, rfl⟩, fun i => ?_⟩
    show e.tiers[i]? = _
    split
    next hle => rw [List.getElem?_eq_none (by omega), Option.map_none]
    next => rfl
  | succ n ih =>
    intro level e hlen
    have hlen' : (Env.deleteFrom level (keys.map s.tierKey) e).2.tiers.length = level + 1 + n := by
      show (e.tiers.modify level _).length = _
      rw [List.length_modify]
      omega
    obtain ⟨hlike, htiers⟩ := ih (level + 1) hlen'
    have hfirst : Like e (Env.deleteFrom level (keys.map s.tierKey) e).2 :=
      ⟨rfl, List.length_modify .., rfl, rfl⟩
    refine ⟨hfirst.trans hlike, fun i => (htiers i).trans ?_⟩
    show (if level + 1 ≤ i then (e.tiers.modify level _)[i]?.map _
      else (e.tiers.modify level _)[i]?) = _
    rcases Nat.lt_trichotomy level i with hlt | rfl | hgt
    · rw [if_pos (by omega), if_pos (by omega), List.getElem?_modify_ne _ _ (by omega)]
      rfl
    · rw [if_neg (by omega), if_pos (Nat.le_refl level), List.getElem?_modify_eq]
      rfl
    · rw [if_neg (by omega), if_neg (by omega), List.getElem?_modify_ne _ _ (by omega)]

end

end RegionPricing.Factor
