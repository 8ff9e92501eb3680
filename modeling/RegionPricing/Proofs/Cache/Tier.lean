import RegionPricing.Proofs.Cache.Expiring
import RegionPricing.Cache.Tier

/-!
# What a cache tier can hold

`Tier.Sound P now t` says that every entry of a tier passes `P`, and that what is queued
will, if it is written now. Tiers that hold their entries in memory and tiers that fail
every call are sound from the beginning and stay so: a tier is read, settled and
deleted from without any entry that was not there, or queued, before.
-/

namespace RegionPricing.Cache

variable {P Q : String → Entry → Prop} {now now' ttl : Nat}

/-! ## Storages -/

namespace Storage

/-- Whether all entries pass `P`. Servers, whose entries others write too, are left out. -/
def Sound (P : String → Entry → Prop) : Storage → Prop
  | .expiring c => ∀ key e, c.Holds key e → P key e
  | .remote _ => False
  | .broken => True

/-- Whether the storage keeps what is written to it. -/
def keeps : Storage → Bool
  | .expiring _ => true
  | .remote _ => false
  | .broken => false

variable {s : Storage}

theorem Sound.mono (h : s.Sound P) (hPQ : ∀ key e, P key e → Q key e) : s.Sound Q := by
  cases s with
  | expiring c => exact fun key e he => hPQ key e (h key e he)
  | remote r => exact h
  | broken => trivial

theorem Sound.getMany (h : s.Sound P) (keys : List String) : (s.getMany now keys).2.Sound P := by
  cases s with
  | expiring c => exact fun key e he => h key e ((c.getMany_looked now keys).within key e he)
  | remote r => exact h.elim
  | broken => trivial

/-- What is found passes `P` and has not expired. -/
theorem Sound.found (h : s.Sound P) {keys : List String} {found : KeyMap String String}
    (hf : (s.getMany now keys).1 = .ok found) {key value : String}
    (hk : found.get? key = some value) : ∃ e, P key e ∧ e.value = value ∧ now < e.expiresAt := by
  cases s with
  | expiring c =>
    cases hf
    obtain ⟨e, he, hv, hlt⟩ := (c.getMany_looked now keys).found key value hk
    exact ⟨e, h key e he, hv, hlt⟩
  | remote r => exact h.elim
  | broken => exact absurd hf (by simp [Storage.getMany])

theorem Sound.setMany (h : s.Sound P) {items : List (String × String)}
    (hi : s.keeps = true → ∀ item ∈ items, P item.1 ⟨item.2, now + ttl⟩) :
    (s.setMany now ttl items).2.Sound P := by
  cases s with
  | expiring c =>
    intro key e he
    rcases Expiring.holds_setMany he with hold | ⟨hmem, hexp⟩
    · exact h key e hold
    · have := hi rfl _ hmem
      rw [← hexp] at this
      exact this
  | remote r => exact h.elim
  | broken => trivial

theorem Sound.delete (h : s.Sound P) (key : String) :
    (s.delete now key).2.Sound fun k e => P k e ∧ k ≠ key := by
  cases s with
  | expiring c =>
    intro k e he
    obtain ⟨hold, hne⟩ := Expiring.holds_delete he
    exact ⟨h k e hold, hne⟩
  | remote r => exact h.elim
  | broken => trivial

theorem keeps_getMany (s : Storage) (now : Nat) (keys : List String) :
    (s.getMany now keys).2.keeps = s.keeps := by cases s <;> rfl

theorem keeps_setMany (s : Storage) (now ttl : Nat) (items : List (String × String)) :
    (s.setMany now ttl items).2.keeps = s.keeps := by cases s <;> rfl

theorem keeps_delete (s : Storage) (now : Nat) (key : String) :
    (s.delete now key).2.keeps = s.keeps := by cases s <;> rfl

end Storage

/-! ## Tiers -/

namespace Tier

/-- How long a tier keeps what it is given. -/
def lifetime (t : Tier) : Nat := if t.storage.keeps then t.ttl else 0

/-- Whether all entries of a tier pass `P`, those included that are queued. -/
structure Sound (P : String → Entry → Prop) (now : Nat) (t : Tier) : Prop where
  held : t.storage.Sound P
  queued : ∀ items ∈ t.queued, ∀ item ∈ items, P item.1 ⟨item.2, now + t.lifetime⟩

/-- A tier that nothing was written to: in memory, or out of order. -/
structure Fresh (t : Tier) : Prop where
  queued : t.queued = []
  storage : t.storage = .broken ∨ ∃ capacity ties, t.storage = .expiring (.empty capacity ties)

variable {t : Tier}

theorem Fresh.sound (h : t.Fresh) : t.Sound P now := by
  refine ⟨?_, by simp [h.queued]⟩
  rcases h.storage with hs | ⟨capacity, ties, hs⟩
  · rw [hs]
    trivial
  · rw [hs]
    exact fun key e he => absurd he (Expiring.not_holds_empty capacity ties key e)

/-- Without a queue the time does not matter. -/
theorem Sound.mono (h : t.Sound P now) (hq : t.queued = []) (hPQ : ∀ key e, P key e → Q key e) :
    t.Sound Q now' := ⟨h.held.mono hPQ, by simp [hq]⟩

/-! ### Reading -/

theorem read_snd (t : Tier) (now : Nat) (keys : List String) :
    (t.read now keys).2 = { t with storage := (t.storage.getMany now keys).2 } := by
  unfold Tier.read
  split
  next h => rw [h]
  next h => rw [h]

@[simp] theorem lifetime_read (t : Tier) (now : Nat) (keys : List String) :
    (t.read now keys).2.lifetime = t.lifetime := by
  rw [read_snd, lifetime, lifetime, Storage.keeps_getMany]

@[simp] theorem queued_read (t : Tier) (now : Nat) (keys : List String) :
    (t.read now keys).2.queued = t.queued := by
  rw [read_snd]

theorem Sound.read (h : t.Sound P now) (keys : List String) : (t.read now keys).2.Sound P now := by
  refine ⟨?_, ?_⟩
  · rw [read_snd]
    exact h.held.getMany keys
  · rw [lifetime_read, queued_read]
    exact h.queued

theorem Sound.found (h : t.Sound P now) {keys : List String} {key value : String}
    (hk : (t.read now keys).1.get? key = some value) :
    ∃ e, P key e ∧ e.value = value ∧ now < e.expiresAt := by
  unfold Tier.read at hk
  split at hk
  next found s hs => exact h.held.found (by rw [hs]) hk
  next => exact absurd hk (by simp)

/-! ### Queueing and settling -/

@[simp] theorem lifetime_enqueue (t : Tier) (items : List (String × String)) :
    (t.enqueue items).lifetime = t.lifetime := by
  unfold Tier.enqueue
  split <;> rfl

theorem Sound.enqueue (h : t.Sound P now) {items : List (String × String)}
    (hi : ∀ item ∈ items, P item.1 ⟨item.2, now + t.lifetime⟩) :
    (t.enqueue items).Sound P now := by
  unfold Tier.enqueue
  split
  next => exact h
  next =>
    refine ⟨h.held, fun is his item hm => ?_⟩
    rcases List.mem_append.mp his with hold | hnew
    · exact h.queued is hold item hm
    · exact hi item (List.mem_singleton.mp hnew ▸ hm)

@[simp] theorem lifetime_settle (t : Tier) (now : Nat) :
    (t.settle now).lifetime = t.lifetime := by
  have hkeeps : (t.settle now).storage.keeps = t.storage.keeps :=
    List.foldlRecOn (motive := fun s : Storage => s.keeps = t.storage.keeps) t.queued _ rfl
      fun s hs items _ => (s.keeps_setMany now t.ttl items).trans hs
  unfold lifetime
  rw [hkeeps]
  rfl

/-- Settling writes what is queued and nothing else. -/
theorem Sound.settle (h : t.Sound P now) : (t.settle now).Sound P now' := by
  have hfold : (t.settle now).storage.Sound P ∧ (t.settle now).storage.keeps = t.storage.keeps :=
    List.foldlRecOn (motive := fun s : Storage => s.Sound P ∧ s.keeps = t.storage.keeps)
      t.queued _ ⟨h.held, rfl⟩ fun s hs items hitems => by
        refine ⟨hs.1.setMany fun hk item hm => ?_, (s.keeps_setMany now t.ttl items).trans hs.2⟩
        have := h.queued items hitems item hm
        rwa [lifetime, if_pos (hs.2 ▸ hk)] at this
  exact ⟨hfold.1, by simp [Tier.settle]⟩

/-! ### Deleting -/

@[simp] theorem lifetime_delete (t : Tier) (now : Nat) (keys : List String) :
    (t.delete now keys).lifetime = t.lifetime := by
  have hkeeps : (t.delete now keys).storage.keeps = t.storage.keeps :=
    List.foldlRecOn (motive := fun s : Storage => s.keeps = t.storage.keeps) keys _ rfl
      fun s hs key _ => (s.keeps_delete now key).trans hs
  unfold lifetime
  rw [hkeeps]
  rfl

theorem Storage.Sound.foldl_delete (now : Nat) :
    ∀ (keys : List String) {P : String → Entry → Prop} {s : Storage}, s.Sound P →
      (keys.foldl (fun (s : Storage) key => (s.delete now key).2) s).Sound
        fun k e => P k e ∧ k ∉ keys := by
  intro keys
  induction keys with
  | nil => exact fun hs => hs.mono fun k e hp => ⟨hp, by simp⟩
  | cons key keys ih =>
    intro P s hs
    have hfirst : (s.delete now key).2.Sound fun k e => P k e ∧ k ≠ key := hs.delete key
    refine (ih hfirst).mono fun k e hp => ⟨hp.1.1, ?_⟩
    rw [List.mem_cons, not_or]
    exact ⟨hp.1.2, hp.2⟩

theorem Sound.delete (h : t.Sound P now) (hq : t.queued = []) (keys : List String) :
    (t.delete now keys).Sound (fun k e => P k e ∧ k ∉ keys) now' :=
  ⟨Storage.Sound.foldl_delete now keys h.held, by simp [Tier.delete, hq]⟩

end Tier

end RegionPricing.Cache
