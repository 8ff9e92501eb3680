import Mathlib.Data.List.Basic
import Mathlib.Data.List.Induction
import RegionPricing.Cache.Expiring

/-!
# What a map with expiring entries can hold

No operation makes up an entry. What a map holds afterwards it held before, or it was
just written, with the lifetime that it was written for; what is found was there and
had not expired. Making room and dropping what has expired only ever remove entries,
so neither the capacity nor the order of eviction matters to these facts.
-/

namespace RegionPricing.Cache.Expiring

/-- Whether the map holds an entry under a key, expired or not. -/
def Holds (c : Expiring) (key : String) (e : Entry) : Prop := c.entries.get? key = some e

/-- Whether all that one map holds is held by another. -/
def Within (c d : Expiring) : Prop := ∀ key e, c.Holds key e → d.Holds key e

theorem Within.refl (c : Expiring) : c.Within c := fun _ _ h => h

theorem Within.trans {c d f : Expiring} (h : c.Within d) (h' : d.Within f) : c.Within f :=
  fun key e he => h' key e (h key e he)

theorem not_holds_empty (capacity : Nat) (ties : Ties) (key : String) (e : Entry) :
    ¬(empty capacity ties).Holds key e := by
  simp [Holds, empty]

variable {c : Expiring} {now ttl : Nat} {key value : String} {e : Entry}

/-! ## Looking up -/

theorem holds_of_peek (h : c.peek now key = some value) :
    ∃ e, c.Holds key e ∧ e.value = value ∧ now < e.expiresAt := by
  unfold peek at h
  obtain ⟨e, he, hv⟩ := Option.map_eq_some_iff.mp h
  obtain ⟨hget, hlive⟩ := Option.filter_eq_some_iff.mp he
  exact ⟨e, hget, hv, of_decide_eq_true hlive⟩

theorem erase_within (c : Expiring) (key : String) :
    Within { c with entries := c.entries.erase key } c := by
  intro k e h
  rw [Holds, KeyMap.get?_erase] at h
  split at h
  next => exact absurd h (by simp)
  next => exact h

theorem get_within (c : Expiring) (now : Nat) (key : String) : (c.get now key).2.Within c := by
  unfold get
  split
  next => exact Within.refl c
  next => exact erase_within c key

theorem get_fst (c : Expiring) (now : Nat) (key : String) : (c.get now key).1 = c.peek now key := by
  unfold get
  split
  next h => exact h.symm
  next h => exact h.symm

theorem peek_eq_some_iff : c.peek now key = some value ↔
    ∃ e, c.Holds key e ∧ e.value = value ∧ now < e.expiresAt := by
  refine ⟨holds_of_peek, fun ⟨e, he, hv, hlive⟩ => ?_⟩
  have hfilter : (c.entries.get? key).filter (fun e => e.isLive now) = some e :=
    Option.filter_eq_some_iff.mpr ⟨he, decide_eq_true hlive⟩
  rw [peek, hfilter, Option.map_some, hv]

/-- A lookup takes nothing away that could be found. -/
theorem peek_get (c : Expiring) (now : Nat) (key key' : String) :
    (c.get now key).2.peek now key' = c.peek now key' := by
  unfold get
  split
  next => rfl
  next h =>
    show (((c.entries.erase key).get? key').filter fun e => e.isLive now).map Entry.value = _
    rw [KeyMap.get?_erase]
    split
    next heq => exact heq ▸ h.symm
    next => rfl

theorem getMany_append (c : Expiring) (now : Nat) (keys : List String) (last : String) :
    c.getMany now (keys ++ [last]) =
      match (c.getMany now keys).2.get now last with
      | (some v, left) => ((c.getMany now keys).1.put last v, left)
      | (none, left) => ((c.getMany now keys).1, left) := by
  unfold getMany
  rw [List.foldl_append]
  rfl

/-- Several lookups take nothing away that could be found, and find what each of them finds
alone. -/
theorem getMany_peek (c : Expiring) (now : Nat) (keys : List String) (key : String) :
    (c.getMany now keys).2.peek now key = c.peek now key ∧
      (c.getMany now keys).1.get? key = if key ∈ keys then c.peek now key else none := by
  induction keys using List.reverseRecOn with
  | nil => exact ⟨rfl, rfl⟩
  | append_singleton keys last ih =>
    obtain ⟨hpeek, hfound⟩ := ih
    have hleft := peek_get (c.getMany now keys).2 now last key
    have hget := get_fst (c.getMany now keys).2 now last
    rw [hpeek] at hleft
    rw [getMany_append]
    cases hc : (c.getMany now keys).2.get now last with
    | mk found left =>
      rw [hc] at hleft hget
      by_cases heq : last = key
      · subst heq
        rw [hpeek] at hget
        cases found with
        | none => exact ⟨hleft, by simp [hfound, ← hget]⟩
        | some v => exact ⟨hleft, by simp [KeyMap.get?_put, ← hget]⟩
      · cases found with
        | none => exact ⟨hleft, by simp [hfound, Ne.symm heq]⟩
        | some v => exact ⟨hleft, by simp [KeyMap.get?_put, hfound, heq, Ne.symm heq]⟩

/-- Where several lookups in a map stand: what was found so far, and the map that is
left. -/
structure Looked (c : Expiring) (now : Nat) (acc : KeyMap String String × Expiring) : Prop where
  within : acc.2.Within c
  found : ∀ key value, acc.1.get? key = some value →
    ∃ e, c.Holds key e ∧ e.value = value ∧ now < e.expiresAt

/-- What several lookups find was there, and had not expired. -/
theorem getMany_looked (c : Expiring) (now : Nat) (keys : List String) :
    Looked c now (c.getMany now keys) := by
  unfold getMany
  refine List.foldlRecOn keys _ ⟨Within.refl c, by simp⟩ fun acc h key _ => ?_
  have hget := get_within acc.2 now key
  have hfst := get_fst acc.2 now key
  cases hc : acc.2.get now key with
  | mk found c' =>
    rw [hc] at hget hfst
    cases found with
    | none => exact ⟨hget.trans h.within, h.found⟩
    | some v =>
      refine ⟨hget.trans h.within, fun k w hk => ?_⟩
      rw [KeyMap.get?_put] at hk
      split at hk
      next heq =>
        cases hk
        -- the map only shrinks, so what is found later was there from the beginning
        obtain ⟨e, he, hv, hlt⟩ := holds_of_peek hfst.symm
        exact ⟨e, heq ▸ h.within key e he, hv, hlt⟩
      next => exact h.found k w hk

/-! ## Writing -/

theorem makeRoom_within (c : Expiring) (now : Nat) : (c.makeRoom now).Within c := by
  have hpurge : (c.purge now).Within c := fun key e h => by
    rw [Holds, purge, KeyMap.get?_filter] at h
    exact (Option.filter_eq_some_iff.mp h).1
  have hevict : (c.purge now).evict.Within (c.purge now) := fun key e h => by
    rw [Holds, evict, KeyMap.get?_filter] at h
    exact (Option.filter_eq_some_iff.mp h).1
  unfold makeRoom
  dsimp only
  split
  next => exact hpurge
  next => exact hevict.trans hpurge

theorem roomFor_within (c : Expiring) (now : Nat) (key : String) :
    (c.roomFor now key).Within c := by
  unfold roomFor
  split
  next => exact makeRoom_within c now
  next => exact Within.refl c

/-- What is held after writing was held before, or is what was written. -/
theorem holds_set {key' : String} (h : (c.set now ttl key value).Holds key' e) :
    c.Holds key' e ∨ key' = key ∧ e = ⟨value, now + ttl⟩ := by
  unfold set at h
  dsimp only at h
  split at h
  next =>
    rw [Holds, KeyMap.get?_put] at h
    split at h
    next heq =>
      cases h
      exact Or.inr ⟨heq.symm, rfl⟩
    next hne =>
      rw [KeyMap.get?_erase, if_neg hne] at h
      exact Or.inl (roomFor_within c now key key' e h)
  next => exact Or.inl (roomFor_within c now key key' e h)

theorem holds_setMany {items : List (String × String)} {key' : String}
    (h : (c.setMany now ttl items).Holds key' e) :
    c.Holds key' e ∨ (key', e.value) ∈ items ∧ e.expiresAt = now + ttl := by
  unfold setMany at h
  induction items generalizing c with
  | nil => exact Or.inl h
  | cons item items ih =>
    rw [List.foldl_cons] at h
    rcases ih h with hc | ⟨hmem, hexp⟩
    · rcases holds_set hc with hc | ⟨rfl, rfl⟩
      · exact Or.inl hc
      · exact Or.inr ⟨List.mem_cons_self, rfl⟩
    · exact Or.inr ⟨List.mem_cons_of_mem item hmem, hexp⟩

/-! ## Deleting -/

theorem holds_delete {key' : String} (h : (c.delete key).Holds key' e) :
    c.Holds key' e ∧ key' ≠ key := by
  unfold delete Holds at h
  rw [KeyMap.get?_erase] at h
  split at h
  next => exact absurd h (by simp)
  next hne => exact ⟨h, fun heq => hne heq.symm⟩

end RegionPricing.Cache.Expiring
