import Mathlib
import RegionPricing.Proofs.Cache.Lifetime

/-!
# Which entries make room for a new one

When a key that is not there finds the map full, everything that has expired is dropped. Only if
the map is still full are live entries removed, a tenth of the capacity but at least one, and none
of them expires later than one that stays (`expiresAt_le_of_doomed`). Which ones go of those that
expire at the same moment is open: any such choice is made under some ties (`mem_doomed_favouring`).
What was removed is the room that is left then: that many keys but one can follow before another
finds the map full (`Recorded.not_crowds_of_insertions`). `Recorded.insertion_evicts_soonest` puts
this together, whatever the ties are.
-/

namespace RegionPricing.Cache

/-! ## Entries by the end of their lives -/

theorem soonestFirst_pairwise (entries : List (String × Entry)) :
    (soonestFirst entries).Pairwise fun a b => a.2.expiresAt ≤ b.2.expiresAt := by
  have hsorted : (soonestFirst entries).Pairwise
      fun a b => decide (a.2.expiresAt ≤ b.2.expiresAt) = true := by
    refine List.pairwise_mergeSort ?_ ?_ _
    · intro a b d hab hbd
      simp only [decide_eq_true_eq] at *
      omega
    · intro a b
      simp only [Bool.or_eq_true, decide_eq_true_eq]
      omega
  exact hsorted.imp of_decide_eq_true

/-- Ties by which some keys come up first. -/
def Ties.favouring (gone : List String) : Ties where
  order _ entries := soonestFirst (entries.filter fun e => e.1 ∈ gone) ++
    soonestFirst (entries.filter fun e => !decide (e.1 ∈ gone))
  perm _ entries := ((soonestFirst_perm _).append (soonestFirst_perm _)).trans
    (List.filter_append_perm (fun e => e.1 ∈ gone) entries)

namespace Expiring

/-- The live keys of a map that another one does not have. -/
def lost (c d : Expiring) (now : ℕ) : List String :=
  (c.purge now).entries.keys.filter fun key => (d.entries.get? key).isNone

/-- The keys that go when a map full of live entries makes room. -/
def doomed (c : Expiring) : List String := c.bySoonest.take (c.size - (c.capacity - c.share))

variable {c : Expiring} {now : ℕ} {key key' : String} {e e' : Entry}

/-! ## What stays -/

theorem holds_purge_iff : (c.purge now).Holds key e ↔ c.Holds key e ∧ now < e.expiresAt := by
  unfold Holds purge
  rw [KeyMap.get?_filter, Option.filter_eq_some_iff]
  exact and_congr_right fun _ => decide_eq_true_iff

theorem holds_evict_iff : c.evict.Holds key e ↔ c.Holds key e ∧ key ∉ c.doomed := by
  show (c.entries.filter fun k _ => !decide (k ∈ c.doomed)).get? key = some e ↔ _
  rw [KeyMap.get?_filter, Option.filter_eq_some_iff]
  exact and_congr_right fun _ => by simp

/-! ## What goes -/

theorem sorted_pairwise (c : Expiring) :
    c.sorted.Pairwise fun a b => a.2.expiresAt ≤ b.2.expiresAt :=
  soonestFirst_pairwise _

theorem mem_sorted_iff : (key, e) ∈ c.sorted ↔ c.Holds key e := by
  rw [sorted, (soonestFirst_perm _).mem_iff, (c.ties.perm c.evictions c.entries.entries).mem_iff]
  exact ⟨KeyMap.get?_of_mem, KeyMap.mem_of_get?⟩

/-- An entry that goes does not expire later than one that stays. -/
theorem expiresAt_le_of_doomed (h : c.Holds key e) (hdoomed : key ∈ c.doomed)
    (h' : c.Holds key' e') (hstays : key' ∉ c.doomed) : e.expiresAt ≤ e'.expiresAt := by
  generalize hn : c.size - (c.capacity - c.share) = n at *
  have hfront : c.doomed = (c.sorted.take n).map Prod.fst := by
    rw [doomed, hn]
    exact List.map_take.symm
  rw [hfront] at hdoomed hstays
  -- the entry under the key is the one that stands in front
  obtain ⟨⟨k, d⟩, hfirst, rfl⟩ := List.mem_map.mp hdoomed
  obtain rfl : d = e :=
    Option.some.inj ((mem_sorted_iff.mp (List.mem_of_mem_take hfirst)).symm.trans h)
  have hsplit := List.take_append_drop n c.sorted
  have hrest : (key', e') ∈ c.sorted.drop n := by
    have hmem := mem_sorted_iff.mpr h'
    rw [← hsplit] at hmem
    exact (List.mem_append.mp hmem).resolve_left fun hfront' =>
      hstays (List.mem_map_of_mem hfront')
  have hpairs := c.sorted_pairwise
  rw [← hsplit] at hpairs
  exact (List.pairwise_append.mp hpairs).2.2 _ hfirst _ hrest

/-- Keys that may go from a map: so many of its keys that none of them expires later than one
that is not among them. -/
structure Soonest (c : Expiring) (n : ℕ) (gone : List String) : Prop where
  nodup : gone.Nodup
  held : ∀ key ∈ gone, key ∈ c.entries.keys
  length : gone.length = n
  le : ∀ {key key' e e'}, c.Holds key e → key ∈ gone → c.Holds key' e' → key' ∉ gone →
    e.expiresAt ≤ e'.expiresAt

/-- Nothing but this is fixed: whichever keys may go, there are ties by which they do. -/
theorem mem_doomed_favouring {gone : List String}
    (h : c.Soonest (c.size - (c.capacity - c.share)) gone) :
    key ∈ doomed { c with ties := .favouring gone } ↔ key ∈ gone := by
  generalize hn : c.size - (c.capacity - c.share) = n at h
  let front := soonestFirst (c.entries.entries.filter fun e => e.1 ∈ gone)
  let rest := soonestFirst (c.entries.entries.filter fun e => !decide (e.1 ∈ gone))
  have hheld : ∀ e : String × Entry, e ∈ c.entries.entries → c.Holds e.1 e.2 :=
    fun e he => KeyMap.get?_of_mem he
  have hordered : (front ++ rest).Pairwise fun a b => a.2.expiresAt ≤ b.2.expiresAt := by
    refine List.pairwise_append.mpr
      ⟨soonestFirst_pairwise _, soonestFirst_pairwise _, fun a ha b hb => ?_⟩
    obtain ⟨hamem, hagone⟩ := List.mem_filter.mp ((soonestFirst_perm _).mem_iff.mp ha)
    obtain ⟨hbmem, hbstays⟩ := List.mem_filter.mp ((soonestFirst_perm _).mem_iff.mp hb)
    exact h.le (hheld a hamem) (by simpa using hagone) (hheld b hbmem) (by simpa using hbstays)
  have hsorted : sorted { c with ties := .favouring gone } = front ++ rest :=
    List.mergeSort_of_pairwise (hordered.imp fun hle => decide_eq_true hle)
  -- the keys in front are the ones that may go
  have hkeys : (front.map Prod.fst).Perm gone := by
    refine ((soonestFirst_perm _).map Prod.fst).trans ?_
    refine (List.perm_ext_iff_of_nodup (List.filter_sublist.map Prod.fst |>.nodup c.entries.nodup)
      h.nodup).mpr fun k => ⟨fun hk => ?_, fun hk => ?_⟩
    · obtain ⟨e, he, rfl⟩ := List.mem_map.mp hk
      simpa using (List.mem_filter.mp he).2
    · obtain ⟨e, he, rfl⟩ := List.mem_map.mp (h.held k hk)
      exact List.mem_map_of_mem (List.mem_filter.mpr ⟨he, decide_eq_true hk⟩)
  have hlength : front.length = n := by
    rw [← List.length_map (f := Prod.fst), hkeys.length_eq, h.length]
  have hdoomed : doomed { c with ties := .favouring gone } = front.map Prod.fst := by
    show (List.map Prod.fst (sorted { c with ties := .favouring gone })).take
      (c.size - (c.capacity - c.share)) = _
    rw [hn, hsorted, ← List.map_take, List.take_append_of_le_length (Nat.le_of_eq hlength.symm),
      List.take_of_length_le (Nat.le_of_eq hlength)]
  rw [hdoomed, hkeys.mem_iff]

/-! ## Room for a key -/

theorem roomFor_of_spare (hcrowds : c.crowds key = true) (h : (c.purge now).size < c.capacity) :
    c.roomFor now key = c.purge now := by
  rw [roomFor_eq, if_pos hcrowds, makeRoom]
  exact if_pos h

theorem roomFor_of_full (hcrowds : c.crowds key = true) (h : c.capacity ≤ (c.purge now).size) :
    c.roomFor now key = (c.purge now).evict := by
  rw [roomFor_eq, if_pos hcrowds, makeRoom]
  exact if_neg (Nat.not_lt.mpr h)

theorem share_le_capacity (c : Expiring) : c.share ≤ c.capacity := by
  have := c.capacity_pos
  unfold share
  omega

/-- Making room takes what has expired, and leaves no entry that was not there. -/
theorem holds_roomFor (hcrowds : c.crowds key = true) (h : (c.roomFor now key).Holds key' e) :
    c.Holds key' e ∧ now < e.expiresAt := by
  by_cases hspare : (c.purge now).size < c.capacity
  · rw [roomFor_of_spare hcrowds hspare] at h
    exact holds_purge_iff.mp h
  · rw [roomFor_of_full hcrowds (Nat.not_lt.mp hspare)] at h
    exact holds_purge_iff.mp (holds_evict_iff.mp h).1

/-- A live entry that goes does not expire later than any that stays. -/
theorem roomFor_soonest (hcrowds : c.crowds key = true) {gone kept : String}
    (h : c.Holds gone e) (hlive : now < e.expiresAt) (hgone : ¬(c.roomFor now key).Holds gone e)
    (h' : (c.roomFor now key).Holds kept e') : e.expiresAt ≤ e'.expiresAt := by
  have hpurge : (c.purge now).Holds gone e := holds_purge_iff.mpr ⟨h, hlive⟩
  by_cases hspare : (c.purge now).size < c.capacity
  · rw [roomFor_of_spare hcrowds hspare] at hgone
    exact absurd hpurge hgone
  · rw [roomFor_of_full hcrowds (Nat.not_lt.mp hspare), holds_evict_iff] at hgone h'
    have hdoomed : gone ∈ (c.purge now).doomed := by
      by_contra hstays
      exact hgone ⟨hpurge, hstays⟩
    exact expiresAt_le_of_doomed hpurge hdoomed h'.1 h'.2

section

variable (hsize : c.size ≤ c.capacity) (hfull : c.capacity ≤ (c.purge now).size)

include hsize hfull

theorem size_purge_of_full : (c.purge now).size = c.capacity := by
  have hle : (c.purge now).size ≤ c.size := c.entries.size_filter_le _
  omega

/-- A map full of live entries loses its share of them. -/
theorem length_lost_evict : (c.lost (c.purge now).evict now).length = c.share := by
  have hleft : (c.purge now).evict.size = c.capacity - c.share := size_evict hfull
  have hparts : (c.lost (c.purge now).evict now).length + (c.purge now).evict.size
      = (c.purge now).size := (c.purge now).entries.length_lost_add_size_filter _
  have hshare := c.share_le_capacity
  rw [hleft, size_purge_of_full hsize hfull] at hparts
  omega

end

end Expiring

namespace Recorded

open Expiring (Within lost roomFor_within)

variable {r : Recorded} {key value : String} {ttl : ℕ} {e e' : Entry}

/-! ## Keys that are not there -/

/-- Whether the act writes a key that is not there. -/
def Inserts (r : Recorded) : Act → Prop
  | .write key _ _ => (r.cache.entries.get? key).isNone = true
  | .look _ | .drop _ | .wait _ => False

instance (r : Recorded) : DecidablePred r.Inserts
  | .write _ _ _ => inferInstanceAs (Decidable (_ = _))
  | .look _ | .drop _ | .wait _ => inferInstanceAs (Decidable False)

/-- How many of some acts write a key that is not there. -/
def insertions (r : Recorded) : List Act → ℕ
  | [] => 0
  | a :: acts => (if r.Inserts a then 1 else 0) + (r.act a).insertions acts

/-- A key that finds the map full is not there. -/
theorem crowds_iff {a : Act} :
    r.Crowds a ↔ r.Inserts a ∧ r.cache.capacity ≤ r.cache.size := by
  cases a with
  | write key value ttl =>
    show Expiring.crowds r.cache key = true ↔ _
    rw [Expiring.crowds, Bool.and_eq_true, decide_eq_true_eq]
    exact Iff.rfl
  | look key => exact ⟨False.elim, fun h => h.1.elim⟩
  | drop key => exact ⟨False.elim, fun h => h.1.elim⟩
  | wait millis => exact ⟨False.elim, fun h => h.1.elim⟩

/-- Only a key that was not there makes a map larger. -/
theorem size_act_le_add {a : Act} (hcalm : ¬r.Crowds a) :
    (r.act a).cache.size ≤ r.cache.size + if r.Inserts a then 1 else 0 := by
  cases a with
  | look key => exact r.cache.size_get_le r.now key
  | drop key => exact r.cache.entries.size_erase_le key
  | wait millis => exact Nat.le_refl _
  | write key value ttl =>
    have hroom : r.cache.roomFor r.now key = r.cache := by
      rw [Expiring.roomFor_eq]
      exact if_neg hcalm
    show (r.cache.set r.now ttl key value).size ≤ _
    unfold Expiring.set
    rw [hroom]
    dsimp only
    split
    · have hput : ((r.cache.entries.erase key).put key ⟨value, r.now + ttl⟩).size
          = (r.cache.entries.erase key).size + 1 :=
        KeyMap.size_put_of_notMem (r.cache.entries.notMem_keys_erase key) _
      show ((r.cache.entries.erase key).put key ⟨value, r.now + ttl⟩).size
        ≤ r.cache.entries.size + _
      rw [hput]
      split
      next => exact Nat.add_le_add_right (r.cache.entries.size_erase_le key) 1
      next hthere =>
        have hmem : key ∈ r.cache.entries.keys := by
          by_contra hnot
          rw [← KeyMap.get?_eq_none_iff] at hnot
          exact hthere (by simp [Inserts, hnot])
        exact KeyMap.size_erase_lt hmem
    · exact Nat.le_add_right _ _

/-- As long as there is room for all keys that are not there, none finds the map full. -/
theorem not_crowds_of_insertions {acts before after : List Act} {a : Act}
    (hroom : r.cache.size + r.insertions acts ≤ r.cache.capacity)
    (hacts : acts = before ++ a :: after) : ¬(r.run before).Crowds a := by
  induction before generalizing r acts with
  | nil =>
    subst hacts
    rw [crowds_iff]
    rintro ⟨hinserts, hfull⟩
    have hone : r.Inserts a := hinserts
    have hsize : r.cache.capacity ≤ r.cache.size := hfull
    rw [List.nil_append, insertions, if_pos hone] at hroom
    omega
  | cons first before ih =>
    subst hacts
    rw [List.cons_append, insertions] at hroom
    have hcalm : ¬r.Crowds first := by
      rw [crowds_iff]
      rintro ⟨hinserts, hfull⟩
      rw [if_pos hinserts] at hroom
      omega
    have hsize := size_act_le_add hcalm
    refine ih (r := r.act first) ?_ rfl
    rw [capacity_act]
    omega

/-- Without a key that finds the map full, a write leaves all entries of other keys. -/
theorem get?_write_of_calm (hcalm : ¬r.Crowds (.write key value ttl)) {key' : String}
    (hne : key' ≠ key) : (r.act (.write key value ttl)).cache.entries.get? key'
      = r.cache.entries.get? key' :=
  Option.ext fun _ => holds_set_iff (Ne.symm hne) hcalm

/-! ## A key that finds the map full -/

/-- What a write leaves under other keys is what making room leaves. -/
theorem holds_write_iff {key' : String} (hne : key' ≠ key) :
    (r.act (.write key value ttl)).cache.Holds key' e ↔
      (r.cache.roomFor r.now key).Holds key' e := by
  rw [act_write]
  split
  · rw [holds_put, if_neg (Ne.symm hne)]
    rfl
  · rfl

theorem get?_write (hnone : r.cache.entries.get? key = none) :
    (r.act (.write key value ttl)).cache.entries.get? key =
      if r.now + ttl < Expiring.lastMoment then some ⟨value, r.now + ttl⟩ else none := by
  rw [act_write]
  split
  · exact holds_put.mpr (by rw [if_pos rfl]; rfl)
  · -- making room does not bring the key in
    show (r.cache.roomFor r.now key).entries.get? key = none
    cases hroom : (r.cache.roomFor r.now key).entries.get? key with
    | none => rfl
    | some e =>
      have hheld : r.cache.Holds key e := roomFor_within r.cache r.now key key e hroom
      rw [Expiring.Holds, hnone] at hheld
      cases hheld

theorem size_write_le (r : Recorded) (key value : String) (ttl : ℕ) :
    (r.act (.write key value ttl)).cache.size ≤ (r.cache.roomFor r.now key).size + 1 := by
  rw [act_write]
  split
  · show (((r.cache.roomFor r.now key).entries.erase key).put key _).size ≤ _
    rw [KeyMap.size_put_of_notMem (KeyMap.notMem_keys_erase _ _)]
    exact Nat.add_le_add_right ((r.cache.roomFor r.now key).entries.size_erase_le key) 1
  · exact Nat.le_succ _

/-- What the live keys lose by a write is what they lose when room is made for its key. -/
theorem lost_write (hnone : r.cache.entries.get? key = none) :
    r.cache.lost (r.act (.write key value ttl)).cache r.now
      = r.cache.lost (r.cache.roomFor r.now key) r.now := by
  refine List.filter_congr fun key' hmem => ?_
  have hne : key' ≠ key := by
    rintro rfl
    have hpurge : (r.cache.purge r.now).entries.get? key' ≠ none :=
      fun hgone => KeyMap.get?_eq_none_iff.mp hgone hmem
    obtain ⟨e, hholds⟩ := Option.ne_none_iff_exists'.mp hpurge
    have hheld : r.cache.Holds key' e := (Expiring.holds_purge_iff.mp hholds).1
    rw [Expiring.Holds, hnone] at hheld
    cases hheld
  rw [show (r.act (.write key value ttl)).cache.entries.get? key'
    = (r.cache.roomFor r.now key).entries.get? key' from Option.ext fun _ => holds_write_iff hne]

section

variable (hcrowds : r.cache.crowds key = true)

include hcrowds

theorem get?_of_crowds : r.cache.entries.get? key = none := by
  have hinserts : (r.cache.entries.get? key).isNone = true := by
    unfold Expiring.crowds at hcrowds
    exact (Bool.and_eq_true_iff.mp hcrowds).1
  exact Option.isNone_iff_eq_none.mp hinserts

/-- An entry after a write that found the map full is the one written, or it was there and
live. -/
theorem holds_of_crowding {key' : String}
    (h : (r.act (.write key value ttl)).cache.Holds key' e) :
    key' = key ∨ (r.cache.Holds key' e ∧ r.now < e.expiresAt) := by
  by_cases hne : key' = key
  · exact .inl hne
  · exact .inr (Expiring.holds_roomFor hcrowds ((holds_write_iff hne).mp h))

/-- A live entry that made room for a key does not expire later than any that stays. -/
theorem crowding_soonest {gone kept : String} (h : r.cache.Holds gone e)
    (hlive : r.now < e.expiresAt)
    (hgone : ¬(r.act (.write key value ttl)).cache.Holds gone e) (hne : kept ≠ key)
    (h' : (r.act (.write key value ttl)).cache.Holds kept e') : e.expiresAt ≤ e'.expiresAt := by
  have hother : gone ≠ key := by
    rintro rfl
    rw [Expiring.Holds, get?_of_crowds hcrowds] at h
    cases h
  rw [holds_write_iff hother] at hgone
  exact Expiring.roomFor_soonest hcrowds h hlive hgone ((holds_write_iff hne).mp h')

/-- When dropping what has expired leaves room, every live entry stays. -/
theorem holds_of_spare (hspare : (r.cache.purge r.now).size < r.cache.capacity) {key' : String}
    (h : r.cache.Holds key' e) (hlive : r.now < e.expiresAt) :
    (r.act (.write key value ttl)).cache.Holds key' e := by
  have hne : key' ≠ key := by
    rintro rfl
    rw [Expiring.Holds, get?_of_crowds hcrowds] at h
    cases h
  rw [holds_write_iff hne, Expiring.roomFor_of_spare hcrowds hspare]
  exact Expiring.holds_purge_iff.mpr ⟨h, hlive⟩

variable (hfull : r.cache.capacity ≤ (r.cache.purge r.now).size)

include hfull

/-- A key that finds the map full of live entries makes them fewer by a share. -/
theorem length_lost_write (hsize : r.cache.size ≤ r.cache.capacity) :
    (r.cache.lost (r.act (.write key value ttl)).cache r.now).length = r.cache.share := by
  rw [lost_write (get?_of_crowds hcrowds), Expiring.roomFor_of_full hcrowds hfull]
  exact Expiring.length_lost_evict hsize hfull

/-- The keys that follow find room until there are as many as a share. -/
theorem calm_after_eviction {acts before rest : List Act} {a : Act}
    (hfew : (r.act (.write key value ttl)).insertions acts ≤ r.cache.share - 1)
    (hacts : acts = before ++ a :: rest) :
    ¬((r.act (.write key value ttl)).run before).Crowds a := by
  refine not_crowds_of_insertions ?_ hacts
  have hleft : (r.cache.roomFor r.now key).size = r.cache.capacity - r.cache.share := by
    rw [Expiring.roomFor_of_full hcrowds hfull]
    exact Expiring.size_evict hfull
  have hwrite := size_write_le r key value ttl
  have hshare := r.cache.share_le_capacity
  have hpos := r.cache.share_pos
  rw [capacity_act]
  omega

end

/-- A key that is not there and finds the map at capacity. What has expired is dropped, and
what stays keeps its text and its end. If that leaves room, every live entry stays; if not, a
tenth of the capacity but at least one goes, none of which expires later than one that stays,
and that many keys but one can follow, between any other acts, before one changes the entry of
another key again. The new key is there, if its end is within the clock. -/
theorem insertion_evicts_soonest (capacity begin : ℕ) (ties : Ties) (steps : List Step)
    (key value : String) (ttl : ℕ) :
    let r := (start capacity begin ties).run (steps.flatMap Step.acts)
    let after := r.act (.write key value ttl)
    let share := max 1 (capacity / 10)
    Storage.after (.expiring (.empty capacity ties)) begin steps = (.expiring r.cache, r.now) ∧
    (r.cache.entries.get? key = none → max 1 capacity ≤ r.cache.size →
      (∀ key' e, after.cache.Holds key' e →
        key' = key ∨ r.cache.Holds key' e ∧ r.now < e.expiresAt) ∧
      ((r.cache.purge r.now).size < max 1 capacity → ∀ key' e, r.cache.Holds key' e →
        r.now < e.expiresAt → after.cache.Holds key' e) ∧
      (max 1 capacity ≤ (r.cache.purge r.now).size →
        (r.cache.lost after.cache r.now).length = share ∧
        (∀ gone kept e e', r.cache.Holds gone e → r.now < e.expiresAt →
          ¬after.cache.Holds gone e → kept ≠ key → after.cache.Holds kept e' →
            e.expiresAt ≤ e'.expiresAt) ∧
        ∀ before key' value' ttl' rest,
          after.insertions (before ++ .write key' value' ttl' :: rest) ≤ share - 1 →
            ∀ other, other ≠ key' →
              ((after.run before).act (.write key' value' ttl')).cache.entries.get? other
                = (after.run before).cache.entries.get? other) ∧
      after.cache.entries.get? key =
        if r.now + ttl < Expiring.lastMoment then some ⟨value, r.now + ttl⟩ else none) := by
  intro r after share
  have hsize : r.cache.size ≤ max capacity 1 :=
    size_run_le (r := start capacity begin ties) (Nat.zero_le _) _
  have hcapacity : r.cache.capacity = max 1 capacity :=
    (capacity_run (start capacity begin ties) _).trans (Nat.max_comm capacity 1)
  have hshare : r.cache.share = share := by
    show max (r.cache.capacity / 10) 1 = max 1 (capacity / 10)
    rw [hcapacity]
    omega
  refine ⟨after_eq_run (start capacity begin ties) steps, fun hnone hfull => ?_⟩
  have hcrowds : r.cache.crowds key = true := by
    simp [Expiring.crowds, hnone, hcapacity, hfull]
  refine ⟨fun key' e h => holds_of_crowding hcrowds h, fun hspare key' e h hlive => ?_,
    fun hlive => ⟨?_, ?_, ?_⟩, get?_write hnone⟩
  · exact holds_of_spare hcrowds (hcapacity ▸ hspare) h hlive
  · rw [← hshare]
    exact length_lost_write hcrowds (hcapacity ▸ hlive) (by omega)
  · intro gone kept e e' h hends hgone hne h'
    exact crowding_soonest hcrowds h hends hgone hne h'
  · intro before key' value' ttl' rest hfew other hne
    rw [← hshare] at hfew
    exact get?_write_of_calm (calm_after_eviction hcrowds (hcapacity ▸ hlive) hfew rfl) hne

/-- A map with room for twenty entries that is full of live ones, four of which expire at the same
moment and before all others. Two of the four make room for the key, the ones that the ties say,
so that the next key leaves it as it is. -/
theorem insertion_evicts_soonest_twenty :
    let steps := (List.range 20).map fun i => Step.call (.set (Text.numeral i) "" (100 + i / 4))
    let r := (start 20 0 (.favouring ["1", "3"])).run (steps.flatMap Step.acts)
    let after := r.act (.write "new" "" 50)
    r.cache.entries.get? "new" = none ∧ 20 ≤ (r.cache.purge r.now).size ∧
      (r.cache.lost after.cache r.now).length = 2 ∧
      r.cache.lost after.cache r.now = ["1", "3"] ∧
      (after.act (.write "newer" "" 50)).cache.entries.get? "new" = some ⟨"", 50⟩ := by
  intro steps r after
  have hnone : r.cache.entries.get? "new" = none := by decide +kernel
  have hlive : 20 ≤ (r.cache.purge r.now).size := by decide +kernel
  obtain ⟨_, hinserted⟩ :=
    insertion_evicts_soonest 20 0 (.favouring ["1", "3"]) steps "new" "" 50
  obtain ⟨_, _, hevicts, hpresent⟩ := hinserted hnone (by decide +kernel)
  obtain ⟨hlost, _, hlater⟩ := hevicts hlive
  have hfew : after.insertions [.write "newer" "" 50] ≤ max 1 (20 / 10) - 1 := by
    show (if after.Inserts (.write "newer" "" 50) then 1 else 0) + 0 ≤ 1
    split <;> omega
  refine ⟨hnone, hlive, hlost, by cbv, ?_⟩
  have hstays := hlater [] "newer" "" 50 [] hfew "new" (by decide)
  have hnow : r.now = 0 := rfl
  have hend : r.now + 50 < Expiring.lastMoment := by rw [hnow]; decide
  rw [if_pos hend, hnow] at hpresent
  exact hstays.trans hpresent

end Recorded

end RegionPricing.Cache
