import RegionPricing.Proofs.Cache.Room
import RegionPricing.Proofs.Cache.Writes

/-!
# A bounded map whose entries live for a time

`Recorded` is a map with expiring entries together with the time and with what happened to
the map so far. `Tracks` says how the entries follow from the events: each is the last write
of its key, and the last write of a key is held while it lives, unless a new key found the
map full since then. Every act keeps it (`tracks_act`), so it holds after every run, and then
a lookup tells of a key exactly what was written last (`bounded_map_with_lifetimes`).
-/

namespace RegionPricing.Cache

open Expiring (crowds lastMoment)

/-- A map, the time, and what happened to the map so far. -/
structure Recorded where
  cache : Expiring
  now : ℕ
  events : List Event

namespace Recorded

/-- An empty map, at a time. -/
def start (capacity now : ℕ) (ties : Ties) : Recorded := ⟨.empty capacity ties, now, []⟩

/-- What it comes to that a text is to be written: one that would outlive the clock is not. -/
def writeEvents (r : Recorded) (key value : String) (ttl : ℕ) : List Event :=
  (if r.cache.crowds key then [.crowded] else []) ++
    if r.now + ttl < lastMoment then [.wrote key value r.now ttl] else []

/-- The map after an act. -/
def act (r : Recorded) : Act → Recorded
  | .look key => { r with cache := (r.cache.get r.now key).2 }
  | .write key value ttl => { r with
      cache := r.cache.set r.now ttl key value
      events := r.events ++ r.writeEvents key value ttl }
  | .drop key => { r with
      cache := r.cache.delete key
      events := r.events ++ [.dropped key] }
  | .wait millis => { r with now := r.now + millis }

/-- The map after some acts. -/
def run (r : Recorded) (acts : List Act) : Recorded := acts.foldl act r

/-- Whether the act writes a key that is not there, and the map is full. -/
def Crowds (r : Recorded) : Act → Prop
  | .write key _ _ => r.cache.crowds key = true
  | .look _ | .drop _ | .wait _ => False

variable {r : Recorded} {key value : String} {time ttl : ℕ} {since : List Event} {e : Entry}

/-! ## Calls are made of acts -/

theorem run_append (r : Recorded) (acts acts' : List Act) :
    r.run (acts ++ acts') = (r.run acts).run acts' :=
  List.foldl_append

theorem run_look (r : Recorded) (keys : List String) :
    ((r.run (keys.map .look)).cache, (r.run (keys.map .look)).now)
      = ((r.cache.getMany r.now keys).2, r.now) := by
  induction keys using List.reverseRecOn with
  | nil => rfl
  | append_singleton keys last ih =>
    obtain ⟨hcache, hnow⟩ := Prod.mk.inj ih
    rw [List.map_append, run_append, Expiring.getMany_append, ← hcache]
    show (((r.run (keys.map .look)).cache.get (r.run (keys.map .look)).now last).2,
      (r.run (keys.map .look)).now) = _
    rw [hnow]
    split
    next h => rw [h]
    next h => rw [h]

theorem run_write (r : Recorded) (ttl : ℕ) (items : List (String × String)) :
    let acts := items.map fun e => Act.write e.1 e.2 ttl
    ((r.run acts).cache, (r.run acts).now) = (r.cache.setMany r.now ttl items, r.now) := by
  induction items generalizing r with
  | nil => rfl
  | cons e items ih => exact ih (r.act (.write e.1 e.2 ttl))

/-- A call does its acts one after the other, in no time. -/
theorem perform_eq_run (r : Recorded) (c : Call) :
    (Storage.perform (.expiring r.cache) r.now c).2 = .expiring (r.run c.acts).cache ∧
      (r.run c.acts).now = r.now := by
  cases c with
  | name => exact ⟨rfl, rfl⟩
  | get key =>
    refine ⟨?_, rfl⟩
    show (Storage.get (.expiring r.cache) r.now key).2 = .expiring (r.cache.get r.now key).2
    unfold Storage.get
    dsimp only
    split
    next h => rw [h]
    next h => rw [h]
  | set key value ttl => exact ⟨rfl, rfl⟩
  | delete key => exact ⟨rfl, rfl⟩
  | getMany keys =>
    obtain ⟨hcache, hnow⟩ := Prod.mk.inj (run_look r keys)
    exact ⟨congrArg Storage.expiring hcache.symm, hnow⟩
  | setMany items ttl =>
    obtain ⟨hcache, hnow⟩ := Prod.mk.inj (run_write r ttl items)
    exact ⟨congrArg Storage.expiring hcache.symm, hnow⟩
  | size => exact ⟨rfl, rfl⟩

theorem after_eq_run (r : Recorded) (steps : List Step) :
    Storage.after (.expiring r.cache) r.now steps
      = (.expiring (r.run (steps.flatMap Step.acts)).cache,
        (r.run (steps.flatMap Step.acts)).now) := by
  induction steps generalizing r with
  | nil => rfl
  | cons step steps ih =>
    rw [List.flatMap_cons, run_append, ← ih]
    cases step with
    | call c =>
      obtain ⟨hcache, hnow⟩ := perform_eq_run r c
      rw [Storage.after, hcache, ← hnow]
      rfl
    | wait millis => rfl

/-! ## Other keys -/

theorem holds_get_iff {c : Expiring} {now : ℕ} {key' : String} (hlive : now < e.expiresAt) :
    (c.get now key').2.Holds key e ↔ c.Holds key e := by
  refine ⟨Expiring.get_within c now key' key e, fun h => ?_⟩
  unfold Expiring.get
  split
  next => exact h
  next hnone =>
    show (c.entries.erase key').get? key = some e
    rw [KeyMap.get?_erase, if_neg ?_]
    · exact h
    · -- the live entry would have been found under the key
      rintro rfl
      rw [Expiring.peek_eq_some_iff.mpr ⟨e, h, rfl, hlive⟩] at hnone
      cases hnone

theorem holds_set_iff {c : Expiring} {now : ℕ} {key' : String} (hne : key' ≠ key)
    (hroom : ¬c.crowds key') : (c.set now ttl key' value).Holds key e ↔ c.Holds key e := by
  unfold Expiring.set
  rw [Expiring.roomFor_eq, if_neg hroom]
  dsimp only
  split
  · show ((c.entries.erase key').put key' _).get? key = some e ↔ _
    rw [KeyMap.get?_put, if_neg hne, KeyMap.get?_erase, if_neg hne]
    rfl
  · exact Iff.rfl

theorem holds_delete_iff {c : Expiring} {key' : String} (hne : key' ≠ key) :
    (c.delete key').Holds key e ↔ c.Holds key e := by
  show (c.entries.erase key').get? key = some e ↔ _
  rw [KeyMap.get?_erase, if_neg hne]
  rfl

/-- Unless a new key finds the map full, an act leaves the live entries of other keys as they
are. -/
theorem holds_act_iff {a : Act} (hcalm : ¬r.Crowds a) (hother : ¬a.Writes key)
    (hlive : r.now < e.expiresAt) : (r.act a).cache.Holds key e ↔ r.cache.Holds key e := by
  cases a with
  | look key' => exact holds_get_iff hlive
  | write key' value ttl => exact holds_set_iff hother hcalm
  | drop key' => exact holds_delete_iff hother
  | wait millis => exact Iff.rfl

/-! ## Sizes -/

theorem capacity_act (r : Recorded) (a : Act) : (r.act a).cache.capacity = r.cache.capacity := by
  cases a with
  | look key => exact r.cache.capacity_get r.now key
  | write key value ttl => exact r.cache.capacity_set r.now ttl key value
  | drop key => rfl
  | wait millis => rfl

theorem capacity_run (r : Recorded) (acts : List Act) :
    (r.run acts).cache.capacity = r.cache.capacity := by
  induction acts generalizing r with
  | nil => rfl
  | cons a acts ih => exact (ih (r.act a)).trans (r.capacity_act a)

theorem size_act_le (h : r.cache.size ≤ r.cache.capacity) (a : Act) :
    (r.act a).cache.size ≤ r.cache.capacity := by
  cases a with
  | look key => exact Nat.le_trans (r.cache.size_get_le r.now key) h
  | write key value ttl => exact r.cache.size_set_le r.now ttl key value h
  | drop key => exact Nat.le_trans (r.cache.entries.size_erase_le key) h
  | wait millis => exact h

theorem size_run_le (h : r.cache.size ≤ r.cache.capacity) (acts : List Act) :
    (r.run acts).cache.size ≤ r.cache.capacity := by
  induction acts generalizing r with
  | nil => exact h
  | cons a acts ih =>
    have hact := size_act_le h a
    rw [← capacity_act r a] at hact ⊢
    exact ih hact

/-! ## Entries and events -/

/-- The entries as they follow from the events. -/
structure Tracks (r : Recorded) : Prop where
  /-- An entry is the last write of its key. -/
  held : ∀ {key e}, r.cache.Holds key e → ∃ time ttl since,
    LastWrite r.events key e.value time ttl since ∧ e.expiresAt = time + ttl
  /-- A last write is held while it lives, unless a new key found the map full since then. -/
  kept : ∀ {key value time ttl since}, LastWrite r.events key value time ttl since →
    .crowded ∉ since → r.now < time + ttl → r.cache.Holds key ⟨value, time + ttl⟩

theorem tracks_start (capacity now : ℕ) (ties : Ties) : Tracks (start capacity now ties) where
  held h := absurd h (Expiring.not_holds_empty capacity ties _ _)
  kept h := absurd h not_lastWrite_nil

/-- The last write of what is held is still the last one after an event of another key. -/
theorem Tracks.held_later (h : Tracks r) (event : Event) (he : ¬event.Concerns key)
    (hholds : r.cache.Holds key e) : ∃ time ttl since,
      LastWrite (r.events ++ [event]) key e.value time ttl since ∧ e.expiresAt = time + ttl := by
  obtain ⟨time, ttl, since, hlast, hexpires⟩ := h.held hholds
  exact ⟨time, ttl, since ++ [event], hlast.later he, hexpires⟩

theorem tracks_look (h : Tracks r) (key : String) : Tracks (r.act (.look key)) where
  held hholds := h.held (Expiring.get_within _ _ _ _ _ hholds)
  kept hlast hcalm hlive := (holds_get_iff hlive).mpr (h.kept hlast hcalm hlive)

theorem tracks_wait (h : Tracks r) (millis : ℕ) : Tracks (r.act (.wait millis)) where
  held := h.held
  kept hlast hcalm hlive := h.kept hlast hcalm (Nat.lt_of_le_of_lt (Nat.le_add_right _ _) hlive)

theorem tracks_drop (h : Tracks r) (key : String) : Tracks (r.act (.drop key)) where
  held hholds := by
    obtain ⟨hbefore, hne⟩ := Expiring.holds_delete hholds
    exact h.held_later (.dropped key) (Ne.symm hne) hbefore
  kept hlast hcalm hlive := by
    rcases lastWrite_append_iff.mp hlast with ⟨hevent, _⟩ | ⟨hother, since', rfl, hlast'⟩
    · cases hevent
    · refine (holds_delete_iff hother).mpr (h.kept hlast' (fun hmem => hcalm ?_) hlive)
      exact List.mem_append_left _ hmem

/-! A write makes room for its key first. -/

/-- With room for a key. -/
def prepared (r : Recorded) (key : String) : Recorded := { r with
  cache := r.cache.roomFor r.now key
  events := r.events ++ if r.cache.crowds key then [.crowded] else [] }

/-- With a text under a key for which there is room. -/
def put (r : Recorded) (key value : String) (ttl : ℕ) : Recorded := { r with
  cache := { r.cache with
    entries := (r.cache.entries.erase key).put key ⟨value, r.now + ttl⟩ }
  events := r.events ++ [.wrote key value r.now ttl] }

theorem act_write (r : Recorded) (key value : String) (ttl : ℕ) :
    r.act (.write key value ttl) =
      if r.now + ttl < lastMoment then (r.prepared key).put key value ttl else r.prepared key := by
  unfold act writeEvents Expiring.set prepared put
  dsimp only
  split
  · rw [List.append_assoc]
  · rw [List.append_nil]

theorem tracks_prepared (h : Tracks r) (key : String) : Tracks (r.prepared key) where
  held hholds := by
    have hbefore := Expiring.roomFor_within _ _ _ _ _ hholds
    unfold prepared
    split
    · exact h.held_later .crowded id hbefore
    · rw [List.append_nil]
      exact h.held hbefore
  kept hlast hcalm hlive := by
    unfold prepared at hlast ⊢
    rw [Expiring.roomFor_eq]
    by_cases hcrowds : r.cache.crowds key
    · rw [if_pos hcrowds] at hlast
      rcases lastWrite_append_iff.mp hlast with ⟨hevent, _⟩ | ⟨_, since', rfl, _⟩
      · cases hevent
      · exact absurd (List.mem_append_right _ List.mem_cons_self) hcalm
    · rw [if_neg hcrowds, List.append_nil] at hlast
      rw [if_neg hcrowds]
      exact h.kept hlast hcalm hlive

theorem holds_put {key' : String} : (r.put key value ttl).cache.Holds key' e ↔
    if key = key' then e = ⟨value, r.now + ttl⟩ else r.cache.Holds key' e := by
  show ((r.cache.entries.erase key).put key _).get? key' = some e ↔ _
  rw [KeyMap.get?_put]
  split
  next => exact ⟨fun h => (Option.some.inj h).symm, fun h => h ▸ rfl⟩
  next hne =>
    rw [KeyMap.get?_erase, if_neg hne]
    rfl

theorem tracks_put (h : Tracks r) (key value : String) (ttl : ℕ) :
    Tracks (r.put key value ttl) where
  held {key' e} hholds := by
    rw [holds_put] at hholds
    split at hholds
    next heq => exact ⟨r.now, ttl, [], heq ▸ hholds ▸ lastWrite_wrote, hholds ▸ rfl⟩
    next hne => exact h.held_later (.wrote key value r.now ttl) hne hholds
  kept {key' value' time' ttl' since} hlast hcalm hlive := by
    rw [holds_put]
    rcases lastWrite_append_iff.mp hlast with ⟨hevent, _⟩ | ⟨hother, since', rfl, hlast'⟩
    · cases hevent
      rw [if_pos rfl]
    · have hne : key ≠ key' := hother
      rw [if_neg hne]
      exact h.kept hlast' (fun hmem => hcalm (List.mem_append_left _ hmem)) hlive

theorem tracks_act (h : Tracks r) (a : Act) : Tracks (r.act a) := by
  cases a with
  | look key => exact tracks_look h key
  | write key value ttl =>
    rw [act_write]
    split
    · exact tracks_put (tracks_prepared h key) key value ttl
    · exact tracks_prepared h key
  | drop key => exact tracks_drop h key
  | wait millis => exact tracks_wait h millis

theorem tracks_run (h : Tracks r) (acts : List Act) : Tracks (r.run acts) :=
  List.foldlRecOn acts act h fun _ h a _ => tracks_act h a

/-! ## Lookups -/

theorem get_eq_ok_iff {c : Expiring} {now : ℕ} :
    (Storage.get (.expiring c) now key).1 = .ok value ↔ c.peek now key = some value := by
  rw [← Expiring.get_fst]
  unfold Storage.get
  dsimp only
  split
  next h => simp [h]
  next h => simp [h]

/-- A bounded map with lifetimes. It never has more entries than its capacity. A lookup finds
what was written last under the key, and only while that lives; and while that lives it finds
it, unless a new key found the map full since then. Any other act leaves the live entries of
all keys but its own as they are. -/
theorem bounded_map_with_lifetimes (capacity begin : ℕ) (ties : Ties) (steps : List Step) :
    let r := (start capacity begin ties).run (steps.flatMap Step.acts)
    Storage.after (.expiring (.empty capacity ties)) begin steps = (.expiring r.cache, r.now) ∧
    r.cache.size ≤ max 1 capacity ∧
    (∀ key value, (Storage.get (.expiring r.cache) r.now key).1 = .ok value →
      ∃ time ttl since, LastWrite r.events key value time ttl since ∧ r.now < time + ttl) ∧
    (∀ key value time ttl since, LastWrite r.events key value time ttl since →
      .crowded ∉ since → r.now < time + ttl →
        (Storage.get (.expiring r.cache) r.now key).1 = .ok value) ∧
    (∀ keys, ∃ found, (Storage.getMany (.expiring r.cache) r.now keys).1 = .ok found ∧
      ∀ key value, found.get? key = some value ↔
        key ∈ keys ∧ (Storage.get (.expiring r.cache) r.now key).1 = .ok value) ∧
    ∀ a key e, ¬r.Crowds a → ¬a.Writes key → r.now < e.expiresAt →
      ((r.act a).cache.Holds key e ↔ r.cache.Holds key e) := by
  intro r
  have htracks : Tracks r := tracks_run (tracks_start capacity begin ties) _
  refine ⟨after_eq_run (start capacity begin ties) steps, ?_, fun key value hfound => ?_,
    fun key value time ttl since hlast hcalm hlive => ?_, fun keys => ?_,
    fun a key e hcalm hother hlive => holds_act_iff hcalm hother hlive⟩
  · have hsize : r.cache.size ≤ max capacity 1 :=
      size_run_le (r := start capacity begin ties) (Nat.zero_le _) _
    rwa [Nat.max_comm] at hsize
  · obtain ⟨e, hholds, rfl, hlive⟩ := Expiring.holds_of_peek (get_eq_ok_iff.mp hfound)
    obtain ⟨time, ttl, since, hlast, hexpires⟩ := htracks.held hholds
    exact ⟨time, ttl, since, hlast, hexpires ▸ hlive⟩
  · have hholds := htracks.kept hlast hcalm hlive
    exact get_eq_ok_iff.mpr (Expiring.peek_eq_some_iff.mpr ⟨_, hholds, rfl, hlive⟩)
  · refine ⟨(r.cache.getMany r.now keys).1, rfl, fun key value => ?_⟩
    rw [get_eq_ok_iff, (Expiring.getMany_peek r.cache r.now keys key).2]
    by_cases hmem : key ∈ keys <;> simp [hmem]

/-- A map with room for one entry, which has to make room for the second key and finds that
the first has expired. -/
theorem bounded_map_with_lifetimes_single :
    let r := (start 1 0 .asWritten).run ([Step.call (.set "a" "1" 10), .wait 20,
      .call (.set "b" "2" 100)].flatMap Step.acts)
    LastWrite r.events "b" "2" 20 100 [] ∧ .crowded ∈ r.events ∧ r.cache.size ≤ 1 ∧
      (Storage.get (.expiring r.cache) r.now "b").1 = .ok "2" := by
  obtain ⟨_, hsize, _, hkept, _⟩ := bounded_map_with_lifetimes 1 0 .asWritten
    [.call (.set "a" "1" 10), .wait 20, .call (.set "b" "2" 100)]
  have hlast : LastWrite ((start 1 0 .asWritten).run ([Step.call (.set "a" "1" 10), .wait 20,
      .call (.set "b" "2" 100)].flatMap Step.acts)).events "b" "2" 20 100 [] :=
    ⟨[.wrote "a" "1" 0 10, .crowded], by decide +kernel, by simp⟩
  exact ⟨hlast, by decide +kernel, hsize,
    hkept "b" "2" 20 100 [] hlast (by simp) (by decide +kernel)⟩

end Recorded

end RegionPricing.Cache
