import Mathlib.Data.Set.Operations
import RegionPricing.Proofs.Cache.Commands
import RegionPricing.Proofs.Cache.Writes

/-!
# A cache that keeps to its space

A cache on a server that others use too names only the keys of its space, the full keys. What
it did so far is a list of events, and `Remote.Reaches` says what they have made of the server:
under every key of the server the events have been applied one after the other, and an event
concerns one full key alone (`Remote.store`). Each call keeps it, so it holds after every run.

Three things follow. Keys outside of the space are as they were; answers are the same on any
two servers that hold the same in the space; and a lookup finds what the last event of its key
left, or what was there in the beginning. `Remote.confined_map_with_lifetimes` puts this
together.
-/

namespace RegionPricing.Cache

/-! ## What happens in a run -/

/-- What an act at a time does to the entries, where no room has to be made for it. -/
def Act.event? (now : ℕ) : Act → Option Event
  | .write key value ttl => some (.wrote key value now ttl)
  | .drop key => some (.dropped key)
  | .look _ | .wait _ => none

def Call.events (now : ℕ) (c : Call) : List Event := c.acts.filterMap (Act.event? now)

/-- What some steps that begin at a time do to the entries. -/
def eventsFrom (now : ℕ) : List Step → List Event
  | [] => []
  | .call c :: steps => c.events now ++ eventsFrom now steps
  | .wait millis :: steps => eventsFrom (now + millis) steps

theorem events_getMany (now : ℕ) (keys : List String) : (Call.getMany keys).events now = [] := by
  simp [Call.events, Call.acts, Act.event?]

theorem events_setMany (now ttl : ℕ) (items : List (String × String)) :
    (Call.setMany items ttl).events now = items.map fun e => .wrote e.1 e.2 now ttl := by
  simp [Call.events, Call.acts, Act.event?, List.filterMap_map, Function.comp_def]

namespace Remote

/-- What is stored under a key of the server after an event. -/
def store (r : Remote) (text : String) (o : Option Stored) : Event → Option Stored
  | .wrote key value time ttl =>
    if r.fullKey key = text then some ⟨value, some (time + 1000 * seconds ttl)⟩ else o
  | .dropped key => if r.fullKey key = text then none else o
  | .crowded => o

/-- What a cache has become after some events. -/
structure Reaches (r : Remote) (events : List Event) (r' : Remote) : Prop where
  space : r'.space = r.space
  failing : r'.server.failing = r.server.failing
  contents : ∀ text, r'.server.contents.get? text
    = events.foldl (r.store text) (r.server.contents.get? text)
  /-- The commands sent since then name full keys. -/
  sent : ∃ cs, r'.server.log = r.server.log ++ cs ∧
    ∀ c ∈ cs, ∀ text ∈ c.keys, text ∈ Set.range r.fullKey

variable {r r' s s' : Remote} {events events' : List Event} {now ttl : ℕ} {key value text : String}
  {o : Option Stored} {e : Stored}

theorem fullKey_congr (h : r'.space = r.space) : r'.fullKey = r.fullKey := by
  funext key
  unfold fullKey
  rw [h]

theorem store_congr (h : r'.space = r.space) : r'.store = r.store := by
  funext text o event
  unfold store
  rw [fullKey_congr h]

theorem Reaches.refl (r : Remote) : r.Reaches [] r where
  space := rfl
  failing := rfl
  contents _ := rfl
  sent := ⟨[], (List.append_nil _).symm, by simp⟩

theorem Reaches.trans (h : r.Reaches events r') (h' : r'.Reaches events' s) :
    r.Reaches (events ++ events') s where
  space := h'.space.trans h.space
  failing := h'.failing.trans h.failing
  contents text := by
    rw [List.foldl_append, ← h.contents text, ← store_congr h.space]
    exact h'.contents text
  sent := by
    obtain ⟨cs, hlog, hcs⟩ := h.sent
    obtain ⟨cs', hlog', hcs'⟩ := h'.sent
    rw [fullKey_congr h.space] at hcs'
    refine ⟨cs ++ cs', by rw [hlog', hlog, List.append_assoc], fun c hc => ?_⟩
    rcases List.mem_append.mp hc with hc | hc
    · exact hcs c hc
    · exact hcs' c hc

/-! ## Calls -/

theorem mem_range_of_single (r : Remote) (key : String) :
    ∀ text ∈ [r.fullKey key], text ∈ Set.range r.fullKey :=
  fun _ htext => ⟨key, (List.mem_singleton.mp htext).symm⟩

/-- A command that names full keys, by what it does to the contents. -/
theorem reaches_execute (hworks : r.server.failing = false) {c : Command}
    (hkeys : ∀ text ∈ c.keys, text ∈ Set.range r.fullKey)
    (hcontents : ∀ text, (r.server.perform now c).2.contents.get? text
      = events.foldl (r.store text) (r.server.contents.get? text)) :
    r.Reaches events { r with server := (r.server.execute now c).2 } where
  space := rfl
  failing := r.server.failing_execute now c
  contents text := by
    rw [Server.contents_execute hworks]
    exact hcontents text
  sent := ⟨[c], r.server.log_execute now c, fun c' hc' => List.mem_singleton.mp hc' ▸ hkeys⟩

theorem reaches_get (hworks : r.server.failing = false) (now : ℕ) (key : String) :
    r.Reaches [] (r.get now key).2 := by
  rw [get_snd]
  exact reaches_execute hworks (r.mem_range_of_single key) fun _ => rfl

theorem reaches_getMany (hworks : r.server.failing = false) (now : ℕ) (keys : List String) :
    r.Reaches [] (r.getMany now keys).2 := by
  by_cases hnil : keys = []
  · rw [hnil]
    exact .refl r
  · rw [getMany_snd hnil]
    refine reaches_execute hworks (fun text htext => ?_) fun _ => rfl
    obtain ⟨key, _, hkey⟩ := List.mem_map.mp htext
    exact ⟨key, hkey⟩

theorem reaches_set (hworks : r.server.failing = false) (now ttl : ℕ) (key value : String) :
    r.Reaches [.wrote key value now ttl] (r.set now ttl key value).2 := by
  rw [set_of_works hworks]
  exact reaches_execute hworks (r.mem_range_of_single key) fun text => KeyMap.get?_put _ _ _ _

theorem reaches_delete (hworks : r.server.failing = false) (now : ℕ) (key : String) :
    r.Reaches [.dropped key] (r.delete now key).2 := by
  rw [delete_of_works hworks]
  exact reaches_execute hworks (r.mem_range_of_single key) fun text => KeyMap.get?_erase _ _ _

theorem reaches_setMany (hworks : r.server.failing = false) (now ttl : ℕ)
    (items : List (String × String)) :
    r.Reaches (items.map fun e => .wrote e.1 e.2 now ttl) (r.setMany now ttl items).2 := by
  rw [setMany_of_works hworks]
  induction items generalizing r with
  | nil => exact .refl r
  | cons item items ih =>
    have hfirst := reaches_set hworks now ttl item.1 item.2
    exact hfirst.trans (ih (hfirst.failing.trans hworks))

theorem reaches_perform (hworks : r.server.failing = false) (now : ℕ) (c : Call) :
    ∃ r', (Storage.perform (.remote r) now c).2 = .remote r' ∧ r.Reaches (c.events now) r' := by
  cases c with
  | name => exact ⟨r, rfl, .refl r⟩
  | get key => exact ⟨(r.get now key).2, rfl, reaches_get hworks now key⟩
  | set key value ttl =>
    exact ⟨(r.set now ttl key value).2, rfl, reaches_set hworks now ttl key value⟩
  | delete key => exact ⟨(r.delete now key).2, rfl, reaches_delete hworks now key⟩
  | getMany keys =>
    rw [events_getMany]
    exact ⟨(r.getMany now keys).2, rfl, reaches_getMany hworks now keys⟩
  | setMany items ttl =>
    rw [events_setMany]
    exact ⟨(r.setMany now ttl items).2, rfl, reaches_setMany hworks now ttl items⟩
  | size => exact ⟨r, rfl, .refl r⟩

theorem reaches_after (hworks : r.server.failing = false) (now : ℕ) (steps : List Step) :
    ∃ r' now', Storage.after (.remote r) now steps = (.remote r', now') ∧
      r.Reaches (eventsFrom now steps) r' := by
  induction steps generalizing r now with
  | nil => exact ⟨r, now, rfl, .refl r⟩
  | cons step steps ih =>
    cases step with
    | call c =>
      obtain ⟨r₁, hcall, hfirst⟩ := reaches_perform hworks now c
      obtain ⟨r₂, now₂, hsteps, hrest⟩ := ih (hfirst.failing.trans hworks) now
      refine ⟨r₂, now₂, ?_, hfirst.trans hrest⟩
      rw [Storage.after, hcall, hsteps]
    | wait millis => exact ih hworks (now + millis)

/-! ## Keys outside of the space -/

/-- Events that do not touch what is stored under a key leave it as it is. -/
theorem foldl_store_eq_self (h : ∀ event ∈ events, ∀ o, r.store text o event = o) :
    events.foldl (r.store text) o = o :=
  List.foldlRecOn (motive := fun o' => o' = o) events _ rfl
    fun o' ho' event hevent => (h event hevent o').trans ho'

theorem store_of_outside (h : text ∉ Set.range r.fullKey) (o : Option Stored) (event : Event) :
    r.store text o event = o := by
  have hne : ∀ key, r.fullKey key ≠ text := fun key heq => h ⟨key, heq⟩
  cases event with
  | wrote key value time ttl => exact if_neg (hne key)
  | dropped key => exact if_neg (hne key)
  | crowded => rfl

theorem Reaches.outside (h : r.Reaches events r') (htext : text ∉ Set.range r.fullKey) :
    r'.server.contents.get? text = r.server.contents.get? text := by
  rw [h.contents]
  exact foldl_store_eq_self fun event _ o => store_of_outside htext o event

/-! ## Servers that hold the same in the space -/

/-- Whether two caches have the same space, and their servers work and hold the same in it. -/
structure Alike (r r' : Remote) : Prop where
  space : r'.space = r.space
  works : r.server.failing = false
  works' : r'.server.failing = false
  contents : ∀ key, r'.server.contents.get? (r.fullKey key) = r.server.contents.get? (r.fullKey key)

theorem Alike.reached (h : Alike r r') (hr : r.Reaches events s) (hr' : r'.Reaches events s') :
    Alike s s' where
  space := by rw [hr'.space, h.space, hr.space]
  works := hr.failing.trans h.works
  works' := hr'.failing.trans h.works'
  contents key := by
    rw [fullKey_congr hr.space, hr'.contents, hr.contents, store_congr h.space, h.contents]

theorem Alike.read (h : Alike r r') (now : ℕ) (key : String) :
    r'.server.read now (r'.fullKey key) = r.server.read now (r.fullKey key) := by
  rw [fullKey_congr h.space]
  exact Server.read_congr (h.contents key) now

/-- What a call is answered depends on the keys of the space alone. -/
theorem Alike.answer (h : Alike r r') (now : ℕ) (c : Call) :
    (Storage.perform (.remote r') now c).1 = (Storage.perform (.remote r) now c).1 := by
  cases c with
  | name => rfl
  | get key =>
    show (r'.get now key).1.map _ = (r.get now key).1.map _
    rw [get_of_works h.works, get_of_works h.works', h.read]
  | set key value ttl =>
    show (r'.set now ttl key value).1.map _ = (r.set now ttl key value).1.map _
    rw [set_of_works h.works, set_of_works h.works']
  | delete key =>
    show (r'.delete now key).1.map _ = (r.delete now key).1.map _
    rw [delete_of_works h.works, delete_of_works h.works']
  | getMany keys =>
    show (r'.getMany now keys).1.map _ = (r.getMany now keys).1.map _
    rw [getMany_of_works h.works, getMany_of_works h.works']
    simp only [h.read]
  | setMany items ttl =>
    show (r'.setMany now ttl items).1.map _ = (r.setMany now ttl items).1.map _
    rw [setMany_of_works h.works, setMany_of_works h.works']
  | size => rfl

/-! ## The last event of a key -/

theorem store_of_not_concerns {event : Event} (h : ¬event.Concerns key) (o : Option Stored) :
    r.store (r.fullKey key) o event = o := by
  cases event with
  | wrote key' value time ttl => exact if_neg fun heq => h (r.fullKey_inj heq)
  | dropped key' => exact if_neg fun heq => h (r.fullKey_inj heq)
  | crowded => rfl

theorem foldl_store_of_untouched (h : ∀ event ∈ events, ¬event.Concerns key) :
    events.foldl (r.store (r.fullKey key)) o = o :=
  foldl_store_eq_self fun event hevent => store_of_not_concerns (h event hevent)

theorem foldl_store_of_lastWrite {since : List Event} {time : ℕ}
    (h : LastWrite events key value time ttl since) :
    events.foldl (r.store (r.fullKey key)) o = some ⟨value, some (time + 1000 * seconds ttl)⟩ := by
  obtain ⟨earlier, rfl, hsince⟩ := h
  rw [List.foldl_append, List.foldl_cons, foldl_store_of_untouched hsince]
  exact if_pos rfl

/-- Where something is stored, the last event that concerns the key was a write, or there was
none. -/
theorem lastWrite_or_untouched (h : events.foldl (r.store (r.fullKey key)) o = some e) :
    (∃ value time ttl since, LastWrite events key value time ttl since) ∨
      ∀ event ∈ events, ¬event.Concerns key := by
  induction events using List.reverseRecOn with
  | nil => exact .inr (by simp)
  | append_singleton events last ih =>
    rw [List.foldl_append, List.foldl_cons, List.foldl_nil] at h
    by_cases hlast : last.Concerns key
    · cases last with
      | wrote key' value time ttl =>
        obtain rfl : key' = key := hlast
        exact .inl ⟨value, time, ttl, [], lastWrite_wrote⟩
      | dropped key' =>
        -- after a deletion nothing would be stored
        rw [store, if_pos (congrArg r.fullKey hlast)] at h
        cases h
      | crowded => exact hlast.elim
    · rw [store_of_not_concerns hlast] at h
      rcases ih h with ⟨value, time, ttl, since, hwrite⟩ | huntouched
      · exact .inl ⟨value, time, ttl, since ++ [last], hwrite.later hlast⟩
      · refine .inr fun event hevent => ?_
        rcases List.mem_append.mp hevent with hevent | hevent
        · exact huntouched event hevent
        · exact List.mem_singleton.mp hevent ▸ hlast

theorem Reaches.get_eq_ok_iff (h : r.Reaches events r') (hworks : r.server.failing = false) :
    (r'.get now key).1 = .ok value ↔
      (∃ time ttl since, LastWrite events key value time ttl since ∧
        now < time + 1000 * seconds ttl) ∨
      (∀ event ∈ events, ¬event.Concerns key) ∧
        ∃ e, r.server.contents.get? (r.fullKey key) = some e ∧ e.value = value ∧
          ∀ t, e.expiresAt = some t → now < t := by
  rw [Remote.get_eq_ok_iff (h.failing.trans hworks), Server.read_eq_some_iff,
    fullKey_congr h.space, h.contents]
  constructor
  · rintro ⟨e, he, rfl, hlive⟩
    rcases lastWrite_or_untouched he with ⟨value, time, ttl, since, hwrite⟩ | huntouched
    · rw [foldl_store_of_lastWrite hwrite] at he
      obtain rfl := Option.some.inj he
      exact .inl ⟨time, ttl, since, hwrite, hlive _ rfl⟩
    · rw [foldl_store_of_untouched huntouched] at he
      exact .inr ⟨huntouched, e, he, rfl, hlive⟩
  · rintro (⟨time, ttl, since, hwrite, hlive⟩ | ⟨huntouched, e, he, hvalue, hlive⟩)
    · refine ⟨_, foldl_store_of_lastWrite hwrite, rfl, fun t ht => ?_⟩
      rwa [← Option.some.inj ht]
    · exact ⟨e, (foldl_store_of_untouched huntouched).trans he, hvalue, hlive⟩

/-- A map in a space of a server whose entries live for a time. After any run, keys outside of
the space are as they were and no command has named one; what the server holds under them makes
no difference to what a call is answered. Several lookups find what each of them finds, and to
write several texts is to write one after the other. A lookup finds the text that was written
last under the key, for the whole seconds of its life time and at least one; where the run has
neither written nor deleted the key, it finds what was there in the beginning; and else it
misses. -/
theorem confined_map_with_lifetimes (r : Remote) (begin : ℕ) (steps : List Step)
    (hworks : r.server.failing = false) :
    ∃ r' now, Storage.after (.remote r) begin steps = (.remote r', now) ∧
    (∀ text ∉ Set.range r.fullKey,
      r'.server.contents.get? text = r.server.contents.get? text) ∧
    (∃ sent, r'.server.log = r.server.log ++ sent ∧
      ∀ c ∈ sent, ∀ text ∈ c.keys, text ∈ Set.range r.fullKey) ∧
    (∀ other : Server, other.failing = false →
      (∀ key, other.contents.get? (r.fullKey key) = r.server.contents.get? (r.fullKey key)) →
      ∀ c, ((Storage.after (.remote ⟨r.space, other⟩) begin steps).1.perform now c).1
        = (Storage.perform (.remote r') now c).1) ∧
    (∀ keys, ∃ found, (r'.getMany now keys).1 = .ok found ∧
      ∀ key value, found.get? key = some value ↔
        key ∈ keys ∧ (r'.get now key).1 = .ok value) ∧
    (∀ ttl items, r'.setMany now ttl items
      = (.ok (), items.foldl (fun r e => (r.set now ttl e.1 e.2).2) r')) ∧
    (∀ ttl key value, (r'.set now ttl key value).1 = .ok ()) ∧
    (∀ key, (r'.delete now key).1 = .ok ()) ∧
    (∀ key value, (r'.get now key).1 = .ok value ↔
      (∃ time ttl since, LastWrite (eventsFrom begin steps) key value time ttl since ∧
        now < time + 1000 * max 1 (ttl / 1000)) ∨
      (∀ event ∈ eventsFrom begin steps, ¬event.Concerns key) ∧
        ∃ e, r.server.contents.get? (r.fullKey key) = some e ∧ e.value = value ∧
          ∀ t, e.expiresAt = some t → now < t) ∧
    ∀ key, (∀ value, (r'.get now key).1 ≠ .ok value) → (r'.get now key).1 = .error .miss := by
  obtain ⟨r', now, hafter, hreached⟩ := reaches_after hworks begin steps
  have hworks' : r'.server.failing = false := hreached.failing.trans hworks
  refine ⟨r', now, hafter, fun text htext => hreached.outside htext, hreached.sent,
    fun other hother hsame c => ?_, get?_getMany hworks' now, setMany_of_works hworks' now,
    fun ttl key value => by rw [set_of_works hworks'], fun key => by rw [delete_of_works hworks'],
    fun key value => ?_, fun key => get_eq_miss hworks'⟩
  · obtain ⟨s, now', hother', hreached'⟩ := reaches_after (r := ⟨r.space, other⟩) hother begin steps
    have halike : Alike r ⟨r.space, other⟩ := ⟨rfl, hworks, hother, hsame⟩
    rw [hother']
    exact (halike.reached hreached hreached').answer now c
  · have hseconds : ∀ ttl, max 1 (ttl / 1000) = seconds ttl := fun ttl => Nat.max_comm _ _
    simp only [hseconds]
    exact hreached.get_eq_ok_iff hworks

/-- Two texts under one key on a server that holds "sip:a" in the space and "b" outside of it.
The life time of 1999 milliseconds counts as one second, of which one millisecond is left. With
another text under "b" the answers would be the same. -/
theorem confined_map_with_lifetimes_sip :
    let r : Remote := ⟨"sip", .ofContents [("sip:a", "1"), ("b", "0")]⟩
    let other : Server := { r.server with contents := r.server.contents.put "b" ⟨"9", none⟩ }
    let steps := [Step.call (.setMany [("b", "2"), ("b", "3")] 1999), .wait 999]
    r.server.failing = false ∧
    ∃ r' now, Storage.after (.remote r) 0 steps = (.remote r', now) ∧
      (r'.server.contents.get? "b").map Stored.value = some "0" ∧
      (∀ c, ((Storage.after (.remote ⟨"sip", other⟩) 0 steps).1.perform now c).1
        = (Storage.perform (.remote r') now c).1) ∧
      (r'.get now "a").1 = .ok "1" ∧ (r'.get now "b").1 = .ok "3" ∧
      (r'.get now "c").1 = .error .miss := by
  intro r other steps
  obtain ⟨r', now, hafter, houtside, _, halike, _, _, _, _, hget, hmiss⟩ :=
    confined_map_with_lifetimes r 0 steps rfl
  have hnow : now = 999 := (congrArg Prod.snd hafter).symm
  have hevents : eventsFrom 0 steps = [.wrote "b" "2" 0 1999, .wrote "b" "3" 0 1999] := rfl
  have hb : "b" ∉ Set.range r.fullKey := by
    rintro ⟨key, hkey⟩
    -- a full key has the four characters of "sip:" at least
    have hlength : ("sip:" ++ key).length = 1 := congrArg String.length hkey
    rw [String.length_append, show "sip:".length = 4 from rfl] at hlength
    omega
  refine ⟨rfl, r', now, hafter, ?_, halike other rfl fun key => ?_, ?_, ?_,
    hmiss "c" fun value hfound => ?_⟩
  · rw [houtside "b" hb]
    rfl
  · exact (KeyMap.get?_put _ _ _ _).trans (if_neg fun heq => hb ⟨key, heq.symm⟩)
  · exact (hget "a" "1").mpr (.inr ⟨by rw [hevents]; decide, ⟨"1", none⟩, rfl, rfl, by simp⟩)
  · refine (hget "b" "3").mpr (.inl ⟨0, 1999, [], ⟨[.wrote "b" "2" 0 1999], rfl, by simp⟩, ?_⟩)
    rw [hnow]
    decide
  · rcases (hget "c" value).mp hfound with ⟨time, ttl, since, hwrite, _⟩ | ⟨_, e, he, _⟩
    · obtain ⟨earlier, hwrite, _⟩ := hwrite
      have hmem : Event.wrote "c" value time ttl ∈ eventsFrom 0 steps := by simp [hwrite]
      simp [hevents] at hmem
    · cases he

end Remote

end RegionPricing.Cache
