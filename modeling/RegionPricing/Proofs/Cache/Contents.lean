import RegionPricing.Proofs.Cache.Tier
import RegionPricing.Proofs.KeyMap

/-!
# What is written in a cache tier

`Storage.Shows` says that a value is written under a key, expired or not, in memory or on
a server. No operation makes a value up: it was written before, or it is written now.
After a key has been deleted nothing is written under it, unless the server refuses the
command; `Storage.Reliable` leaves such servers out.

`Tier.Carries P Q` says it of a whole tier: what is written passes `P` and what is queued
passes `Q`. Unlike `Tier.Sound` it does not speak of times.
-/

namespace RegionPricing.Cache

/-! ## Servers -/

namespace Server

/-- The server after it has written down a command. -/
def logged (s : Server) (c : Command) : Server := { s with log := s.log ++ [c] }

theorem execute_of_failing {s : Server} (h : s.failing = true) (now : ℕ) (c : Command) :
    s.execute now c = (.failed, s.logged c) := if_pos h

theorem execute_of_works {s : Server} (h : s.failing = false) (now : ℕ) (c : Command) :
    s.execute now c = (s.logged c).perform now c := if_neg (by rw [h]; decide)

theorem failing_execute (s : Server) (now : ℕ) (c : Command) :
    (s.execute now c).2.failing = s.failing := by
  cases h : s.failing with
  | true =>
    rw [execute_of_failing h]
    exact h
  | false =>
    rw [execute_of_works h]
    cases c <;> exact h

/-- Reading changes nothing but the log. -/
theorem contents_getMany (s : Server) (now : ℕ) (keys : List String) :
    (s.execute now (.getMany keys)).2.contents = s.contents := by
  cases h : s.failing with
  | true =>
    rw [execute_of_failing h]
    rfl
  | false =>
    rw [execute_of_works h]
    rfl

/-- What is under a key after a text has been written. -/
theorem get?_setFor {s : Server} {now seconds : ℕ} {key key' value : String} {e : Stored}
    (h : (s.execute now (.setFor key seconds value)).2.contents.get? key' = some e) :
    s.contents.get? key' = some e ∨ key' = key ∧ e.value = value := by
  cases hf : s.failing with
  | true =>
    rw [execute_of_failing hf] at h
    exact .inl h
  | false =>
    rw [execute_of_works hf] at h
    have hput : (s.contents.put key ⟨value, some (now + 1000 * seconds)⟩).get? key' = some e := h
    rw [KeyMap.get?_put] at hput
    split at hput
    · rename_i heq
      exact .inr ⟨heq.symm, by rw [← Option.some.inj hput]⟩
    · exact .inl hput

theorem get?_delete {s : Server} {now : ℕ} {key key' : String} {e : Stored}
    (hworks : s.failing = false)
    (h : (s.execute now (.delete key)).2.contents.get? key' = some e) :
    s.contents.get? key' = some e ∧ key' ≠ key := by
  rw [execute_of_works hworks] at h
  have herase : (s.contents.erase key).get? key' = some e := h
  rw [KeyMap.get?_erase] at herase
  split at herase
  · cases herase
  · rename_i hne
    exact ⟨herase, fun heq => hne heq.symm⟩

/-- Executing commands leaves the server as executing each of them does. -/
theorem executeAll_snd (s : Server) (now : ℕ) (cs : List Command) :
    (s.executeAll now cs).2 = cs.foldl (fun s c => (s.execute now c).2) s := by
  refine (List.foldl_hom Prod.snd fun acc c => ?_).symm
  rcases acc.2.execute now c with ⟨_ | _ | _, s'⟩ <;> rfl

/-- Executing commands one after the other is executing the first and then the others. -/
theorem executeAll_cons (s : Server) (now : ℕ) (c : Command) (cs : List Command) :
    (s.executeAll now (c :: cs)).2 = ((s.execute now c).2.executeAll now cs).2 := by
  rw [executeAll_snd, executeAll_snd, List.foldl_cons]

theorem failing_executeAll (s : Server) (now : ℕ) (cs : List Command) :
    (s.executeAll now cs).2.failing = s.failing := by
  induction cs generalizing s with
  | nil => rfl
  | cons c cs ih => rw [executeAll_cons, ih, failing_execute]

end Server

/-! ## Storages -/

namespace Remote

theorem fullKey_inj (r : Remote) {key key' : String} (h : r.fullKey key = r.fullKey key') :
    key = key' := by
  unfold fullKey at h
  split at h
  · exact h
  · exact (String.append_right_inj _).mp h

theorem executed_snd (r : Remote) (a : Response × Server) :
    (r.executed a).2 = { r with server := a.2 } := by
  obtain ⟨_ | _ | _, s⟩ := a <;> rfl

end Remote

namespace Storage

/-- Whether a value is written under a key, expired or not. -/
def Shows : Storage → String → String → Prop
  | .expiring c, key, value => ∃ e, c.Holds key e ∧ e.value = value
  | .remote r, key, value =>
    ∃ e, r.server.contents.get? (r.fullKey key) = some e ∧ e.value = value
  | .broken, _, _ => False

/-- Whether nothing is written under a key that has been deleted. A storage that fails every
call never has anything written in it. -/
def Reliable : Storage → Prop
  | .expiring _ => True
  | .remote r => r.server.failing = false
  | .broken => True

variable {s : Storage} {now ttl : ℕ}

theorem getMany_remote (r : Remote) (now : ℕ) (keys : List String) :
    ∃ server, (Storage.getMany (.remote r) now keys).2 = .remote ⟨r.space, server⟩ ∧
      server.contents = r.server.contents ∧ server.failing = r.server.failing := by
  have hcontents := r.server.contents_getMany now (keys.map r.fullKey)
  have hfailing := r.server.failing_execute now (.getMany (keys.map r.fullKey))
  show ∃ server, Storage.remote (r.getMany now keys).2 = _ ∧ _
  unfold Remote.getMany
  split
  · exact ⟨r.server, rfl, rfl, rfl⟩
  · rcases hr : r.server.execute now (.getMany (keys.map r.fullKey)) with ⟨_ | _ | _, server⟩ <;>
      rw [hr] at hcontents hfailing <;> exact ⟨server, rfl, hcontents, hfailing⟩

theorem setMany_remote (r : Remote) (now ttl : ℕ) (items : List (String × String)) :
    (Storage.setMany (.remote r) now ttl items).2
      = .remote { r with server := (r.server.executeAll now (items.map (r.writing ttl))).2 } := by
  show Storage.remote (r.setMany now ttl items).2 = _
  unfold Remote.setMany
  cases items with
  | nil => rfl
  | cons item items =>
    rw [if_neg (by simp), Remote.executed_snd]

theorem delete_remote (r : Remote) (now : ℕ) (key : String) :
    (Storage.delete (.remote r) now key).2
      = .remote { r with server := (r.server.execute now (.delete (r.fullKey key))).2 } := by
  show Storage.remote (r.delete now key).2 = _
  unfold Remote.delete
  rw [Remote.executed_snd]

/-- What a server is found to have under keys is written there. -/
theorem shows_of_found_remote {r : Remote} {keys : List String} {found : KeyMap String String}
    {key value : String} (hf : (r.getMany now keys).1 = .ok found)
    (hk : found.get? key = some value) : (Storage.remote r).Shows key value := by
  unfold Remote.getMany at hf
  split at hf
  · obtain rfl := Except.ok.inj hf
    exact absurd hk (by simp)
  · cases hfailing : r.server.failing with
    | true =>
      rw [Server.execute_of_failing hfailing] at hf
      cases hf
    | false =>
      rw [Server.execute_of_works hfailing] at hf
      obtain rfl := Except.ok.inj hf
      -- what is found comes from one of the keys, with the text that the server has for it
      obtain ⟨before, after, heq, _⟩ := KeyMap.get?_ofList_eq_some_iff.mp hk
      have hmem : (key, value) ∈ before ++ (key, value) :: after := by simp
      rw [← heq, List.map_map] at hmem
      obtain ⟨⟨key', o⟩, hzip, hsome⟩ := List.mem_filterMap.mp hmem
      obtain ⟨v, rfl, hv⟩ := Option.map_eq_some_iff.mp hsome
      obtain ⟨rfl, rfl⟩ := Prod.mk.inj hv
      rw [← List.map_prod_left_eq_zip] at hzip
      obtain ⟨k, _, hk'⟩ := List.mem_map.mp hzip
      obtain ⟨rfl, hread⟩ := Prod.mk.inj hk'
      obtain ⟨e, he, hval⟩ := Option.map_eq_some_iff.mp hread
      exact ⟨e, (Option.filter_eq_some_iff.mp he).1, hval⟩

variable {key value : String}

theorem reliable_getMany (h : s.Reliable) (keys : List String) :
    (s.getMany now keys).2.Reliable := by
  cases s with
  | expiring c => trivial
  | remote r =>
    obtain ⟨server, hs, _, hfailing⟩ := getMany_remote r now keys
    rw [hs]
    exact hfailing.trans h
  | broken => trivial

/-- Looking up writes nothing. -/
theorem shows_getMany {keys : List String} (h : (s.getMany now keys).2.Shows key value) :
    s.Shows key value := by
  cases s with
  | expiring c =>
    obtain ⟨e, he, hv⟩ := h
    exact ⟨e, (c.getMany_looked now keys).within key e he, hv⟩
  | remote r =>
    obtain ⟨server, hs, hcontents, _⟩ := getMany_remote r now keys
    rw [hs] at h
    obtain ⟨e, he, hv⟩ := h
    exact ⟨e, hcontents ▸ he, hv⟩
  | broken => exact h

/-- What is found is written there. -/
theorem shows_of_found {keys : List String} {found : KeyMap String String}
    (hf : (s.getMany now keys).1 = .ok found) (hk : found.get? key = some value) :
    s.Shows key value := by
  cases s with
  | expiring c =>
    cases hf
    obtain ⟨e, he, hv, _⟩ := (c.getMany_looked now keys).found key value hk
    exact ⟨e, he, hv⟩
  | remote r => exact shows_of_found_remote hf hk
  | broken => cases hf

theorem reliable_setMany (h : s.Reliable) (items : List (String × String)) :
    (s.setMany now ttl items).2.Reliable := by
  cases s with
  | expiring c => trivial
  | remote r =>
    rw [setMany_remote]
    exact (Server.failing_executeAll _ _ _).trans h
  | broken => trivial

theorem get?_executeAll_writing (r : Remote) {server : Server} {items : List (String × String)}
    {text : String} {e : Stored}
    (h : (server.executeAll now (items.map (r.writing ttl))).2.contents.get? text = some e) :
    server.contents.get? text = some e ∨
      ∃ item ∈ items, text = r.fullKey item.1 ∧ e.value = item.2 := by
  induction items generalizing server with
  | nil => exact .inl h
  | cons item items ih =>
    rw [List.map_cons, Server.executeAll_cons] at h
    rcases ih h with hfirst | ⟨item', hmem, hitem⟩
    · rcases Server.get?_setFor hfirst with hold | hnew
      · exact .inl hold
      · exact .inr ⟨item, List.mem_cons_self, hnew⟩
    · exact .inr ⟨item', List.mem_cons_of_mem item hmem, hitem⟩

/-- What is written after writing was written before, or was to be written. -/
theorem shows_setMany {items : List (String × String)}
    (h : (s.setMany now ttl items).2.Shows key value) :
    s.Shows key value ∨ (key, value) ∈ items := by
  cases s with
  | expiring c =>
    obtain ⟨e, he, hv⟩ := h
    rcases Expiring.holds_setMany he with hold | ⟨hmem, _⟩
    · exact .inl ⟨e, hold, hv⟩
    · exact .inr (hv ▸ hmem)
  | remote r =>
    rw [setMany_remote] at h
    obtain ⟨e, he, hv⟩ := h
    rcases get?_executeAll_writing r he with hold | ⟨item, hmem, hkey, hvalue⟩
    · exact .inl ⟨e, hold, hv⟩
    · obtain rfl := r.fullKey_inj hkey
      rw [← hv, hvalue]
      exact .inr hmem
  | broken => exact h.elim

theorem reliable_delete (h : s.Reliable) (key : String) : (s.delete now key).2.Reliable := by
  cases s with
  | expiring c => trivial
  | remote r =>
    rw [delete_remote]
    exact (Server.failing_execute _ _ _).trans h
  | broken => trivial

/-- After deleting, nothing is written under the key. -/
theorem shows_delete (hr : s.Reliable) {key' : String}
    (h : (s.delete now key').2.Shows key value) : s.Shows key value ∧ key ≠ key' := by
  cases s with
  | expiring c =>
    obtain ⟨e, he, hv⟩ := h
    obtain ⟨hold, hne⟩ := Expiring.holds_delete he
    exact ⟨⟨e, hold, hv⟩, hne⟩
  | remote r =>
    rw [delete_remote] at h
    obtain ⟨e, he, hv⟩ := h
    obtain ⟨hold, hne⟩ := Server.get?_delete hr he
    exact ⟨⟨e, hold, hv⟩, fun heq => hne (congrArg r.fullKey heq)⟩
  | broken => exact h.elim

end Storage

/-! ## Tiers -/

namespace Tier

/-- Whether what is written in a tier passes `P` and what is queued passes `Q`. -/
structure Carries (P Q : String → String → Prop) (t : Tier) : Prop where
  reliable : t.storage.Reliable
  written : ∀ key value, t.storage.Shows key value → P key value
  queued : ∀ items ∈ t.queued, ∀ item ∈ items, Q item.1 item.2

variable {P Q P' Q' : String → String → Prop} {t : Tier} {now : ℕ}

theorem Fresh.carries (h : t.Fresh) : t.Carries P Q := by
  refine ⟨?_, fun key value hshows => ?_, by simp [h.queued]⟩
  · rcases h.storage with hs | ⟨capacity, ties, hs⟩ <;> rw [hs] <;> trivial
  · rcases h.storage with hs | ⟨capacity, ties, hs⟩
    · rw [hs] at hshows
      exact hshows.elim
    · rw [hs] at hshows
      obtain ⟨e, he, _⟩ := hshows
      exact absurd he (Expiring.not_holds_empty capacity ties key e)

theorem Carries.mono (h : t.Carries P Q) (hP : ∀ key value, P key value → P' key value)
    (hQ : ∀ key value, Q key value → Q' key value) : t.Carries P' Q' :=
  ⟨h.reliable, fun key value hs => hP key value (h.written key value hs),
    fun items hitems item hitem => hQ _ _ (h.queued items hitems item hitem)⟩

theorem Carries.read (h : t.Carries P Q) (keys : List String) :
    (t.read now keys).2.Carries P Q := by
  rw [read_snd]
  exact ⟨Storage.reliable_getMany h.reliable keys,
    fun key value hs => h.written key value (Storage.shows_getMany hs), h.queued⟩

theorem Carries.found (h : t.Carries P Q) {keys : List String} {key value : String}
    (hk : (t.read now keys).1.get? key = some value) : P key value := by
  unfold Tier.read at hk
  split at hk
  · rename_i found s hs
    exact h.written key value (Storage.shows_of_found (by rw [hs]) hk)
  · exact absurd hk (by simp)

theorem Carries.enqueue (h : t.Carries P Q) {items : List (String × String)}
    (hi : ∀ item ∈ items, Q item.1 item.2) : (t.enqueue items).Carries P Q := by
  unfold Tier.enqueue
  split
  · exact h
  · refine ⟨h.reliable, h.written, fun items' hitems' => ?_⟩
    rcases List.mem_append.mp hitems' with hold | hnew
    · exact h.queued items' hold
    · exact List.mem_singleton.mp hnew ▸ hi

/-- Writing one of the batches that are queued. -/
theorem Carries.land (h : t.Carries P Q) (hQ : ∀ key value, Q key value → P key value) {n : ℕ}
    {t' : Tier} (ht : t.land now n = some t') : t'.Carries P Q := by
  obtain ⟨items, hitems, rfl⟩ := Option.map_eq_some_iff.mp ht
  refine ⟨Storage.reliable_setMany h.reliable items, fun key value hs => ?_,
    fun items' hitems' => h.queued items' (List.mem_of_mem_eraseIdx hitems')⟩
  rcases Storage.shows_setMany hs with hold | hmem
  · exact h.written key value hold
  · exact hQ key value (h.queued items (List.mem_of_getElem? hitems) _ hmem)

/-- After everything has been written nothing is queued. -/
theorem Carries.settle (h : t.Carries P Q) (hQ : ∀ key value, Q key value → P key value) :
    (t.settle now).Carries P Q' := by
  have hstorage : (t.settle now).storage.Reliable ∧
      ∀ key value, (t.settle now).storage.Shows key value → P key value := by
    refine List.foldlRecOn (motive := fun s : Storage => s.Reliable ∧
      ∀ key value, s.Shows key value → P key value) t.queued _ ⟨h.reliable, h.written⟩ ?_
    intro s hs items hitems
    refine ⟨Storage.reliable_setMany hs.1 items, fun key value hshows => ?_⟩
    rcases Storage.shows_setMany hshows with hold | hmem
    · exact hs.2 key value hold
    · exact hQ key value (h.queued items hitems _ hmem)
  exact ⟨hstorage.1, hstorage.2, fun _ hitems => by cases hitems⟩

/-- What is queued is not touched when keys are deleted. -/
theorem Carries.delete (h : t.Carries P Q) (keys : List String) :
    (t.delete now keys).Carries (fun key value => P key value ∧ key ∉ keys) Q := by
  suffices hstorage : (t.delete now keys).storage.Reliable ∧ ∀ key value,
      (t.delete now keys).storage.Shows key value → t.storage.Shows key value ∧ key ∉ keys from
    ⟨hstorage.1, fun key value hs => ⟨h.written key value (hstorage.2 key value hs).1,
      (hstorage.2 key value hs).2⟩, h.queued⟩
  show (keys.foldl (fun s key => (s.delete now key).2) t.storage).Reliable ∧ ∀ key value,
    (keys.foldl (fun s key => (s.delete now key).2) t.storage).Shows key value →
      t.storage.Shows key value ∧ key ∉ keys
  have hreliable := h.reliable
  generalize t.storage = s at hreliable
  induction keys generalizing s with
  | nil => exact ⟨hreliable, fun key value hs => ⟨hs, List.not_mem_nil⟩⟩
  | cons k keys ih =>
    -- what is left after the other deletions was left by the first one
    rw [List.foldl_cons]
    obtain ⟨hrest, hshows⟩ := ih (s.delete now k).2 (Storage.reliable_delete hreliable k)
    refine ⟨hrest, fun key value hs => ?_⟩
    obtain ⟨hfirst, hnot⟩ := hshows key value hs
    obtain ⟨hold, hne⟩ := Storage.shows_delete hreliable hfirst
    refine ⟨hold, fun hmem => ?_⟩
    rcases List.mem_cons.mp hmem with heq | hmem
    · exact hne heq
    · exact hnot hmem

end Tier

end RegionPricing.Cache
