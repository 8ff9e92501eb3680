import RegionPricing.Proofs.Cache.Contents

/-!
# Commands and calls

What a cache on a server does, call by call, where the server does not fail: which keys its
commands name, what it is answered, and what is left on the server. A lookup of several keys
is one command and finds what the lookups of each key find (`Remote.get?_getMany`); to write
several texts is to write one after the other (`Remote.setMany_of_works`).
-/

namespace RegionPricing.Cache

/-- The keys that a command names. -/
def Command.keys : Command → List String
  | .get key | .setFor key _ _ | .delete key => [key]
  | .getMany keys => keys

/-! ## Servers -/

namespace Server

variable {s s' : Server} {now : ℕ}

/-- Every command is written down, failed ones included. -/
theorem log_execute (s : Server) (now : ℕ) (c : Command) :
    (s.execute now c).2.log = s.log ++ [c] := by
  cases h : s.failing with
  | true =>
    rw [execute_of_failing h]
    rfl
  | false =>
    rw [execute_of_works h]
    cases c <;> rfl

theorem execute_get (h : s.failing = false) (now : ℕ) (key : String) :
    s.execute now (.get key) = (.values [s.read now key], s.logged (.get key)) :=
  execute_of_works h now (.get key)

theorem execute_getMany (h : s.failing = false) (now : ℕ) (keys : List String) :
    s.execute now (.getMany keys)
      = (.values (keys.map (s.read now)), s.logged (.getMany keys)) :=
  execute_of_works h now (.getMany keys)

theorem contents_execute (h : s.failing = false) (c : Command) :
    (s.execute now c).2.contents = (s.perform now c).2.contents := by
  rw [execute_of_works h]
  cases c <;> rfl

theorem response_execute_ne_failed (h : s.failing = false) (now : ℕ) (c : Command) :
    (s.execute now c).1 ≠ .failed := by
  rw [execute_of_works h]
  cases c <;> exact Response.noConfusion

theorem executeAll_of_works (h : s.failing = false) (now : ℕ) (cs : List Command) :
    (s.executeAll now cs).1 = .done := by
  suffices hall : (s.executeAll now cs).1 = .done ∧ (s.executeAll now cs).2.failing = false from
    hall.1
  refine List.foldlRecOn (motive := fun acc : Response × Server =>
    acc.1 = .done ∧ acc.2.failing = false) cs _ ⟨rfl, h⟩ fun acc hacc c _ => ?_
  have hanswer := response_execute_ne_failed hacc.2 now c
  have hfailing := failing_execute acc.2 now c
  rw [hacc.2] at hfailing
  split
  next heq => exact absurd (by rw [heq]) hanswer
  next heq =>
    rw [heq] at hfailing
    exact ⟨hacc.1, hfailing⟩

/-- What is read under a key is stored there and has not expired. -/
theorem read_eq_some_iff {key value : String} : s.read now key = some value ↔
    ∃ e, s.contents.get? key = some e ∧ e.value = value ∧
      ∀ t, e.expiresAt = some t → now < t := by
  unfold read
  rw [Option.map_eq_some_iff]
  refine exists_congr fun e => ?_
  rw [Option.filter_eq_some_iff, and_assoc, and_congr_right_iff]
  intro _
  rw [Option.all_eq_true, and_comm]
  simp only [decide_eq_true_eq]

theorem read_congr {key : String} (h : s'.contents.get? key = s.contents.get? key) (now : ℕ) :
    s'.read now key = s.read now key := by
  unfold read
  rw [h]

end Server

/-! ## Caches on a server -/

namespace Remote

variable {r : Remote} {now ttl : ℕ} {key value : String}

/-! ### Looking up -/

theorem get_snd (r : Remote) (now : ℕ) (key : String) :
    (r.get now key).2 = { r with server := (r.server.execute now (.get (r.fullKey key))).2 } := by
  unfold get
  split
  next h => rw [h]
  next h => rw [h]
  next h => rw [h]

/-- A lookup answers what the server reads under the full key. -/
theorem get_of_works (h : r.server.failing = false) (now : ℕ) (key : String) :
    (r.get now key).1 = match r.server.read now (r.fullKey key) with
      | some value => .ok value
      | none => .error .miss := by
  unfold get
  rw [Server.execute_get h]
  cases r.server.read now (r.fullKey key) <;> rfl

theorem get_eq_ok_iff (h : r.server.failing = false) :
    (r.get now key).1 = .ok value ↔ r.server.read now (r.fullKey key) = some value := by
  rw [get_of_works h]
  cases r.server.read now (r.fullKey key) <;> simp

theorem get_eq_miss (h : r.server.failing = false)
    (hnone : ∀ value, (r.get now key).1 ≠ .ok value) : (r.get now key).1 = .error .miss := by
  rw [get_of_works h] at hnone ⊢
  cases hread : r.server.read now (r.fullKey key) with
  | none => rfl
  | some value => exact absurd (by rw [hread]) (hnone value)

theorem getMany_snd {keys : List String} (h : keys ≠ []) (now : ℕ) : (r.getMany now keys).2
    = { r with server := (r.server.execute now (.getMany (keys.map r.fullKey))).2 } := by
  unfold getMany
  rw [if_neg (by simpa using h)]
  split
  next heq => rw [heq]
  next heq => rw [heq]
  next heq => rw [heq]

/-- Several lookups answer a map of what the server reads under each full key. -/
theorem getMany_of_works (h : r.server.failing = false) (now : ℕ) (keys : List String) :
    (r.getMany now keys).1 = .ok (.ofList (keys.filterMap fun key =>
      (r.server.read now (r.fullKey key)).map fun value => (key, value))) := by
  unfold getMany
  split
  next hnil =>
    rw [List.isEmpty_iff.mp hnil]
    rfl
  next =>
    rw [Server.execute_getMany h, List.map_map]
    dsimp only
    -- each key stands beside what was read for it
    rw [← List.map_prod_left_eq_zip, List.filterMap_map]
    rfl

/-- Several lookups find what each of them finds. -/
theorem get?_getMany (h : r.server.failing = false) (now : ℕ) (keys : List String) :
    ∃ found, (r.getMany now keys).1 = .ok found ∧
      ∀ key value, found.get? key = some value ↔ key ∈ keys ∧ (r.get now key).1 = .ok value := by
  refine ⟨_, getMany_of_works h now keys, fun key value => ?_⟩
  rw [KeyMap.get?_ofList_filterMap, get_eq_ok_iff h]
  by_cases hmem : key ∈ keys <;> simp [hmem]

/-! ### Writing -/

/-- Executed commands are answered well, unless one has failed. -/
theorem executed_of_ne_failed {a : Response × Server} (h : a.1 ≠ .failed) :
    r.executed a = (.ok (), { r with server := a.2 }) := by
  obtain ⟨_ | _ | _, s⟩ := a
  · rfl
  · rfl
  · exact absurd rfl h

theorem set_of_works (h : r.server.failing = false) (now ttl : ℕ) (key value : String) :
    r.set now ttl key value
      = (.ok (), { r with server := (r.server.execute now (r.writing ttl (key, value))).2 }) :=
  executed_of_ne_failed (Server.response_execute_ne_failed h now _)

theorem delete_of_works (h : r.server.failing = false) (now : ℕ) (key : String) :
    r.delete now key
      = (.ok (), { r with server := (r.server.execute now (.delete (r.fullKey key))).2 }) :=
  executed_of_ne_failed (Server.response_execute_ne_failed h now _)

/-- To send several writes is to send one after the other. -/
theorem executeAll_writing (r : Remote) (now ttl : ℕ) (items : List (String × String)) :
    { r with server := (r.server.executeAll now (items.map (r.writing ttl))).2 }
      = items.foldl (fun r e => (r.set now ttl e.1 e.2).2) r := by
  induction items generalizing r with
  | nil => rfl
  | cons item items ih =>
    have hfirst : (r.set now ttl item.1 item.2).2
        = { r with server := (r.server.execute now (r.writing ttl item)).2 } := executed_snd r _
    rw [List.map_cons, Server.executeAll_cons, List.foldl_cons, hfirst, ← ih]
    rfl

/-- To write several texts is to write one after the other. -/
theorem setMany_of_works (h : r.server.failing = false) (now ttl : ℕ)
    (items : List (String × String)) : r.setMany now ttl items
      = (.ok (), items.foldl (fun r e => (r.set now ttl e.1 e.2).2) r) := by
  rw [← executeAll_writing]
  unfold setMany
  split
  next hnil =>
    rw [List.isEmpty_iff.mp hnil]
    rfl
  next =>
    have hanswer := Server.executeAll_of_works h now (items.map (r.writing ttl))
    exact executed_of_ne_failed (by rw [hanswer]; exact Response.noConfusion)

end Remote

end RegionPricing.Cache
