import Mathlib.Data.List.Induction
import Mathlib.Data.List.Nodup
import RegionPricing.KeyMap

/-!
# Maps made of lists

`ofList` puts one entry after the other, so what a key is bound to is told by the
last of its entries. When all entries of a key agree, any of them tells.
-/

namespace RegionPricing.KeyMap

variable {κ ν : Type} [DecidableEq κ]

/-- What is found under a key is a member that has the key. -/
theorem mem_of_find?_key {α : Type} {key : α → κ} {l : List α} {k : κ} {a : α}
    (h : l.find? (fun a => key a = k) = some a) : a ∈ l ∧ key a = k := by
  have hk := List.find?_some h
  rw [decide_eq_true_eq] at hk
  exact ⟨List.mem_of_find?_eq_some h, hk⟩

theorem find?_key_of_mem {α : Type} {key : α → κ} {l : List α} (hl : (l.map key).Nodup) {a : α}
    (h : a ∈ l) : l.find? (fun a' => key a' = key a) = some a := by
  have hsome : (l.find? fun a' => key a' = key a).isSome := by
    rw [List.find?_isSome]
    exact ⟨a, h, by simp⟩
  obtain ⟨a', hfind⟩ := Option.isSome_iff_exists.mp hsome
  -- the keys are distinct, so this is the member
  obtain ⟨hmem, hkey⟩ := mem_of_find?_key hfind
  rw [List.inj_on_of_nodup_map hl hmem h hkey] at hfind
  exact hfind

theorem mem_of_get? {m : KeyMap κ ν} {k : κ} {v : ν} (h : m.get? k = some v) :
    (k, v) ∈ m.entries := by
  obtain ⟨e, he, rfl⟩ := Option.map_eq_some_iff.mp h
  obtain ⟨hmem, hk⟩ := mem_of_find?_key he
  rw [← hk]
  exact hmem

theorem get?_of_mem {m : KeyMap κ ν} {k : κ} {v : ν} (h : (k, v) ∈ m.entries) :
    m.get? k = some v := by
  have hfind := find?_key_of_mem m.nodup h
  rw [get?, hfind, Option.map_some]

theorem mem_putEntry {k : κ} {v : ν} {e : κ × ν} :
    ∀ {l : List (κ × ν)}, e ∈ putEntry k v l → e = (k, v) ∨ e ∈ l := by
  intro l
  induction l with
  | nil => intro h; exact .inl (List.mem_singleton.mp h)
  | cons a r ih =>
    intro h
    unfold putEntry at h
    split at h <;> rcases List.mem_cons.mp h with rfl | h
    · exact .inl rfl
    · exact .inr (List.mem_cons_of_mem a h)
    · exact .inr List.mem_cons_self
    · exact (ih h).imp id (List.mem_cons_of_mem a)

/-- Putting entries binds the keys of the entries, and leaves the others alone. -/
theorem get?_foldl_put (k : κ) (o : Option ν) :
    ∀ (l : List (κ × ν)) (m : KeyMap κ ν), (∀ e ∈ l, e.1 = k → some e.2 = o) →
      (l.foldl (fun m e => m.put e.1 e.2) m).get? k =
        if k ∈ l.map Prod.fst then o else m.get? k := by
  intro l
  induction l with
  | nil => intro m _; simp
  | cons e r ih =>
    intro m h
    rw [List.foldl_cons, ih _ fun e' he' => h e' (List.mem_cons_of_mem e he'), get?_put]
    by_cases hk : e.1 = k
    · rw [if_pos hk, h e List.mem_cons_self hk]
      simp [hk]
    · have hk' : k ≠ e.1 := fun hke => hk hke.symm
      simp only [List.map_cons, List.mem_cons, hk, hk', false_or, if_false]

theorem get?_ofList_of_agree {k : κ} {o : Option ν} {l : List (κ × ν)}
    (h : ∀ e ∈ l, e.1 = k → some e.2 = o) :
    (ofList l).get? k = if k ∈ l.map Prod.fst then o else none :=
  get?_foldl_put k o l empty h

/-- A map made by a function of the keys. -/
theorem get?_ofList_map (keys : List κ) (f : κ → ν) (k : κ) :
    (ofList (keys.map fun k => (k, f k))).get? k = if k ∈ keys then some (f k) else none := by
  rw [get?_ofList_of_agree (o := some (f k))]
  · simp
  · intro e he hk
    obtain ⟨k', _, rfl⟩ := List.mem_map.mp he
    rw [← hk]

/-- A map made by a function that leaves some of the keys out. -/
theorem get?_ofList_filterMap (keys : List κ) (f : κ → Option ν) (k : κ) :
    (ofList (keys.filterMap fun k => (f k).map fun v => (k, v))).get? k
      = if k ∈ keys then f k else none := by
  rw [get?_ofList_of_agree (o := f k)]
  · cases hf : f k with
    | none => simp
    | some v =>
      have hiff : k ∈ (keys.filterMap fun k => (f k).map fun v => (k, v)).map Prod.fst
          ↔ k ∈ keys := by simp [hf]
      simp only [hiff]
  · intro e he hk
    obtain ⟨k', _, hk'⟩ := List.mem_filterMap.mp he
    obtain ⟨v, hv, rfl⟩ := Option.map_eq_some_iff.mp hk'
    rw [← hk, hv]

theorem get?_ofList_of_mem {l : List (κ × ν)} (h : (l.map Prod.fst).Nodup) {e : κ × ν}
    (he : e ∈ l) : (ofList l).get? e.1 = some e.2 := by
  rw [get?_ofList_of_agree (o := some e.2), if_pos (List.mem_map_of_mem he)]
  intro e' he' hk
  rw [List.inj_on_of_nodup_map h he' he hk]

theorem ofList_append (l : List (κ × ν)) (e : κ × ν) :
    ofList (l ++ [e]) = (ofList l).put e.1 e.2 := by
  unfold ofList
  rw [List.foldl_append]
  rfl

/-- Of several entries with a key the last one counts. -/
theorem get?_ofList_eq_some_iff {l : List (κ × ν)} {k : κ} {v : ν} :
    (ofList l).get? k = some v ↔
      ∃ before after, l = before ++ (k, v) :: after ∧ ∀ e ∈ after, e.1 ≠ k := by
  induction l using List.reverseRecOn with
  | nil => simp [ofList]
  | append_singleton l e ih =>
    rw [ofList_append, get?_put]
    by_cases hk : e.1 = k
    · rw [if_pos hk]
      constructor
      · intro h
        refine ⟨l, [], ?_, by simp⟩
        rw [← hk, ← Option.some.inj h]
      · rintro ⟨before, after, heq, hafter⟩
        rcases List.eq_nil_or_concat after with rfl | ⟨after, e', rfl⟩
        · obtain ⟨_, he⟩ := List.append_inj' heq rfl
          rw [(List.cons.inj he).1]
        · -- an entry behind would be the last one, whose key is `k`
          rw [List.concat_eq_append, ← List.cons_append, ← List.append_assoc] at heq
          obtain ⟨_, he⟩ := List.append_inj' heq rfl
          exact absurd ((List.cons.inj he).1 ▸ hk) (hafter e' (by simp))
    · rw [if_neg hk, ih]
      constructor
      · rintro ⟨before, after, rfl, hafter⟩
        refine ⟨before, after ++ [e], by simp, fun e' he' => ?_⟩
        rcases List.mem_append.mp he' with he' | he'
        · exact hafter e' he'
        · rw [List.mem_singleton.mp he']
          exact hk
      · rintro ⟨before, after, heq, hafter⟩
        rcases List.eq_nil_or_concat after with rfl | ⟨after, e', rfl⟩
        · obtain ⟨_, he⟩ := List.append_inj' heq rfl
          exact absurd (congrArg Prod.fst (List.cons.inj he).1) hk
        · rw [List.concat_eq_append, ← List.cons_append, ← List.append_assoc] at heq
          obtain ⟨hl, _⟩ := List.append_inj' heq rfl
          exact ⟨before, after, hl, fun e'' he'' => hafter e'' (by simp [he''])⟩

/-- A key is bound to the value of the last of its entries. -/
theorem get?_ofList (l : List (κ × ν)) (k : κ) :
    (ofList l).get? k = ((l.filter fun e => e.1 = k).getLast?).map Prod.snd := by
  induction l using List.reverseRecOn with
  | nil => rfl
  | append_singleton l e ih =>
    rw [ofList_append, get?_put, List.filter_append]
    by_cases hk : e.1 = k
    · simp [hk]
    · simp [hk, ih]

/-- The last element with a key is the one that counts for it. -/
theorem get?_ofList_map_key {α : Type} (key : α → κ) (value : α → ν) (l : List α) (k : κ) :
    (ofList (l.map fun a => (key a, value a))).get? k
      = ((l.filter fun a => key a = k).getLast?).map value := by
  rw [get?_ofList, List.filter_map, List.getLast?_map, Option.map_map]
  rfl

/-! ## Sizes -/

theorem size_eq_length_keys (m : KeyMap κ ν) : m.size = m.keys.length :=
  (List.length_map Prod.fst).symm

theorem get?_eq_none_iff {m : KeyMap κ ν} {k : κ} : m.get? k = none ↔ k ∉ m.keys := by
  rw [get?, Option.map_eq_none_iff, List.find?_eq_none, keys, List.mem_map]
  simp only [decide_eq_true_eq, not_exists, not_and]

theorem keys_ofList {l : List (κ × ν)} (h : (l.map Prod.fst).Nodup) :
    (ofList l).keys = l.map Prod.fst := by
  induction l using List.reverseRecOn with
  | nil => rfl
  | append_singleton l last ih =>
    rw [List.map_append, List.map_singleton] at h ⊢
    obtain ⟨hfront, _, hlast⟩ := List.nodup_append.mp h
    have hkeys : (ofList l).entries.map Prod.fst = l.map Prod.fst := ih hfront
    rw [ofList_append]
    show (putEntry last.1 last.2 (ofList l).entries).map Prod.fst = _
    rw [map_fst_putEntry, hkeys,
      if_neg fun hmem => hlast _ hmem _ (List.mem_singleton_self _) rfl]

theorem size_filter_le (m : KeyMap κ ν) (p : κ → ν → Bool) : (m.filter p).size ≤ m.size :=
  List.length_filter_le _ _

theorem size_erase_le (m : KeyMap κ ν) (k : κ) : (m.erase k).size ≤ m.size :=
  m.size_filter_le _

theorem size_erase_lt {m : KeyMap κ ν} {k : κ} (h : k ∈ m.keys) : (m.erase k).size < m.size := by
  obtain ⟨e, he, hk⟩ := List.mem_map.mp h
  exact List.length_filter_lt_length_iff_exists.mpr ⟨e, he, by simp [hk]⟩

theorem size_put_of_notMem {m : KeyMap κ ν} {k : κ} (h : k ∉ m.keys) (v : ν) :
    (m.put k v).size = m.size + 1 := by
  have hkeys : (m.put k v).keys = m.keys ++ [k] := (map_fst_putEntry k v m.entries).trans (if_neg h)
  rw [size_eq_length_keys, size_eq_length_keys, hkeys, List.length_append, List.length_singleton]

/-- The keys that a filter takes away, and the entries that it leaves. -/
theorem length_lost_add_size_filter (m : KeyMap κ ν) (p : κ → ν → Bool) :
    (m.keys.filter fun k => ((m.filter p).get? k).isNone).length + (m.filter p).size = m.size := by
  have hlost : ∀ e ∈ m.entries, ((m.filter p).get? e.1).isNone = !p e.1 e.2 := by
    intro e he
    rw [get?_filter, get?_of_mem he]
    cases hp : p e.1 e.2 <;> simp [Option.filter, hp]
  have hkeys : (m.keys.filter fun k => ((m.filter p).get? k).isNone).length
      = (m.entries.filter fun e => !p e.1 e.2).length := by
    rw [keys, List.filter_map, List.length_map]
    exact congrArg List.length (List.filter_congr hlost)
  rw [hkeys, Nat.add_comm]
  exact (List.length_eq_length_filter_add fun e : κ × ν => p e.1 e.2).symm

theorem notMem_keys_erase (m : KeyMap κ ν) (k : κ) : k ∉ (m.erase k).keys := by
  rw [← get?_eq_none_iff, get?_erase, if_pos rfl]

end RegionPricing.KeyMap
