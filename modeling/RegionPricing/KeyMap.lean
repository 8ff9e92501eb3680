/-!
# Finite maps with distinct keys

A `KeyMap` is a list of entries whose keys are distinct, in the order in which
the keys first came. It is used wherever an answer shows what a map holds:
`get?` reads it, `put` replaces or appends, `erase` removes. The three laws
`get?_put`, `get?_erase` and `get?_filter` describe each operation through
`get?`, so nothing else needs to look at the list.
-/

namespace RegionPricing

/-- The entries with `k` bound to `v`: in place when `k` is there, at the end
otherwise. -/
def putEntry {κ ν : Type} [DecidableEq κ] (k : κ) (v : ν) : List (κ × ν) → List (κ × ν)
  | [] => [(k, v)]
  | e :: r => if e.1 = k then (k, v) :: r else e :: putEntry k v r

theorem map_fst_putEntry {κ ν : Type} [DecidableEq κ] (k : κ) (v : ν) (l : List (κ × ν)) :
    (putEntry k v l).map Prod.fst =
      if k ∈ l.map Prod.fst then l.map Prod.fst else l.map Prod.fst ++ [k] := by
  induction l with
  | nil => simp [putEntry]
  | cons e r ih =>
    by_cases h : e.1 = k
    · simp [putEntry, h]
    · have hk : k ≠ e.1 := fun he => h he.symm
      simp only [putEntry, h, if_false, List.map_cons, List.mem_cons, hk, false_or, ih]
      split <;> simp

/-- A finite map: entries with distinct keys, in the order in which the keys
first came. -/
structure KeyMap (κ ν : Type) [DecidableEq κ] where
  entries : List (κ × ν)
  nodup : (entries.map Prod.fst).Nodup

namespace KeyMap

variable {κ ν : Type} [DecidableEq κ]

instance [DecidableEq ν] : DecidableEq (KeyMap κ ν) := fun a b =>
  if h : a.entries = b.entries then
    isTrue (by cases a; cases b; simpa using h)
  else
    isFalse (fun he => h (he ▸ rfl))

/-- The map without entries. -/
def empty : KeyMap κ ν := ⟨[], by simp⟩

instance : Inhabited (KeyMap κ ν) := ⟨empty⟩

/-- The keys, in order. -/
def keys (m : KeyMap κ ν) : List κ := m.entries.map Prod.fst

/-- The number of entries. -/
def size (m : KeyMap κ ν) : Nat := m.entries.length

/-- The value bound to `k`. -/
def get? (m : KeyMap κ ν) (k : κ) : Option ν :=
  (m.entries.find? (fun e => e.1 = k)).map Prod.snd

/-- The map with `k` bound to `v`. -/
def put (m : KeyMap κ ν) (k : κ) (v : ν) : KeyMap κ ν :=
  ⟨putEntry k v m.entries, by
    rw [map_fst_putEntry]
    split
    · exact m.nodup
    · rename_i h
      refine List.nodup_append.2 ⟨m.nodup, by simp, ?_⟩
      intro a ha b hb hab
      simp only [List.mem_singleton] at hb
      exact h (hb ▸ hab ▸ ha)⟩

/-- The entries that pass a test. -/
def filter (m : KeyMap κ ν) (p : κ → ν → Bool) : KeyMap κ ν :=
  ⟨m.entries.filter (fun e => p e.1 e.2),
    (List.filter_sublist.map Prod.fst).nodup m.nodup⟩

/-- The map without `k`. -/
def erase (m : KeyMap κ ν) (k : κ) : KeyMap κ ν :=
  m.filter (fun k' _ => !decide (k' = k))

/-- The map of a list of entries; of two with the same key the later wins. -/
def ofList (l : List (κ × ν)) : KeyMap κ ν :=
  l.foldl (fun m e => m.put e.1 e.2) empty

/-- The map with every value changed by `f`. -/
def mapValues {μ : Type} (m : KeyMap κ ν) (f : κ → ν → μ) : KeyMap κ μ :=
  ⟨m.entries.map (fun e => (e.1, f e.1 e.2)), by
    rw [List.map_map]
    exact m.nodup⟩

/-! ## The operations, seen through `get?` -/

@[simp] theorem get?_empty (k : κ) : (empty : KeyMap κ ν).get? k = none := rfl

theorem find?_putEntry (k k' : κ) (v : ν) (l : List (κ × ν)) :
    ((putEntry k v l).find? (fun e => e.1 = k')).map Prod.snd =
      if k = k' then some v else (l.find? (fun e => e.1 = k')).map Prod.snd := by
  induction l with
  | nil => by_cases h : k = k' <;> simp [putEntry, h]
  | cons e r ih =>
    by_cases h : e.1 = k
    · by_cases h' : k = k'
      · simp [putEntry, h, h']
      · simp [putEntry, h, h']
    · by_cases h' : e.1 = k'
      · have hk : k ≠ k' := fun hk => h (h'.trans hk.symm)
        rw [putEntry, if_neg h, if_neg hk]
        simp [h']
      · simpa [putEntry, h, h'] using ih

theorem get?_put (m : KeyMap κ ν) (k k' : κ) (v : ν) :
    (m.put k v).get? k' = if k = k' then some v else m.get? k' :=
  find?_putEntry k k' v m.entries

theorem find?_filter_entries (p : κ → ν → Bool) (k : κ) :
    ∀ l : List (κ × ν), (l.map Prod.fst).Nodup →
      ((l.filter (fun e => p e.1 e.2)).find? (fun e => e.1 = k)).map Prod.snd =
        ((l.find? (fun e => e.1 = k)).map Prod.snd).filter (p k)
  | [], _ => rfl
  | e :: r, h => by
    simp only [List.map_cons, List.nodup_cons] at h
    have ih := find?_filter_entries p k r h.2
    by_cases hk : e.1 = k
    · cases hp : p e.1 e.2
      · have hn : r.find? (fun e => e.1 = k) = none := by
          simp only [List.find?_eq_none, decide_eq_true_eq]
          intro x hx he
          exact h.1 (List.mem_map.2 ⟨x, hx, he.trans hk.symm⟩)
        rw [hn] at ih
        simp only [Option.map_none, Option.filter_none] at ih
        subst hk
        simp [hp, Option.filter] at ih ⊢
        exact ih
      · subst hk
        simp [hp, Option.filter]
    · cases hp : p e.1 e.2
      · simpa [hp, hk] using ih
      · simpa [hp, hk] using ih

theorem get?_filter (m : KeyMap κ ν) (p : κ → ν → Bool) (k : κ) :
    (m.filter p).get? k = (m.get? k).filter (p k) :=
  find?_filter_entries p k m.entries m.nodup

theorem get?_erase (m : KeyMap κ ν) (k k' : κ) :
    (m.erase k).get? k' = if k = k' then none else m.get? k' := by
  unfold erase
  rw [get?_filter]
  by_cases h : k = k'
  · subst h
    cases m.get? k <;> simp [Option.filter]
  · have h' : k' ≠ k := fun he => h he.symm
    cases m.get? k' <;> simp [Option.filter, h, h']

theorem get?_mapValues {μ : Type} (m : KeyMap κ ν) (f : κ → ν → μ) (k : κ) :
    (m.mapValues f).get? k = (m.get? k).map (f k) := by
  obtain ⟨l, hl⟩ := m
  unfold mapValues get?
  simp only
  clear hl
  induction l with
  | nil => rfl
  | cons e r ih =>
    by_cases h : e.1 = k
    · subst h
      simp
    · simpa [h] using ih

end KeyMap

end RegionPricing
