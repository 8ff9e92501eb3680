import RegionPricing.Proofs.KeyMap
import RegionPricing.Factor.Answers

/-!
# What is known of each key

Answers made for a list of keys say of each of these keys what they were made to
say. Answers completed from what was found do so for keys without repeats
(`complete_of_nodup`); a key that stands more than once in the list is missing in them,
whatever was found (`get?_complete`).
-/

namespace RegionPricing.Factor.Answers

variable {κ ν : Type} [DecidableEq κ]

theorem get?_ofKeys (keys : List κ) (outcome : κ → Outcome ν) (k : κ) :
    (ofKeys keys outcome).get? k = if k ∈ keys then some (outcome k) else none :=
  KeyMap.get?_ofList_map keys outcome k

variable [KeyText κ]

theorem lookup_of_get? {what : String} {answers : Answers κ ν} {k : κ} {o : Outcome ν}
    (h : answers.get? k = some o) : answers.lookup what k = o := by
  rw [lookup, h, Option.getD_some]

theorem lookup_ofKeys {what : String} {keys : List κ} {outcome : κ → Outcome ν} {k : κ}
    (hk : k ∈ keys) : (ofKeys keys outcome).lookup what k = outcome k :=
  lookup_of_get? (by rw [get?_ofKeys, if_pos hk])

/-- Where all keys have one value, every value that is found is this one. -/
theorem eq_of_lookup_ofKeys {what : String} {keys : List κ} {v w : ν} {k : κ}
    (h : (ofKeys keys fun _ => .ok v).lookup what k = .ok w) : w = v := by
  rw [lookup, get?_ofKeys] at h
  split at h
  next =>
    cases h
    rfl
  next => cases h

/-! ## Answers completed from what was found -/

omit [KeyText κ] in
theorem nodup_eraseDups (keys : List κ) : keys.eraseDups.Nodup := by
  match keys with
  | [] => exact List.nodup_nil
  | a :: keys =>
    rw [List.eraseDups_cons]
    refine List.nodup_cons.mpr ⟨fun ha => ?_, nodup_eraseDups (keys.filter fun b => !b == a)⟩
    have hkept := (List.mem_filter.mp (List.mem_eraseDups.mp ha)).2
    simp at hkept
termination_by keys.length
decreasing_by exact Nat.lt_succ_of_le (List.length_filter_le _ _)

omit [KeyText κ] in
theorem eraseDups_of_nodup {keys : List κ} (h : keys.Nodup) : keys.eraseDups = keys := by
  induction keys with
  | nil => rfl
  | cons k keys ih =>
    obtain ⟨hnot, hkeys⟩ := List.nodup_cons.mp h
    have hself : keys.filter (fun k' => !k' == k) = keys := by
      refine List.filter_eq_self.mpr fun k' hk' => ?_
      have hne : k' ≠ k := fun heq => hnot (heq ▸ hk')
      simp [hne]
    rw [List.eraseDups_cons, hself, ih hkeys]

theorem ofFound_erase_self (what : String) (found : KeyMap κ ν) (k : κ) :
    ofFound what (found.erase k) k = .error (notFound what k) := by
  rw [ofFound, KeyMap.get?_erase, if_pos rfl]

theorem ofFound_erase_of_ne (what : String) (found : KeyMap κ ν) {a k : κ} (h : a ≠ k) :
    ofFound what (found.erase a) k = ofFound what found k := by
  rw [ofFound, ofFound, KeyMap.get?_erase, if_neg h]

/-- The first time that a key stands in a list it gets what was found, each further time the
failure. -/
theorem filter_handedOut (what : String) (k : κ) (keys : List κ) (found : KeyMap κ ν) :
    (handedOut what keys found).filter (fun e => e.1 = k) =
      if k ∈ keys then (k, ofFound what found k) ::
        List.replicate (keys.count k - 1) (k, .error (notFound what k))
      else [] := by
  induction keys generalizing found with
  | nil => rfl
  | cons a keys ih =>
    rw [handedOut, List.filter_cons]
    by_cases h : a = k
    · subst h
      rw [if_pos (decide_eq_true rfl), ih, if_pos List.mem_cons_self, List.count_cons_self]
      by_cases hmem : a ∈ keys
      · -- nothing is left for the places behind the first
        have hcount : 0 < keys.count a := List.count_pos_iff.mpr hmem
        rw [if_pos hmem, ofFound_erase_self, ← List.replicate_succ]
        congr 2
        omega
      · rw [if_neg hmem, List.count_eq_zero_of_not_mem hmem]
        rfl
    · have hmem : k ∈ a :: keys ↔ k ∈ keys := by simp [Ne.symm h]
      rw [if_neg (by simpa using h), ih, ofFound_erase_of_ne what found h,
        List.count_cons_of_ne h]
      simp only [hmem]

/-- What was found for a key counts only if the key stands once in the list. -/
theorem get?_complete (what : String) (keys : List κ) (found : KeyMap κ ν) (k : κ) :
    (complete what keys found).get? k =
      if k ∈ keys then
        some (if keys.count k = 1 then ofFound what found k else .error (notFound what k))
      else none := by
  rw [complete, KeyMap.get?_ofList, filter_handedOut]
  by_cases hmem : k ∈ keys
  · have hcount : 0 < keys.count k := List.count_pos_iff.mpr hmem
    rw [if_pos hmem, if_pos hmem, List.getLast?_cons]
    by_cases hone : keys.count k = 1
    · rw [if_pos hone, hone]
      rfl
    · rw [if_neg hone, List.getLast?_replicate, if_neg (by omega)]
      rfl
  · rw [if_neg hmem, if_neg hmem]
    rfl

theorem handedOut_of_nodup (what : String) {keys : List κ} (h : keys.Nodup)
    (found : KeyMap κ ν) :
    handedOut what keys found = keys.map fun k => (k, ofFound what found k) := by
  induction keys generalizing found with
  | nil => rfl
  | cons a keys ih =>
    obtain ⟨hnot, hkeys⟩ := List.nodup_cons.mp h
    rw [handedOut, ih hkeys, List.map_cons]
    congr 1
    refine List.map_congr_left fun k hk => ?_
    have hne : a ≠ k := fun hak => hnot (hak ▸ hk)
    rw [ofFound_erase_of_ne what found hne]

/-- Keys without repeats all get what was found for them. -/
theorem complete_of_nodup (what : String) {keys : List κ} (h : keys.Nodup)
    (found : KeyMap κ ν) : complete what keys found = ofKeys keys (ofFound what found) := by
  rw [complete, handedOut_of_nodup what h, ofKeys]

end RegionPricing.Factor.Answers
