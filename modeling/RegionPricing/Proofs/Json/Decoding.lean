import RegionPricing.Json.Shape
import RegionPricing.Proofs.Json.RoundTrip
import RegionPricing.Proofs.KeyMap

/-!
# Decoding what was encoded

Each decoder gives back what was encoded for it: words of 64 bits, a value or null, lists,
maps and records. Of a map it is required that its keys are read back from their texts, and
then its entries come back in their order. A record has its own fields and no others
(`record?_object`), so each field is found under its name.
-/

namespace RegionPricing

/-- A list of entries with distinct keys makes a map of just these entries. -/
theorem KeyMap.entries_ofList {κ ν : Type} [DecidableEq κ] {l : List (κ × ν)}
    (h : (l.map Prod.fst).Nodup) : (KeyMap.ofList l).entries = l := by
  have hput : ∀ {r : List (κ × ν)} {e : κ × ν}, e.1 ∉ r.map Prod.fst →
      putEntry e.1 e.2 r = r ++ [e] := by
    intro r
    induction r with
    | nil => intro e _; rfl
    | cons a r ih =>
      intro e he
      rw [List.map_cons, List.mem_cons, not_or] at he
      rw [putEntry, if_neg (Ne.symm he.1), ih he.2]
      rfl
  induction l using List.reverseRecOn with
  | nil => rfl
  | append_singleton l e ih =>
    rw [List.map_append, List.nodup_append] at h
    obtain ⟨hl, _, hdisjoint⟩ := h
    have hnew : e.1 ∉ l.map Prod.fst :=
      fun hmem => hdisjoint e.1 hmem e.1 (List.mem_singleton_self e.1) rfl
    rw [KeyMap.ofList_append]
    show putEntry e.1 e.2 (KeyMap.ofList l).entries = l ++ [e]
    rw [ih hl, hput hnew]

theorem KeyMap.ofList_entries {κ ν : Type} [DecidableEq κ] (m : KeyMap κ ν) :
    KeyMap.ofList m.entries = m := by
  have hentries := KeyMap.entries_ofList m.nodup
  generalize KeyMap.ofList m.entries = m' at hentries
  obtain ⟨entries, nodup⟩ := m
  obtain ⟨entries', nodup'⟩ := m'
  obtain rfl : entries' = entries := hentries
  rfl

namespace Json

/-! ## Words and strings -/

theorem natAbs_int64_le (n : Int64) : n.toInt.natAbs ≤ Json.maxWord := by
  have hleast := n.le_toInt
  have hgreatest := n.toInt_lt
  unfold Json.maxWord
  omega

theorem natAbs_uint64_le (n : UInt64) : (n.toNat : ℤ).natAbs ≤ Json.maxWord := by
  have hlt := n.toNat_lt
  unfold Json.maxWord
  omega

theorem int64?_toInt (n : Int64) : Json.int64? (.integer n.toInt) = some n := by
  have hleast := n.le_toInt
  have hgreatest := n.toInt_lt
  have hin : Json.integerIn? (-9223372036854775808) 9223372036854775807 (.integer n.toInt)
      = some n.toInt := if_pos (by omega)
  rw [Json.int64?, hin, Option.map_some, Int64.ofInt_toInt]

theorem uint64?_toNat (n : UInt64) : Json.uint64? (.integer n.toNat) = some n := by
  have hlt := n.toNat_lt
  have hin : Json.integerIn? 0 18446744073709551615 (.integer n.toNat) = some (n.toNat : ℤ) :=
    if_pos (by omega)
  rw [Json.uint64?, hin, Option.map_some, Int.toNat_natCast, UInt64.ofNat_toNat]

theorem string?_string (s : String) : string? (.string s) = some s := rfl

/-! ## Values within values -/

section

variable {α : Type} {encode : α → Json} {d : Decoder α}

/-- A value or null, when no value is written as null. -/
theorem nullable?_elim (hdecode : ∀ a, d (encode a) = some a) (hnull : ∀ a, encode a ≠ .null)
    (o : Option α) : nullable? d (o.elim .null encode) = some o := by
  cases o with
  | none => rfl
  | some a =>
    show nullable? d (encode a) = some (some a)
    unfold nullable?
    split
    · rename_i heq
      exact absurd heq (hnull a)
    · rw [hdecode a]
      rfl

theorem mapM_encoded {β : Type} {f : β → Option α} {g : α → β} {l : List α}
    (h : ∀ a ∈ l, f (g a) = some a) : (l.map g).mapM f = some l := by
  induction l with
  | nil => rfl
  | cons a r ih =>
    rw [List.map_cons, List.mapM_cons, h a List.mem_cons_self,
      ih fun b hb => h b (List.mem_cons_of_mem a hb)]
    rfl

theorem list?_array (hdecode : ∀ a, d (encode a) = some a) (l : List α) :
    list? d (.array (l.map encode)) = some l :=
  mapM_encoded fun a _ => hdecode a

/-- A map whose keys are read back from their texts. -/
theorem map?_object {κ : Type} [DecidableEq κ] {key : String → κ} {text : κ → String}
    (hkey : ∀ k, key (text k) = k) (hdecode : ∀ a, d (encode a) = some a) (m : KeyMap κ α) :
    map? key d (.object (m.entries.map fun e => (text e.1, encode e.2))) = some m := by
  have hentries : (m.entries.map fun e => (text e.1, encode e.2)).mapM
      (fun f => (d f.2).map fun v => (key f.1, v)) = some m.entries :=
    mapM_encoded fun e _ => by rw [hdecode, Option.map_some, hkey]
  rw [map?, hentries, Option.map_some, KeyMap.ofList_entries]

end

/-- A record that has its own fields and no others. -/
theorem record?_object {names : List String} {fs : List (String × Json)}
    (hnames : fs.map Prod.fst = names) (hnodup : names.Nodup) :
    record? names (.object fs) = some ⟨false, fs⟩ := by
  have hknown : (fs.filter fun f => f.1 ∈ names) = fs := by
    refine List.filter_eq_self.mpr fun f hf => decide_eq_true ?_
    rw [← hnames]
    exact List.mem_map_of_mem hf
  rw [record?, hknown]
  exact if_pos (hnames ▸ hnodup)

/-! ## Texts that are read back -/

/-- A value whose text is read back: it is exact and nests no deeper than so many levels. -/
structure Plain (levels : ℕ) (v : Json) : Prop where
  exact : v.isExact
  depth_le : v.depth ≤ levels

section

variable {n : ℕ}

theorem plain_null : Plain n .null := ⟨rfl, Nat.zero_le n⟩

theorem plain_bool (b : Bool) : Plain n (.bool b) := ⟨rfl, Nat.zero_le n⟩

theorem plain_string (s : String) : Plain n (.string s) := ⟨rfl, Nat.zero_le n⟩

theorem plain_int64 (i : Int64) : Plain n (.integer i.toInt) :=
  ⟨decide_eq_true (natAbs_int64_le i), Nat.zero_le n⟩

theorem plain_uint64 (i : UInt64) : Plain n (.integer i.toNat) :=
  ⟨decide_eq_true (natAbs_uint64_le i), Nat.zero_le n⟩

theorem plain_elim {α : Type} {encode : α → Json} (h : ∀ a, Plain n (encode a)) (o : Option α) :
    Plain n (o.elim .null encode) := by
  cases o with
  | none => exact plain_null
  | some a => exact h a

theorem plain_array {xs : List Json} (h : ∀ x ∈ xs, Plain n x) : Plain (n + 1) (.array xs) := by
  have hitems : itemsExact xs = true ∧ itemsDepth xs ≤ n := by
    induction xs with
    | nil => exact ⟨rfl, Nat.zero_le n⟩
    | cons x r ih =>
      obtain ⟨hexact, hdepth⟩ := ih fun y hy => h y (List.mem_cons_of_mem x hy)
      have hx := h x List.mem_cons_self
      exact ⟨Bool.and_eq_true_iff.mpr ⟨hx.exact, hexact⟩, Nat.max_le.mpr ⟨hx.depth_le, hdepth⟩⟩
  exact ⟨hitems.1, Nat.succ_le_succ hitems.2⟩

theorem plain_object {fs : List (String × Json)} (h : ∀ f ∈ fs, Plain n f.2) :
    Plain (n + 1) (.object fs) := by
  have hfields : fieldsExact fs = true ∧ fieldsDepth fs ≤ n := by
    induction fs with
    | nil => exact ⟨rfl, Nat.zero_le n⟩
    | cons f r ih =>
      obtain ⟨hexact, hdepth⟩ := ih fun g hg => h g (List.mem_cons_of_mem f hg)
      have hf := h f List.mem_cons_self
      exact ⟨Bool.and_eq_true_iff.mpr ⟨hf.exact, hexact⟩, Nat.max_le.mpr ⟨hf.depth_le, hdepth⟩⟩
  exact ⟨hfields.1, Nat.succ_le_succ hfields.2⟩

theorem parse?_plain {v : Json} (h : Plain n v) (hn : n ≤ maxDepth) :
    parse? v.render = some v :=
  parse?_render h.exact (h.depth_le.trans hn)

end

end Json

end RegionPricing
