import RegionPricing.Proofs.Cache.Expiring
import RegionPricing.Proofs.KeyMap

/-!
# The size of a map with expiring entries

A key that is not in the map is written only after room was made for it, and making room
leaves fewer entries than the map may have: what stays of a map full of live entries is the
part of them that expires last (`keys_evict`). So no write makes a map outgrow its capacity
(`size_set_le`).
-/

namespace RegionPricing.Cache

theorem soonestFirst_perm (entries : List (String × Entry)) :
    (soonestFirst entries).Perm entries :=
  List.mergeSort_perm _ _

namespace Expiring

/-- Whether the key is not in the map, and the map is full. -/
def crowds (c : Expiring) (key : String) : Bool :=
  (c.entries.get? key).isNone && c.capacity ≤ c.size

theorem roomFor_eq (c : Expiring) (now : ℕ) (key : String) :
    c.roomFor now key = if c.crowds key then c.makeRoom now else c := rfl

/-! ## Capacity -/

theorem capacity_makeRoom (c : Expiring) (now : ℕ) : (c.makeRoom now).capacity = c.capacity := by
  unfold makeRoom
  dsimp only
  split <;> rfl

theorem capacity_roomFor (c : Expiring) (now : ℕ) (key : String) :
    (c.roomFor now key).capacity = c.capacity := by
  rw [roomFor_eq]
  split
  · exact c.capacity_makeRoom now
  · rfl

theorem capacity_get (c : Expiring) (now : ℕ) (key : String) :
    (c.get now key).2.capacity = c.capacity := by
  unfold get
  split <;> rfl

theorem capacity_set (c : Expiring) (now ttl : ℕ) (key value : String) :
    (c.set now ttl key value).capacity = c.capacity := by
  have hroom := c.capacity_roomFor now key
  unfold set
  dsimp only
  split
  · exact hroom
  · exact hroom

/-! ## Making room -/

theorem share_pos (c : Expiring) : 0 < c.share := by
  unfold share
  omega

theorem bySoonest_perm (c : Expiring) : c.bySoonest.Perm c.entries.keys :=
  ((soonestFirst_perm _).trans (c.ties.perm c.evictions c.entries.entries)).map Prod.fst

/-- What stays is the part of the entries that expires last. -/
theorem keys_evict (c : Expiring) :
    c.evict.entries.keys.Perm (c.bySoonest.drop (c.size - (c.capacity - c.share))) := by
  generalize hn : c.size - (c.capacity - c.share) = n
  have hkeys : c.evict.entries.keys
      = c.entries.keys.filter fun k => !decide (k ∈ c.bySoonest.take n) := by
    show (c.entries.entries.filter _).map Prod.fst = _
    rw [hn, KeyMap.keys, List.filter_map]
    rfl
  have hnodup : c.bySoonest.Nodup := c.bySoonest_perm.nodup_iff.mpr c.entries.nodup
  have hparts := List.take_append_drop n c.bySoonest
  have hapart : List.Disjoint (c.bySoonest.take n) (c.bySoonest.drop n) :=
    List.disjoint_of_nodup_append (hparts.symm ▸ hnodup)
  have hdrop : (c.bySoonest.filter fun k => !decide (k ∈ c.bySoonest.take n))
      = c.bySoonest.drop n := by
    have hgone : ((c.bySoonest.take n).filter fun k => !decide (k ∈ c.bySoonest.take n)) = [] :=
      List.filter_eq_nil_iff.mpr fun k hk => by simp [hk]
    have hleft : ((c.bySoonest.drop n).filter fun k => !decide (k ∈ c.bySoonest.take n))
        = c.bySoonest.drop n :=
      List.filter_eq_self.mpr fun k hk => by simp [show k ∉ c.bySoonest.take n from
        fun hk' => hapart hk' hk]
    calc c.bySoonest.filter (fun k => !decide (k ∈ c.bySoonest.take n))
        = (c.bySoonest.take n ++ c.bySoonest.drop n).filter
            (fun k => !decide (k ∈ c.bySoonest.take n)) := by rw [hparts]
      _ = c.bySoonest.drop n := by rw [List.filter_append, hgone, hleft, List.nil_append]
  rw [hkeys, ← hdrop]
  exact (c.bySoonest_perm.filter _).symm

theorem size_evict {c : Expiring} (h : c.capacity ≤ c.size) :
    c.evict.size = c.capacity - c.share := by
  have hsoonest : c.bySoonest.length = c.size := by
    rw [c.bySoonest_perm.length_eq]
    exact c.entries.size_eq_length_keys.symm
  rw [size, KeyMap.size_eq_length_keys, c.keys_evict.length_eq, List.length_drop, hsoonest]
  omega

theorem size_makeRoom_lt (c : Expiring) (now : ℕ) : (c.makeRoom now).size < c.capacity := by
  unfold makeRoom
  dsimp only
  split
  next h => exact h
  next h =>
    have hshare := (c.purge now).share_pos
    have hpos : 0 < (c.purge now).capacity := c.capacity_pos
    have hcapacity : (c.purge now).capacity = c.capacity := rfl
    rw [size_evict (Nat.not_lt.mp h)]
    omega

/-- A key in question is in the map, or there is room for it. -/
theorem mem_or_room (c : Expiring) (now : ℕ) (key : String) :
    key ∈ (c.roomFor now key).entries.keys ∨ (c.roomFor now key).size < c.capacity := by
  rw [roomFor_eq]
  split
  next => exact .inr (c.size_makeRoom_lt now)
  next h =>
    by_cases hkey : key ∈ c.entries.keys
    · exact .inl hkey
    · have hnone := KeyMap.get?_eq_none_iff.mpr hkey
      refine .inr ?_
      simpa [crowds, hnone] using h

/-! ## Sizes -/

theorem size_get_le (c : Expiring) (now : ℕ) (key : String) : (c.get now key).2.size ≤ c.size := by
  unfold get
  split
  · exact Nat.le_refl _
  · exact c.entries.size_erase_le key

theorem size_roomFor_le (c : Expiring) (now : ℕ) (key : String) (h : c.size ≤ c.capacity) :
    (c.roomFor now key).size ≤ c.capacity := by
  rw [roomFor_eq]
  split
  · exact Nat.le_of_lt (c.size_makeRoom_lt now)
  · exact h

theorem size_set_le (c : Expiring) (now ttl : ℕ) (key value : String) (h : c.size ≤ c.capacity) :
    (c.set now ttl key value).size ≤ c.capacity := by
  have hroom := c.size_roomFor_le now key h
  have hplace := c.mem_or_room now key
  unfold set
  generalize c.roomFor now key = d at hroom hplace
  dsimp only
  split
  · have hput : ((d.entries.erase key).put key ⟨value, now + ttl⟩).size
        = (d.entries.erase key).size + 1 :=
      KeyMap.size_put_of_notMem (d.entries.notMem_keys_erase key) _
    show ((d.entries.erase key).put key ⟨value, now + ttl⟩).size ≤ c.capacity
    rw [hput]
    rcases hplace with hkey | hlt
    · exact Nat.lt_of_lt_of_le (KeyMap.size_erase_lt hkey) hroom
    · exact Nat.lt_of_le_of_lt (d.entries.size_erase_le key) hlt
  · exact hroom

end Expiring

end RegionPricing.Cache
