import RegionPricing.KeyMap

/-!
# A bounded map whose entries expire

An `Expiring` map holds texts under keys until a moment in time. An entry is
live while that moment lies ahead. Before an entry with a new key is added to a
full map, the entries that have expired are dropped; if it is still full, the
tenth of the capacity that expires soonest is dropped too, so that the entries
added next need no room to be made.

Which entries go of those that expire at the same moment is left open: `Ties`
says it, for one time after the other that some have to go.

Times are in milliseconds. A text that would live beyond the last moment of the
clock is not written.
-/

namespace RegionPricing.Cache

/-- A text and when it expires. -/
structure Entry where
  value : String
  expiresAt : Nat
  deriving DecidableEq

/-- Whether the entry has not expired. -/
def Entry.isLive (e : Entry) (now : Nat) : Bool := now < e.expiresAt

/-- Entries by the end of their lives, the soonest first. -/
def soonestFirst (entries : List (String × Entry)) : List (String × Entry) :=
  entries.mergeSort fun a b => a.2.expiresAt ≤ b.2.expiresAt

/-- In which order entries come up that expire at the same moment. It may be another order
each time, and it may depend on all entries. -/
structure Ties where
  /-- The entries in order, when some have to go for the `turn`-th time. -/
  order : (turn : Nat) → List (String × Entry) → List (String × Entry)
  perm : ∀ turn entries, (order turn entries).Perm entries

/-- Entries come up in the order in which they were written. -/
def Ties.asWritten : Ties := ⟨fun _ entries => entries, fun _ entries => .refl entries⟩

/-- A bounded map whose entries expire. -/
structure Expiring where
  capacity : Nat
  entries : KeyMap String Entry
  ties : Ties
  /-- How often entries had to go that had not expired. -/
  evictions : Nat
  capacity_pos : 0 < capacity

namespace Expiring

/-- The map without entries; it has room for at least one. -/
def empty (capacity : Nat) (ties : Ties) : Expiring :=
  ⟨max capacity 1, .empty, ties, 0, by omega⟩

/-- The number of entries, expired ones included. -/
def size (c : Expiring) : Nat := c.entries.size

/-- The live text under a key. -/
def peek (c : Expiring) (now : Nat) (key : String) : Option String :=
  ((c.entries.get? key).filter fun e => e.isLive now).map Entry.value

/-- Looks a key up; an entry found expired is dropped. -/
def get (c : Expiring) (now : Nat) (key : String) : Option String × Expiring :=
  match c.peek now key with
  | some v => (some v, c)
  | none => (none, { c with entries := c.entries.erase key })

/-- How many live entries are dropped when the map is full of them. -/
def share (c : Expiring) : Nat := max (c.capacity / 10) 1

/-- The entries that have not expired. -/
def purge (c : Expiring) (now : Nat) : Expiring :=
  { c with entries := c.entries.filter fun _ e => e.isLive now }

/-- The entries, the ones that expire soonest first. -/
def sorted (c : Expiring) : List (String × Entry) :=
  soonestFirst (c.ties.order c.evictions c.entries.entries)

/-- The keys of the entries, the ones that expire soonest first. -/
def bySoonest (c : Expiring) : List String := c.sorted.map Prod.fst

/-- The map without the entries that expire soonest, as many as `share` says
beyond what is over the capacity. -/
def evict (c : Expiring) : Expiring :=
  let doomed := c.bySoonest.take (c.size - (c.capacity - c.share))
  { c with
    entries := c.entries.filter fun k _ => !decide (k ∈ doomed)
    evictions := c.evictions + 1 }

/-- The map with room for one more entry. -/
def makeRoom (c : Expiring) (now : Nat) : Expiring :=
  let live := c.purge now
  if live.size < live.capacity then live else live.evict

/-- The map with room for an entry under this key. -/
def roomFor (c : Expiring) (now : Nat) (key : String) : Expiring :=
  if (c.entries.get? key).isNone && c.capacity ≤ c.size then c.makeRoom now else c

/-- The last moment of the clock, which counts seconds in 64 bits with a sign. -/
def lastMoment : Nat := 9223372036854775807000

/-- Writes a text that lives for `ttl`. One that would outlive the clock leaves
the entry under its key as it is; room for it is made all the same. -/
def set (c : Expiring) (now ttl : Nat) (key value : String) : Expiring :=
  let c := c.roomFor now key
  if now + ttl < lastMoment then
    { c with entries := (c.entries.erase key).put key ⟨value, now + ttl⟩ }
  else c

def delete (c : Expiring) (key : String) : Expiring :=
  { c with entries := c.entries.erase key }

/-- Looks several keys up; answers what is found, by key. -/
def getMany (c : Expiring) (now : Nat) (keys : List String) : KeyMap String String × Expiring :=
  keys.foldl (fun acc key =>
    match acc.2.get now key with
    | (some v, c) => (acc.1.put key v, c)
    | (none, c) => (acc.1, c)) (.empty, c)

/-- Writes several texts that live for `ttl`, in order. -/
def setMany (c : Expiring) (now ttl : Nat) (items : List (String × String)) : Expiring :=
  items.foldl (fun c e => c.set now ttl e.1 e.2) c

end Expiring

end RegionPricing.Cache
