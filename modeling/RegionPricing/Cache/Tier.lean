import RegionPricing.Cache.Expiring
import RegionPricing.Cache.Remote

/-!
# Cache tiers

A `Tier` is one cache of several, asked one after the other. It holds its
entries in memory or on a server, or it fails every call. What a lookup found
further away is queued in the tier and written when the tier is settled, not
within the lookup.
-/

namespace RegionPricing.Cache

/-- Where a tier keeps its entries. -/
inductive Storage where
  | expiring (c : Expiring)
  | remote (r : Remote)
  /-- Fails every call. -/
  | broken

namespace Storage

/-- The failure of a broken storage. -/
def outOfOrder : CacheError := .backend "out of order"

/-- The name of the kind of storage. -/
def name : Storage → String
  | .expiring _ => "local"
  | .remote _ => "redis"
  | .broken => "broken"

/-- The number of entries, where it is known. -/
def size? : Storage → Option Nat
  | .expiring c => some c.size
  | _ => none

def get (s : Storage) (now : Nat) (key : String) : Except CacheError String × Storage :=
  match s with
  | .expiring c =>
    match c.get now key with
    | (some v, c) => (.ok v, .expiring c)
    | (none, c) => (.error .miss, .expiring c)
  | .remote r => let (a, r) := r.get now key; (a, .remote r)
  | .broken => (.error outOfOrder, .broken)

def set (s : Storage) (now ttl : Nat) (key value : String) : Except CacheError Unit × Storage :=
  match s with
  | .expiring c => (.ok (), .expiring (c.set now ttl key value))
  | .remote r => let (a, r) := r.set now ttl key value; (a, .remote r)
  | .broken => (.error outOfOrder, .broken)

def delete (s : Storage) (now : Nat) (key : String) : Except CacheError Unit × Storage :=
  match s with
  | .expiring c => (.ok (), .expiring (c.delete key))
  | .remote r => let (a, r) := r.delete now key; (a, .remote r)
  | .broken => (.error outOfOrder, .broken)

def getMany (s : Storage) (now : Nat) (keys : List String) :
    Except CacheError (KeyMap String String) × Storage :=
  match s with
  | .expiring c => let (found, c) := c.getMany now keys; (.ok found, .expiring c)
  | .remote r => let (a, r) := r.getMany now keys; (a, .remote r)
  | .broken => (.error outOfOrder, .broken)

def setMany (s : Storage) (now ttl : Nat) (items : List (String × String)) :
    Except CacheError Unit × Storage :=
  match s with
  | .expiring c => (.ok (), .expiring (c.setMany now ttl items))
  | .remote r => let (a, r) := r.setMany now ttl items; (a, .remote r)
  | .broken => (.error outOfOrder, .broken)

end Storage

/-- One cache of several. -/
structure Tier where
  storage : Storage
  /-- How long its entries live, in milliseconds. -/
  ttl : Nat
  /-- What is to be written when the tier is settled, the oldest first. -/
  queued : List (List (String × String))

namespace Tier

/-- A tier that holds its entries in memory. -/
def inMemory (capacity ttl : Nat) (ties : Ties) : Tier :=
  ⟨.expiring (.empty capacity ties), ttl, []⟩

/-- What the tier has under some keys; nothing when it fails. -/
def read (t : Tier) (now : Nat) (keys : List String) : KeyMap String String × Tier :=
  match t.storage.getMany now keys with
  | (.ok found, s) => (found, { t with storage := s })
  | (.error _, s) => (.empty, { t with storage := s })

/-- Queues entries, if there are any. -/
def enqueue (t : Tier) (items : List (String × String)) : Tier :=
  if items.isEmpty then t else { t with queued := t.queued ++ [items] }

/-- Writes everything that is queued. -/
def settle (t : Tier) (now : Nat) : Tier :=
  let storage := t.queued.foldl (fun s items => (s.setMany now t.ttl items).2) t.storage
  { t with storage := storage, queued := [] }

/-- Writes one of the batches that are queued. -/
def land (t : Tier) (now n : Nat) : Option Tier :=
  t.queued[n]?.map fun items =>
    { t with storage := (t.storage.setMany now t.ttl items).2, queued := t.queued.eraseIdx n }

/-- Deletes some keys; a failure changes nothing. -/
def delete (t : Tier) (now : Nat) (keys : List String) : Tier :=
  { t with storage := keys.foldl (fun s key => (s.delete now key).2) t.storage }

end Tier

end RegionPricing.Cache
