import RegionPricing.Json.Shape
import RegionPricing.Cache.Tier

/-!
# Calls on a cache

What can be asked of a cache, as data: a run of a cache is a list of calls with
what each comes to.
-/

namespace RegionPricing.Cache

/-- What is asked of a cache. -/
inductive Call where
  | name
  | get (key : String)
  | set (key value : String) (ttl : Nat)
  | delete (key : String)
  | getMany (keys : List String)
  | setMany (items : List (String × String)) (ttl : Nat)
  | size
  deriving DecidableEq

/-- What a call comes to. -/
inductive Answer where
  | done
  | text (s : String)
  | found (m : KeyMap String String)
  | count (n : Nat)

/-- Makes a call at a time. -/
def Storage.perform (s : Storage) (now : Nat) : Call → Except CacheError Answer × Storage
  | .name => (.ok (.text s.name), s)
  | .get key => let (a, s) := s.get now key; (a.map .text, s)
  | .set key value ttl => let (a, s) := s.set now ttl key value; (a.map fun _ => .done, s)
  | .delete key => let (a, s) := s.delete now key; (a.map fun _ => .done, s)
  | .getMany keys => let (a, s) := s.getMany now keys; (a.map .found, s)
  | .setMany items ttl => let (a, s) := s.setMany now ttl items; (a.map fun _ => .done, s)
  | .size => (.ok (.count (s.size?.getD 0)), s)

/-- A call by its name, with what it is about. -/
def Call.ofNamed? (name : String) (v : Json) : Option Call :=
  match name with
  | "name" => some .name
  | "get" => (Json.string? v).map .get
  | "set" => do
    let (key, value, ttl) ← Json.triple? Json.string? Json.string? Json.uint64? v
    return .set key value ttl.toNat
  | "delete" => (Json.string? v).map .delete
  | "get_many" => (Json.list? Json.string? v).map .getMany
  | "set_many" => do
    let (items, ttl) ←
      Json.pair? (Json.list? (Json.pair? Json.string? Json.string?)) Json.uint64? v
    return .setMany items ttl.toNat
  | "len" => some .size
  | _ => none

end RegionPricing.Cache
