import RegionPricing.Failure
import RegionPricing.Cache.Server

/-!
# A cache on a key-value server

A `Remote` cache keeps its entries on a server, under keys that begin with the
name of a space, so that others can use the server too. Life times are counted
in whole seconds, of which there is at least one. Calls for no key at all send
nothing.
-/

namespace RegionPricing.Cache

/-- A cache on a server. -/
structure Remote where
  /-- The keys on the server begin with this, unless it is empty. -/
  space : String
  server : Server

namespace Remote

/-- The failure of a command. -/
def refused : CacheError := .backend "the server refused the command"

/-- Connects to a server, if one is reachable. -/
def connect (server : Option Server) (space : String) : Except CacheError Remote :=
  match server with
  | some s => .ok ⟨space, s⟩
  | none => .error (.backend "no server is reachable")

/-- The key on the server. -/
def fullKey (r : Remote) (key : String) : String :=
  if r.space.isEmpty then key else r.space ++ ":" ++ key

/-- The whole seconds of a life time in milliseconds. -/
def seconds (ttl : Nat) : Nat := max (ttl / 1000) 1

def get (r : Remote) (now : Nat) (key : String) : Except CacheError String × Remote :=
  match r.server.execute now (.get (r.fullKey key)) with
  | (.values [some v], s) => (.ok v, { r with server := s })
  | (.failed, s) => (.error refused, { r with server := s })
  | (_, s) => (.error .miss, { r with server := s })

/-- Whether a command was executed. -/
def executed (r : Remote) : Response × Server → Except CacheError Unit × Remote
  | (.failed, s) => (.error refused, { r with server := s })
  | (_, s) => (.ok (), { r with server := s })

/-- The command that writes a text. -/
def writing (r : Remote) (ttl : Nat) (e : String × String) : Command :=
  .setFor (r.fullKey e.1) (seconds ttl) e.2

def set (r : Remote) (now ttl : Nat) (key value : String) : Except CacheError Unit × Remote :=
  r.executed (r.server.execute now (r.writing ttl (key, value)))

def delete (r : Remote) (now : Nat) (key : String) : Except CacheError Unit × Remote :=
  r.executed (r.server.execute now (.delete (r.fullKey key)))

/-- Looks several keys up by one command. -/
def getMany (r : Remote) (now : Nat) (keys : List String) :
    Except CacheError (KeyMap String String) × Remote :=
  if keys.isEmpty then (.ok .empty, r)
  else
    match r.server.execute now (.getMany (keys.map r.fullKey)) with
    | (.values vs, s) =>
      (.ok (.ofList ((keys.zip vs).filterMap fun e => e.2.map fun v => (e.1, v))),
        { r with server := s })
    | (.failed, s) => (.error refused, { r with server := s })
    | (.done, s) => (.ok .empty, { r with server := s })

/-- Writes several texts, in order. -/
def setMany (r : Remote) (now ttl : Nat) (items : List (String × String)) :
    Except CacheError Unit × Remote :=
  if items.isEmpty then (.ok (), r)
  else r.executed (r.server.executeAll now (items.map (r.writing ttl)))

end Remote

end RegionPricing.Cache
