import RegionPricing.KeyMap
import RegionPricing.Text.Digits

/-!
# A key-value server

A `Server` executes four commands on texts: read one key, read several, write a
key for a number of seconds, delete a key. It keeps a log of the commands that
reached it, failed ones included.
-/

namespace RegionPricing.Cache

/-- A command of the server. -/
inductive Command where
  | get (key : String)
  | setFor (key : String) (seconds : Nat) (value : String)
  | delete (key : String)
  | getMany (keys : List String)
  deriving DecidableEq

/-- The words of a command. -/
def Command.words : Command → List String
  | .get key => ["GET", key]
  | .setFor key seconds value => ["SETEX", key, Text.numeral seconds, value]
  | .delete key => ["DEL", key]
  | .getMany keys => "MGET" :: keys

/-- The answer to a command. -/
inductive Response where
  /-- What is under each key that was read. -/
  | values (vs : List (Option String))
  | done
  | failed
  deriving DecidableEq

/-- A text and when it expires, if it ever does. -/
structure Stored where
  value : String
  expiresAt : Option Nat

/-- A key-value server. -/
structure Server where
  contents : KeyMap String Stored
  /-- Whether every command fails. -/
  failing : Bool
  log : List Command

namespace Server

/-- A server that holds some texts without an end. -/
def ofContents (kvs : List (String × String)) : Server :=
  ⟨.ofList (kvs.map fun e => (e.1, ⟨e.2, none⟩)), false, []⟩

/-- The text under a key at some time in milliseconds. -/
def read (s : Server) (now : Nat) (key : String) : Option String :=
  ((s.contents.get? key).filter fun e => e.expiresAt.all fun t => now < t).map Stored.value

/-- What a command that does not fail does. -/
def perform (s : Server) (now : Nat) : Command → Response × Server
  | .get key => (.values [s.read now key], s)
  | .getMany keys => (.values (keys.map (s.read now)), s)
  | .setFor key seconds value =>
    (.done, { s with contents := s.contents.put key ⟨value, some (now + 1000 * seconds)⟩ })
  | .delete key => (.done, { s with contents := s.contents.erase key })

/-- Executes a command. -/
def execute (s : Server) (now : Nat) (c : Command) : Response × Server :=
  let s := { s with log := s.log ++ [c] }
  if s.failing then (.failed, s) else s.perform now c

/-- Executes commands in order; fails when one of them does. -/
def executeAll (s : Server) (now : Nat) (cs : List Command) : Response × Server :=
  cs.foldl (fun acc c =>
    match acc.2.execute now c with
    | (.failed, s) => (.failed, s)
    | (_, s) => (acc.1, s)) (.done, s)

end Server

end RegionPricing.Cache
