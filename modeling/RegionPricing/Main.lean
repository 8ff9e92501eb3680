import RegionPricing.Json.Writer
import RegionPricing.Market.Gateway
import RegionPricing.Service

/-!
# The command line

Reads its settings from the environment and one request from standard input, and
writes the reply to standard output. It works on a store without entries and
reaches no service and no cache server. The exit code is 1 when the service does
not start, 2 when the input is no request and 3 when the whole batch fails.
-/

namespace RegionPricing.Main

open RegionPricing.Batch RegionPricing.Market

/-- The settings that the environment gives. -/
def environment : IO Settings.Source := do
  let entries ← Settings.keys.filterMapM fun key => do
    return (← IO.getEnv key).map fun text => (key, text)
  return .ofList entries

/-- The text of the rules file, if there is a path, or why it cannot be read. -/
def rulesText : Option String → IO (Except String String)
  | none => return .error "no path"
  | some path => do
    try return .ok (← IO.FS.readFile path)
    catch e => return .error (toString e)

/-- All of the text that is left in a stream, after the text read so far. -/
partial def readAll (input : IO.FS.Stream) (sofar : String) : IO String := do
  let line ← input.getLine
  if line.isEmpty then return sofar else readAll input (sofar ++ line)

/-- No request arrives anywhere. -/
def unreachable : Gateway Unit where
  send _ _ := return .error "unreachable"
  retries := return 0
  bodyFault _ := "error decoding response body"
  entryFault _ := "not a quote"

/-- What the service finds when it starts from the command line. -/
def surroundings (rules : Except String String) : Service.Surroundings Unit where
  file _ := rules
  store _ := .ok .empty
  cacheServer _ := none
  ties := .asWritten
  services := unreachable.services
  market := ()

/-- Says why there is no reply. -/
def fail (code : UInt32) (reason : String) : IO UInt32 := do
  (← IO.getStderr).putStrLn reason
  return code

/-- Answers one request. -/
def answer (service : Service Unit) (r : Request) : IO UInt32 := do
  match (service.answer .accepting r).1 with
  | .error f => fail 1 f.message
  | .ok (.error f) =>
    (← IO.getStdout).putStrLn f.toJson.render
    return 3
  | .ok (.ok reply) =>
    (← IO.getStdout).putStrLn reply.toJson.render
    return 0

/-- Starts the service and answers the request on standard input. -/
def run : IO UInt32 := do
  match Settings.read (← environment) with
  | .error e => fail 1 ("Configuration error: " ++ e.message)
  | .ok settings =>
    match Service.start (surroundings (← rulesText settings.rulesPath)) settings with
    | .error f => fail 1 f.message
    | .ok (.error e) => fail 1 (e.heading ++ ": " ++ e.message)
    | .ok (.ok service) =>
      match Request.ofText? (← readAll (← IO.getStdin) "") with
      | none => fail 2 "Invalid batch request"
      | some r => answer service r

end RegionPricing.Main

def main : IO UInt32 := RegionPricing.Main.run
