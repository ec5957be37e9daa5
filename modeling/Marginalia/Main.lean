import Marginalia.Chat.Connection
import Marginalia.CommandLine.Snapshot

/-!
# The program

A run is worked out from what is there and from the responses to its requests.  When it posts
a request that has had no response yet, the request is posted in fact and the run is worked
out anew with the response; what it printed before that request stays the same.
-/

namespace Marginalia

namespace CommandLine

/-- Works a run out until every request that it posts has had its response. -/
partial def perform (w : Surroundings) (words : List String) : IO Outcome := do
  let outcome := run w words
  match outcome.posts[w.responses.length]? with
  | none => return outcome
  | some post =>
      match ← Chat.Connection.exchange post with
      | none => return outcome
      | some response => perform { w with responses := w.responses ++ [response] } words

def writeLog (outcome : Outcome) : IO Unit := do
  match outcome.log with
  | none => return
  | some place =>
      IO.FS.createDirAll (Disk.pathTo place.dropLast)
      let log ← IO.FS.Handle.mk (Disk.pathTo place) .append
      log.putStrLn ("requests: " ++ toString outcome.posts.length)

end CommandLine

end Marginalia

open Marginalia.CommandLine in
def main (words : List String) : IO UInt32 := do
  let environment ← Snapshot.environment
  let disk ← Snapshot.disk environment words
  let outcome ← perform { disk, environment } words
  try writeLog outcome catch _ => pure ()
  (← IO.getStdout).putStr outcome.out
  (← IO.getStderr).putStr outcome.err
  return outcome.code.toUInt32
