import Marginalia.Chat.Payload
import Marginalia.Json.Reader
import Marginalia.Model.Failure
import Marginalia.Text.Lines
import Marginalia.Text.Utf8

/-!
# Reading an event stream

The body of a streamed reply is a sequence of events, each ended by a blank line.  The
lines of an event that start with `data:` hold a payload.  The stream is complete when
the mark of its end comes, or a payload without text after a reason to finish was given,
or the body ends after such a reason.  Everything else ends in a failure.
-/

namespace Marginalia

namespace Chat

namespace EventStream

/-- The most bytes that are kept waiting for the end of an event. -/
def maxBufferBytes : Nat := 4 * 1024 * 1024

/-- How many payloads in a row may be no JSON before the stream fails. -/
def maxParseErrors : Nat := 3

/-- The bytes up to the first blank line, which follow `acc` in reverse, and the bytes after it. -/
def splitEventFrom (acc : List UInt8) : List UInt8 → Option (List UInt8 × List UInt8)
  | [] => none
  | 10 :: 10 :: rest => some (acc.reverse, rest)
  | 13 :: 10 :: 13 :: 10 :: rest => some (acc.reverse, rest)
  | b :: rest => splitEventFrom (b :: acc) rest

def splitEvent? (bytes : List UInt8) : Option (List UInt8 × List UInt8) :=
  splitEventFrom [] bytes

def dataOfLine? (line : List Char) : Option (List Char) :=
  match Text.dropReturn line with
  | 'd' :: 'a' :: 't' :: 'a' :: ':' :: ' ' :: rest => some rest
  | 'd' :: 'a' :: 't' :: 'a' :: ':' :: rest => some rest
  | _ => none

def joinLines : List (List Char) → List Char
  | [] => []
  | [line] => line
  | line :: lines => line ++ '\n' :: joinLines lines

def data? (event : List Char) : Option (List Char) :=
  match (Text.lineChars event).filterMap dataOfLine? with
  | [] => none
  | lines => some (joinLines lines)

def endMark : List Char := ['[', 'D', 'O', 'N', 'E', ']']

structure Reading where
  buffer : List UInt8 := []
  /-- Payloads in a row that were no JSON. -/
  parseErrors : Nat := 0
  /-- Whether a reason to finish was given. -/
  isFinished : Bool := false
  deriving DecidableEq, Inhabited

inductive Step where
  | goOn (fragments : List String) (reading : Reading)
  | stop (failure : Option Model.Failure)

def failed (detail : String) : Step :=
  .stop (some (.stream detail))

def takePayload (r : Reading) (json : Json) : Step :=
  match Payload.ofJson? json with
  | none => .goOn [] r
  | some payload =>
      match payload.error with
      | some message => failed message
      | none =>
          let r := { r with isFinished := r.isFinished || payload.finishes }
          match payload.fragments with
          | [] => if r.isFinished then .stop none else .goOn [] r
          | fragments => .goOn fragments r

def takeData (r : Reading) (data : List Char) : Step :=
  if data = endMark then .stop none
  else
    match Json.parseChars data with
    | .ok json => takePayload { r with parseErrors := 0 } json
    | .error fault =>
        let r := { r with parseErrors := r.parseErrors + 1 }
        if r.parseErrors ≥ maxParseErrors then
          failed ("Invalid stream payload: " ++ fault.message data)
        else .goOn [] r

def takeEvent (r : Reading) (event : List UInt8) : Step :=
  if event.isEmpty then .goOn [] r
  else
    match Text.Utf8.decode? event with
    | none => failed "Received invalid UTF-8 from SSE stream"
    | some chars =>
        match data? chars with
        | none => .goOn [] r
        | some data => takeData r data

/-- What reading some of a body leads to: its fragments, and how it stands then. -/
inductive Progress where
  | reading (fragments : List String) (reading : Reading)
  | stopped (fragments : List String) (failure : Option Model.Failure)

/-- Fragments put before those of what was read after them. -/
def Progress.after (fragments : List String) : Progress → Progress
  | reading more r => reading (fragments ++ more) r
  | stopped more failure => stopped (fragments ++ more) failure

/--
Takes in the events that the buffer holds.  Each takes bytes from it, so their number is
bounded by the first argument, the length of the buffer.
-/
def takeEvents : Nat → Reading → Progress
  | 0, r => .reading [] r
  | fuel + 1, r =>
      match splitEvent? r.buffer with
      | none => .reading [] r
      | some (event, rest) =>
          match takeEvent { r with buffer := rest } event with
          | .stop failure => .stopped [] failure
          | .goOn fragments r => (takeEvents fuel r).after fragments

def takeChunk (r : Reading) (chunk : List UInt8) : Progress :=
  let buffer := r.buffer ++ chunk
  if buffer.length > maxBufferBytes then
    .stopped [] (some (.stream "SSE buffer exceeded maximum size (4 MiB)"))
  else takeEvents buffer.length { r with buffer }

def takeChunks (r : Reading) : List (List UInt8) → Progress
  | [] => .reading [] r
  | chunk :: chunks =>
      match takeChunk r chunk with
      | .stopped fragments failure => .stopped fragments failure
      | .reading fragments r => (takeChunks r chunks).after fragments

inductive Ending where
  | closed
  /-- The connection is lost before the body is complete. -/
  | broken
  /-- The connection stays open and nothing more arrives. -/
  | silent
  /-- As `silent`, until the person at the terminal breaks off. -/
  | interrupted
  deriving DecidableEq, Repr

/-- What a reader of a body hears: fragments, and at most one failure, which comes last. -/
structure Transcript where
  fragments : List String
  failure : Option Model.Failure
  /-- Whether a reader would wait for more without end. -/
  isWaiting : Bool := false
  deriving DecidableEq

/-- The failure of a stream that ends in a way of its own, once the body has been read. -/
def Reading.end (r : Reading) (ending : Ending) : Option Model.Failure :=
  match ending with
  | .closed =>
      if r.isFinished then none else some (.stream "Connection closed before stream completed")
  | .broken => some (.transport .brokenBody)
  | .silent => some (.stream "Stream idle timeout")
  | .interrupted => none

def read (chunks : List (List UInt8)) (ending : Ending) : Transcript :=
  match takeChunks {} chunks with
  | .stopped fragments failure => { fragments, failure }
  | .reading fragments r =>
      { fragments, failure := r.end ending, isWaiting := ending = .interrupted }

/-- What a reader hears who cancels after the given number of fragments. -/
def Transcript.cancelledAfter (t : Transcript) (ending : Ending) (count : Nat) : Transcript :=
  if ending = .silent ∧ count ≤ t.fragments.length ∧
      t.failure = some (.stream "Stream idle timeout") then
    { t with failure := none }
  else t

def Transcript.items (t : Transcript) : List (Except Model.Failure String) :=
  t.fragments.map .ok ++ t.failure.toList.map .error

end EventStream

end Chat

end Marginalia
