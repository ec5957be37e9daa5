import Marginalia.Chat.EventStream
import Marginalia.Chat.Service
import Marginalia.Model.Reply

/-!
# Responses of a chat service

A response of success carries an event stream; any other one is a failure that quotes
the beginning of its body.
-/

namespace Marginalia

namespace Chat

/-- A response: its status, and its body in the chunks in which it arrives. -/
structure Response where
  status : Nat := 200
  chunks : List (List UInt8) := []
  ending : EventStream.Ending := .closed
  deriving DecidableEq, Repr

namespace Response

def maxQuotedBytes : Nat := 32 * 1024

/-- A response that says nothing but that it is complete. -/
def done : Response :=
  { chunks := [Text.Utf8.encode "data: [DONE]\n\n"] }

def isSuccess (r : Response) : Bool :=
  200 ≤ r.status && r.status < 300

/-- Whether responses of a status have no body whatever follows their head. -/
def isBodiless (r : Response) : Bool :=
  r.status == 204 || r.status == 304

def body (r : Response) : List (List UInt8) :=
  if r.isBodiless then [] else r.chunks

def bodyEnding (r : Response) : EventStream.Ending :=
  if r.isBodiless then .closed else r.ending

/--
Quotes a body of which the bytes `taken` have been read: all of it, once it ends or breaks off,
or its beginning and a mark, as soon as more has arrived than is quoted.  None if it falls
silent before.
-/
def quoteFrom (ending : EventStream.Ending) (taken : List UInt8) :
    List (List UInt8) → Option String
  | [] =>
      match ending with
      | .closed | .broken => some (String.ofList (Text.Utf8.lossy taken))
      | .silent | .interrupted => none
  | chunk :: chunks =>
      let taken := taken ++ chunk
      if taken.length > maxQuotedBytes then
        some (String.ofList (Text.Utf8.lossy (taken.take maxQuotedBytes)) ++ "...(truncated)")
      else quoteFrom ending taken chunks

def quotedBody? (r : Response) : Option String :=
  quoteFrom r.bodyEnding [] r.body

/--
What a reader of the response hears, or how the request failed.  A failure is told when its
body has been read, so a body that falls silent keeps the reader waiting.
-/
def read (r : Response) : Except Model.Failure EventStream.Transcript :=
  if r.isSuccess then .ok (EventStream.read r.body r.bodyEnding)
  else
    match r.quotedBody? with
    | some body => .error (.api r.status body)
    | none => .ok { fragments := [], failure := none, isWaiting := true }

def toReply (r : Response) : Model.Reply :=
  match r.read with
  | .error failure => .refused failure
  | .ok transcript =>
      .stream
        (transcript.fragments.map .fragment ++ transcript.failure.toList.map .failure ++
          if transcript.isWaiting then [.stall] else [])

end Response

/-- What becomes of a request when the service cannot be reached. -/
def Service.unreachable (endpoint : Url) : Model.Failure :=
  .transport (.unreachable endpoint.withoutCredentials.render)

/--
A request by itself: refused, or answered by a response, or the service cannot be
reached.  A request that is cancelled before is not sent.
-/
def Service.send (s : Service) (endpoint : Url) (isCancelled : Bool)
    (response : Option Response) : Except Model.Failure EventStream.Transcript :=
  if isCancelled then .error .cancelled
  else
    match s.refusal? endpoint with
    | some cause => .error (.transport cause)
    | none =>
        match response with
        | none => .error (unreachable endpoint)
        | some response => response.read

end Chat

end Marginalia
