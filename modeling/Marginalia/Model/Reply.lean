import Marginalia.Message
import Marginalia.Model.Failure

/-!
# Requests and replies

A reply is a stream of text fragments.  It is described by what a reader meets when
polling it: fragments and failures, moments at which the request is cancelled from
outside, and times of waiting.
-/

namespace Marginalia

namespace Model

inductive Event where
  | fragment (text : String)
  | failure (failure : Failure)
  /-- The request is cancelled while the stream is polled; the same poll then goes on. -/
  | cancellation
  /-- Nothing has arrived yet; the next poll goes on. -/
  | pause
  /-- Nothing arrives until the request is cancelled, which is then reported as a failure. -/
  | stall
  deriving DecidableEq, Repr

inductive Reply where
  | refused (failure : Failure)
  | stream (events : List Event)
  deriving DecidableEq, Repr

/--
The items of a stream for a reader who reads on after failures and does not look at
cancellation.  A stall is passed only when the request is cancelled.
-/
def items (isCancelled : Bool) : List Event → List (Except Failure String)
  | [] => []
  | .fragment text :: events => .ok text :: items isCancelled events
  | .failure failure :: events => .error failure :: items isCancelled events
  | .cancellation :: events => items true events
  | .pause :: events => items isCancelled events
  | .stall :: events => if isCancelled then .error .cancelled :: items true events else []

/-- A mark that is shared by all requests that are cancelled together. -/
abbrev Token := Nat

structure Request where
  model : Nat
  messages : List Message
  token : Token
  deriving DecidableEq

/-- The replies still to come, the requests made, and the tokens that are cancelled. -/
structure Exchange where
  replies : List Reply := []
  /-- The reply to every request past those. -/
  further : Reply := .stream []
  requests : List Request := []
  cancelled : List Token := []
  /-- The token to be given out next. -/
  fresh : Token := 0
  deriving DecidableEq, Inhabited

namespace Exchange

def issue (x : Exchange) : Token × Exchange :=
  (x.fresh, { x with fresh := x.fresh + 1 })

def cancel (x : Exchange) (token : Token) : Exchange :=
  { x with cancelled := token :: x.cancelled }

def cancelIf (x : Exchange) (token : Token) (condition : Bool) : Exchange :=
  if condition then x.cancel token else x

def isCancelled (x : Exchange) (token : Token) : Bool :=
  x.cancelled.contains token

def send (x : Exchange) (request : Request) : Reply × Exchange :=
  let x := { x with requests := x.requests ++ [request] }
  match x.replies with
  | [] => (x.further, x)
  | reply :: replies => (reply, { x with replies })

end Exchange

end Model

end Marginalia
