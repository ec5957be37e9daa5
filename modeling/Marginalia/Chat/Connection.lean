import Marginalia.Chat.Wire
import Std.Async

/-!
# Connections

The way a request takes to a service on this machine and its response takes back.  A service
on another machine is out of reach from here.
-/

namespace Marginalia

namespace Chat

namespace Connection

open Std.Async

/-- The address of a service on this machine that is spoken to in the clear. -/
def address? (url : Url) : Option Std.Net.SocketAddress :=
  let port := UInt16.ofNat ((url.authority.bind (·.port)).getD 80)
  if url.scheme != "http".toList then none
  else
    match url.host? with
    | some "127.0.0.1" => some (.v4 ⟨.ofParts 127 0 0 1, port⟩)
    | some "localhost" => some (.v4 ⟨.ofParts 127 0 0 1, port⟩)
    | some "[::1]" => some (.v6 ⟨.ofParts 0 0 0 0 0 0 0 1, port⟩)
    | _ => none

inductive Arrival where
  | piece (bytes : ByteArray)
  | ending (ending : EventStream.Ending)
  deriving Inhabited

/-- The most bytes that are taken at once. -/
def pieceBytes : UInt64 := 65536

/-- Waits for bytes, the end of the connection, silence, or the person at the terminal. -/
def arrival (client : TCP.Socket.Client) (idleSeconds : Nat) : Async Arrival := do
  let clock ← Selector.sleep (.ofNat (idleSeconds * 1000))
  let interrupt ← Signal.Waiter.mk .sigint false
  Selectable.one
    #[.case (client.recvSelector pieceBytes) fun piece =>
        return match piece with
          | some bytes => .piece bytes
          | none => .ending .closed,
      .case clock fun _ => return .ending .silent,
      .case interrupt.selector fun _ => return .ending .interrupted]

/-- Takes what arrives until it ends. -/
partial def receive (client : TCP.Socket.Client) (idleSeconds : Nat) (taken : ByteArray) :
    Async (ByteArray × EventStream.Ending) := do
  match ← (try arrival client idleSeconds catch _ => return .ending .broken) with
  | .piece bytes => receive client idleSeconds (taken ++ bytes)
  | .ending ending => return (taken, ending)

/-- Posts a request and waits for the response; none when the service is out of reach. -/
def exchange (p : Post) : IO (Option Response) :=
  match address? p.url with
  | none => return none
  | some address => do
      try
        let client ← TCP.Socket.Client.mk
        (client.connect address).block
        (client.send (Wire.request p)).block
        let (bytes, ending) ← (receive client p.idleSeconds ByteArray.empty).block
        return Wire.response? bytes.toList ending
      catch _ => return none

end Connection

end Chat

end Marginalia
