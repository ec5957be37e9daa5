import Marginalia.Json.Reader
import Marginalia.Record

/-!
# Decoding records from fragments

The fragments of a reply may be cut anywhere, and the reply may carry prose, code
fences or brackets around its objects.  Text is kept until it can be decoded, and
decoding is tried whenever a fragment carries a closing brace.

A decoding first tries the kept text from its start; an object found there is used
up whether or not it is a record.  Failing that, each later opening brace is tried
in turn and the first one that starts a record wins.  What stands before a used
object goes with it.
-/

namespace Marginalia

namespace Record

/-- What one decoding takes from the front of the kept text, and the text after it. -/
inductive Decoded where
  | record (record : Record) (rest : List Char)
  | discarded (rest : List Char)
  deriving DecidableEq

/-- The members of the object that a text starts with, and the characters after it. -/
def firstObject? (fuel : Nat) (cs : List Char) :
    Option (List (String × Json) × List Char) :=
  match Json.value true fuel Json.maxDepth cs with
  | .ok (.object members, rest) => some (members, rest)
  | _ => none

/-- The record that starts at the first opening brace where one starts. -/
def resync? (fuel : Nat) : List Char → Option (Record × List Char)
  | [] => none
  | c :: cs =>
      if c = '\x7b' then
        match firstObject? fuel (c :: cs) with
        | some (members, rest) =>
            match ofMembers? members with
            | some record => some (record, rest)
            | none => resync? fuel cs
        | none => resync? fuel cs
      else resync? fuel cs

/-- One decoding of the kept text. -/
def decodeNext? (pending : List Char) : Option Decoded :=
  let fuel := Json.fuelFor pending
  match firstObject? fuel pending with
  | some (members, rest) =>
      match ofMembers? members with
      | some record => some (.record record rest)
      | none => some (.discarded rest)
  | none => (resync? fuel pending.tail).map fun (record, rest) => .record record rest

/--
Decodes while the kept text has a closing brace and a decoding succeeds.  Each
object used up takes a closing brace with it, so their number bounds the decodings.
-/
def drain : Nat → List Char → List Record × List Char
  | 0, pending => ([], pending)
  | fuel + 1, pending =>
      if pending.contains '\x7d' then
        match decodeNext? pending with
        | none => ([], pending)
        | some (.record record rest) =>
            let (records, pending) := drain fuel rest
            (record :: records, pending)
        | some (.discarded rest) => drain fuel rest
      else ([], pending)

/-- The text kept between fragments. -/
structure Decoder where
  pending : List Char := []
  deriving DecidableEq, Inhabited

namespace Decoder

/-- The most bytes of undecoded text that are kept. -/
def maxPendingBytes : Nat := 256 * 1024

def byteCount (cs : List Char) : Nat :=
  cs.foldl (fun n c => n + c.utf8Size) 0

/-- Keeps a text unless it has grown too long; then all of it is dropped. -/
def cap (pending : List Char) : List Char :=
  if byteCount pending > maxPendingBytes then [] else pending

/-- Takes in a fragment: the records it completes, and the decoder after it. -/
def push (d : Decoder) (fragment : String) : List Record × Decoder :=
  let fragment := fragment.toList
  let pending := d.pending ++ fragment
  let (records, rest) :=
    if fragment.contains '\x7d' then drain (pending.count '\x7d') pending else ([], pending)
  (records, ⟨cap rest⟩)

/-- At the end of a reply what is left can never be completed. -/
def finish (_ : Decoder) : Decoder := {}

def text (d : Decoder) : String :=
  String.ofList d.pending

end Decoder

end Record

end Marginalia
