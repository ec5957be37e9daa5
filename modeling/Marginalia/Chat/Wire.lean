import Marginalia.Chat.Response
import Marginalia.Text.Ascii

/-!
# Requests and responses on the wire

A request and a response have a head of lines, a blank line and a body.  The body of a
response comes in chunks that tell their lengths, or its length is told in the head, or it
goes on until the connection is closed.
-/

namespace Marginalia

namespace Chat

namespace Wire

/-! ## Requests -/

def lineEnd : String := "\r\n"

def requestLines (p : Post) (body : ByteArray) : List String :=
  let host := (p.url.host?.getD "") ++
    match p.url.authority.bind (·.port) with
    | some port => ":" ++ toString port
    | none => ""
  [ "POST " ++ p.path ++ " HTTP/1.1", "host: " ++ host, "accept: */*",
    "content-type: application/json", "content-length: " ++ toString body.size,
    "connection: close" ] ++
    (p.authorization.map ("authorization: " ++ ·)).toList

def request (p : Post) : ByteArray :=
  let body := p.body.compact.toUTF8
  let head := String.join ((requestLines p body).map (· ++ lineEnd)) ++ lineEnd
  head.toUTF8 ++ body

/-! ## Responses -/

/-- The bytes up to the first end of a line, which follow `acc` in reverse, and those after it. -/
def splitLine (acc : List UInt8) : List UInt8 → Option (List UInt8 × List UInt8)
  | [] => none
  | 13 :: 10 :: rest => some (acc.reverse, rest)
  | b :: rest => splitLine (b :: acc) rest

/-- The lines of a head as texts, and the bytes behind the blank line; none when it breaks off. -/
def splitHead : Nat → List UInt8 → Option (List (List Char) × List UInt8)
  | 0, _ => none
  | fuel + 1, bytes =>
      match splitLine [] bytes with
      | none => none
      | some ([], rest) => some ([], rest)
      | some (line, rest) =>
          (splitHead fuel rest).map fun (lines, body) => (Text.Utf8.lossy line :: lines, body)

def status? (line : List Char) : Option Nat :=
  let digits := ((line.dropWhile (· != ' ')).drop 1).takeWhile Text.isDigit
  if digits.length = 3 then some (Text.decimalValue digits) else none

/-- The value of a field of a head, without blanks around it. -/
def field? (lines : List (List Char)) (name : String) : Option String :=
  lines.findSome? fun line =>
    let key := String.ofList (line.takeWhile (· != ':'))
    if Text.sameIgnoringCase key name then
      some (Text.trim (String.ofList ((line.dropWhile (· != ':')).drop 1)))
    else none

/-- The number that hexadecimal digits at the start of a line spell. -/
def hexNumber? (line : List Char) : Option Nat :=
  let digits := line.takeWhile Text.isHexDigit
  if digits.isEmpty then none
  else some (digits.foldl (fun n c => n * 16 + (Text.hexValue? c).getD 0) 0)

/--
The chunks of a body that tells their lengths.  A body that is closed without a last chunk is
broken.  Each chunk takes bytes, so the first argument, their number, bounds that of the chunks.
-/
def readChunks (ending : EventStream.Ending) :
    Nat → List UInt8 → List (List UInt8) × EventStream.Ending
  | 0, _ => ([], ending)
  | fuel + 1, bytes =>
      let early := if ending = .closed then .broken else ending
      match splitLine [] bytes with
      | none => ([], early)
      | some (line, rest) =>
          match hexNumber? (Text.Utf8.lossy line) with
          | none => ([], .broken)
          | some 0 => ([], .closed)
          | some n =>
              if rest.length < n then ([rest], early)
              else
                let (chunks, ending) := readChunks ending fuel ((rest.drop n).drop 2)
                (rest.take n :: chunks, ending)

/-- The response that bytes spell, which end as `ending` tells; none when its head is not whole. -/
def response? (bytes : List UInt8) (ending : EventStream.Ending) : Option Response := do
  let (lines, rest) ← splitHead bytes.length bytes
  let status ← status? (lines.headD [])
  let fields := lines.drop 1
  if (field? fields "transfer-encoding").any (Text.sameIgnoringCase · "chunked") then
    let (chunks, ending) := readChunks ending rest.length rest
    return { status, chunks, ending }
  else
    match (field? fields "content-length").bind (·.toNat?) with
    | none => return { status, chunks := [rest], ending }
    | some n =>
        if n ≤ rest.length then return { status, chunks := [rest.take n], ending := .closed }
        else
          let ending := if ending = .closed then EventStream.Ending.broken else ending
          return { status, chunks := [rest], ending }

end Wire

end Chat

end Marginalia
