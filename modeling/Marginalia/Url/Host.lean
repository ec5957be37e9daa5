import Marginalia.Text.Utf8
import Marginalia.Url.Name
import Marginalia.Url.Percent

/-!
# Hosts

The host of an address: a number of the old or the new kind, or a name.  Numbers of the
old kind may be written in one to four parts in three number systems.
-/

namespace Marginalia

namespace Url

inductive Fault where
  | emptyHost
  | invalidDomain
  | invalidPort
  | invalidOldNumber
  | invalidNewNumber
  | invalidHostCharacter
  | noBase
  | opaqueBase
  deriving DecidableEq, Repr

def Fault.message : Fault → String
  | emptyHost => "empty host"
  | invalidDomain => "invalid international domain name"
  | invalidPort => "invalid port number"
  | invalidOldNumber => "invalid IPv4 address"
  | invalidNewNumber => "invalid IPv6 address"
  | invalidHostCharacter => "invalid domain character"
  | noBase => "relative URL without a base"
  | opaqueBase => "relative URL with a cannot-be-a-base base"

/-! ## Numbers of the old kind -/

def digitsValue? (base : Nat) (cs : List Char) : Option Nat :=
  cs.foldlM
    (fun n c =>
      match Text.hexValue? c with
      | some d => if d < base then some (n * base + d) else none
      | none => none)
    0

/-- One part of a number: hexadecimal behind `0x`, octal behind a zero, or decimal. -/
def partValue? (cs : List Char) : Option Nat :=
  match cs with
  | [] => none
  | '0' :: 'x' :: rest => digitsValue? 16 rest
  | '0' :: 'X' :: rest => digitsValue? 16 rest
  | '0' :: c :: rest => digitsValue? 8 (c :: rest)
  | cs => digitsValue? 10 cs

/-- The parts of a name, without one empty part at its end. -/
def dottedParts (name : List Char) : List (List Char) :=
  let parts := Text.partsAt '.' name
  if parts.length > 1 ∧ parts.getLast? = some [] then parts.dropLast else parts

/-- Whether the last part of a name is a number, so that all of it has to be one. -/
def endsInNumber (name : List Char) : Bool :=
  match (dottedParts name).getLast? with
  | none => false
  | some last => !last.isEmpty && (last.all Text.isDigit || (partValue? last).isSome)

/-- The number that a name in one to four parts stands for; the last part takes what is left. -/
def oldNumber? (name : List Char) : Option Nat := do
  let parts := dottedParts name
  if parts.length > 4 then none
  else
    let values ← parts.mapM partValue?
    let leading := values.dropLast
    let last ← values.getLast?
    if leading.any (· > 255) ∨ last ≥ Nat.pow 256 (5 - values.length) then none
    else
      some (leading.zipIdx.foldl (fun n (v, i) => n + v * Nat.pow 256 (3 - i)) last)

def renderOldNumber (n : Nat) : List Char :=
  (String.intercalate "."
    [toString (n / 16777216 % 256), toString (n / 65536 % 256), toString (n / 256 % 256),
      toString (n % 256)]).toList

/-! ## Numbers of the new kind -/

/-- Up to four hexadecimal digits at the start of a text, and the rest. -/
def takePiece (cs : List Char) : Nat × Nat × List Char :=
  let digits := (cs.take 4).takeWhile Text.isHexDigit
  ((digitsValue? 16 digits).getD 0, digits.length, cs.drop digits.length)

/-- One decimal part of the four that may end a number of the new kind. -/
def decimalPart? (cs : List Char) : Option (Nat × List Char) :=
  let digits := (cs.take 4).takeWhile Text.isDigit
  let value := Text.decimalValue digits
  if digits.isEmpty ∨ value > 255 ∨ (digits.length > 1 ∧ digits.head? = some '0') then none
  else some (value, cs.drop digits.length)

/-- The four decimal parts that may end a number of the new kind, as two pieces. -/
def decimalTail? (cs : List Char) : Option (List Nat) := do
  let (a, cs) ← decimalPart? cs
  let '.' :: cs := cs | none
  let (b, cs) ← decimalPart? cs
  let '.' :: cs := cs | none
  let (c, cs) ← decimalPart? cs
  let '.' :: cs := cs | none
  let (d, cs) ← decimalPart? cs
  if cs.isEmpty then some [a * 256 + b, c * 256 + d] else none

/--
The pieces of a number of the new kind: those read so far, and how many of them stand before
the gap if there was one.
-/
def pieces? : Nat → List Nat → Option Nat → List Char → Option (List Nat × Option Nat)
  | _, pieces, gap, [] => some (pieces, gap)
  | 0, _, _, _ :: _ => none
  | fuel + 1, pieces, gap, c :: cs =>
      if pieces.length ≥ 8 then none
      else if c = ':' then
        if gap.isSome then none else pieces? fuel pieces (some pieces.length) cs
      else
        let (value, count, rest) := takePiece (c :: cs)
        match rest with
        | '.' :: _ =>
            if count = 0 ∨ pieces.length > 6 then none
            else (decimalTail? (c :: cs)).map fun tail => (pieces ++ tail, gap)
        | ':' :: [] => none
        | ':' :: after => pieces? fuel (pieces ++ [value]) gap after
        | [] => some (pieces ++ [value], gap)
        | _ => none

def newNumber? (cs : List Char) : Option (List Nat) := do
  let start : Option (Option Nat × List Char) :=
    match cs with
    | ':' :: ':' :: rest => some (some 0, rest)
    | ':' :: _ => none
    | [] => none
    | cs => some (none, cs)
  let (gap, cs) ← start
  let (pieces, gap) ← pieces? (cs.length + 1) [] gap cs
  match gap with
  | none => if pieces.length = 8 then some pieces else none
  | some place =>
      if pieces.length ≥ 8 then none
      else
        some (pieces.take place ++ List.replicate (8 - pieces.length) 0 ++ pieces.drop place)

/-- The longest run of two or more zeros, by its start and length; the first of equal ones. -/
def longestZeros (pieces : List Nat) : Nat × Nat :=
  let runAt (i : Nat) : Nat := ((pieces.drop i).takeWhile (· == 0)).length
  (List.range pieces.length).foldl
    (fun best i => if runAt i > best.2 ∧ runAt i > 1 then (i, runAt i) else best) (0, 0)

def renderPiece (n : Nat) : String :=
  String.ofList (Nat.toDigits 16 n)

/-- A number of the new kind in brackets, its longest run of zeros left out. -/
def renderNewNumber (pieces : List Nat) : List Char :=
  let joined (ps : List Nat) := String.intercalate ":" (ps.map renderPiece)
  let (start, length) := longestZeros pieces
  let body :=
    if length = 0 then joined pieces
    else joined (pieces.take start) ++ "::" ++ joined (pieces.drop (start + length))
  '[' :: (body.toList ++ [']'])

/-- A number of the new kind between brackets, brought to its usual form. -/
def bracketed (cs : List Char) : Except Fault (List Char) :=
  if cs.getLast? = some ']' then
    match newNumber? (cs.drop 1).dropLast with
    | some pieces => .ok (renderNewNumber pieces)
    | none => .error .invalidNewNumber
  else .error .invalidNewNumber

/-! ## Names -/

def specialHost (cs : List Char) : Except Fault (List Char) :=
  match cs with
  | '[' :: _ => bracketed cs
  | _ =>
      match (Text.Utf8.decode? (percentDecode cs)).bind Name.ascii? with
      | none => .error .invalidDomain
      | some [] => .error .emptyHost
      | some name =>
          if endsInNumber name then
            match oldNumber? name with
            | some n => .ok (renderOldNumber n)
            | none => .error .invalidOldNumber
          else .ok name

/-- Characters that may not stand in the host of an address of any other scheme. -/
def isForbiddenInHost (c : Char) : Bool :=
  ['\x00', '\t', '\n', '\r', ' ', '#', '/', ':', '<', '>', '?', '@', '[', '\\', ']', '^',
    '|'].contains c

def plainHost (cs : List Char) : Except Fault (List Char) :=
  match cs with
  | '[' :: _ => bracketed cs
  | _ =>
      if cs.any isForbiddenInHost then .error .invalidHostCharacter
      else .ok (percentEncode isControl cs)

end Url

end Marginalia
