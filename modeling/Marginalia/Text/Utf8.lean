/-!
# UTF-8

Bytes as characters.  A byte either begins a character or has to lie in a range that the
bytes before it leave open; where it does not, the bytes taken so far are one malformed
sequence and the byte begins anew.  The strict decoding refuses malformed sequences, the
lossy one puts a replacement character in the place of each.
-/

namespace Marginalia

namespace Text

namespace Utf8

/-- A character that is begun: its bits so far, how many bytes it still needs, and the range
of the next one. -/
structure Begun where
  bits : Nat
  needed : Nat
  low : Nat := 0x80
  high : Nat := 0xBF
  deriving DecidableEq, Repr

/-- What a byte at the start of a character is: a whole character, the begin of one, or neither. -/
inductive Lead where
  | whole (c : Char)
  | begun (b : Begun)
  | malformed

def lead (byte : UInt8) : Lead :=
  let n := byte.toNat
  if n < 0x80 then .whole (Char.ofNat n)
  else if n < 0xC2 then .malformed
  else if n < 0xE0 then .begun { bits := n - 0xC0, needed := 1 }
  else if n = 0xE0 then .begun { bits := 0, needed := 2, low := 0xA0 }
  else if n = 0xED then .begun { bits := 0xD, needed := 2, high := 0x9F }
  else if n < 0xF0 then .begun { bits := n - 0xE0, needed := 2 }
  else if n = 0xF0 then .begun { bits := 0, needed := 3, low := 0x90 }
  else if n < 0xF4 then .begun { bits := n - 0xF0, needed := 3 }
  else if n = 0xF4 then .begun { bits := 4, needed := 3, high := 0x8F }
  else .malformed

/-- Where a decoding stands: what is begun, and what has been read, the last first.  A malformed
sequence is read as no character. -/
structure Decoding where
  begun : Option Begun := none
  read : List (Option Char) := []
  deriving DecidableEq

def Decoding.start (d : Decoding) (byte : UInt8) : Decoding :=
  match lead byte with
  | .whole c => ⟨none, some c :: d.read⟩
  | .begun b => ⟨some b, d.read⟩
  | .malformed => ⟨none, none :: d.read⟩

def Decoding.take (d : Decoding) (byte : UInt8) : Decoding :=
  match d.begun with
  | none => d.start byte
  | some b =>
      let n := byte.toNat
      if b.low ≤ n ∧ n ≤ b.high then
        let bits := b.bits * 64 + (n - 0x80)
        if b.needed ≤ 1 then ⟨none, some (Char.ofNat bits) :: d.read⟩
        else ⟨some { bits, needed := b.needed - 1 }, d.read⟩
      else Decoding.start ⟨none, none :: d.read⟩ byte

/-- Ends a decoding: a character that is begun is malformed. -/
def Decoding.finish (d : Decoding) : List (Option Char) :=
  match d.begun with
  | none => d.read.reverse
  | some _ => (none :: d.read).reverse

/-- The characters of a sequence of bytes, and nothing in the place of each malformed one. -/
def scan (bytes : List UInt8) : List (Option Char) :=
  (bytes.foldl Decoding.take {}).finish

/-- The characters of a sequence of bytes that is well formed throughout. -/
def decode? (bytes : List UInt8) : Option (List Char) :=
  let read := scan bytes
  if read.all Option.isSome then some (read.filterMap id) else none

def replacement : Char := '\uFFFD'

/-- The characters of a sequence of bytes, with replacements. -/
def lossy (bytes : List UInt8) : List Char :=
  (scan bytes).map fun c => c.getD replacement

def encode (s : String) : List UInt8 :=
  s.toUTF8.toList

end Utf8

end Text

end Marginalia
