import Marginalia.Text.Ascii
import Marginalia.Text.Utf8

/-!
# Percent encoding

Each part of an address has a set of characters that are written as percent signs and two
hexadecimal digits for each of their bytes; characters beyond ASCII and control
characters always are.
-/

namespace Marginalia

namespace Url

/-- Control characters and everything beyond ASCII. -/
def isControl (c : Char) : Bool :=
  c.toNat < 0x20 || c.toNat ≥ 0x7F

/-- What a fragment encodes. -/
def inFragmentSet (c : Char) : Bool :=
  isControl c || [' ', '"', '<', '>', '\x60'].contains c

/-- What a path encodes. -/
def inPathSet (c : Char) : Bool :=
  inFragmentSet c || ['#', '?', '\x7b', '\x7d'].contains c

/-- What names and passwords encode. -/
def inUserSet (c : Char) : Bool :=
  inPathSet c || ['/', ':', ';', '=', '@', '[', '\\', ']', '^', '|'].contains c

/-- What a query encodes; the quote is encoded in addresses of the usual schemes only. -/
def inQuerySet (isSpecial : Bool) (c : Char) : Bool :=
  isControl c || [' ', '"', '#', '<', '>'].contains c || (isSpecial && c == '\x27')

/-- The hexadecimal digit for a value below sixteen, in capital letters. -/
def capitalHex (n : Nat) : Char :=
  if n < 10 then Char.ofNat (48 + n) else Char.ofNat (55 + n)

/-- A byte as a percent sign and two digits. -/
def percentByte (b : UInt8) : List Char :=
  ['%', capitalHex (b.toNat / 16), capitalHex (b.toNat % 16)]

def percentEncode (inSet : Char → Bool) (cs : List Char) : List Char :=
  cs.flatMap fun c =>
    if inSet c then (Text.Utf8.encode (String.singleton c)).flatMap percentByte else [c]

/-- The bytes of a text in which percent signs with two hexadecimal digits stand for bytes. -/
def percentDecode : List Char → List UInt8
  | '%' :: a :: b :: rest =>
      match Text.hexValue? a, Text.hexValue? b with
      | some x, some y => UInt8.ofNat (x * 16 + y) :: percentDecode rest
      | _, _ => 37 :: percentDecode (a :: b :: rest)
  | c :: rest => Text.Utf8.encode (String.singleton c) ++ percentDecode rest
  | [] => []

end Url

end Marginalia
