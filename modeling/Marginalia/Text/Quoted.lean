import Marginalia.Text.Ascii
import Marginalia.Text.Invisible

/-!
# Quoted texts

A text between quotes for a person to read.  The quote and the backslash get a
backslash, five control characters a letter or a zero after it, and every other
character that cannot be seen its code point in hexadecimal digits and braces.
-/

namespace Marginalia

namespace Text

/-- The hexadecimal digits of a number, most significant first and without leading zeros. -/
def hexDigits (n : Nat) : List Char :=
  Nat.toDigits 16 n

def isInvisible (c : Char) : Bool :=
  let n := c.toNat
  n < 0x20 || n == 0x7F || (n ≥ 0x80 && Invisible.has n)

def quoteChar (c : Char) : List Char :=
  if c = '"' then ['\\', '"']
  else if c = '\\' then ['\\', '\\']
  else if c = '\n' then ['\\', 'n']
  else if c = '\r' then ['\\', 'r']
  else if c = '\t' then ['\\', 't']
  else if c = '\x00' then ['\\', '0']
  else if isInvisible c then '\\' :: 'u' :: '\x7b' :: (hexDigits c.toNat ++ ['\x7d'])
  else [c]

def quote (s : String) : String :=
  String.ofList ('"' :: (s.toList.flatMap quoteChar ++ ['"']))

/-- Quoted texts in square brackets, with commas between them. -/
def quoteList (texts : List String) : String :=
  "[" ++ String.intercalate ", " (texts.map quote) ++ "]"

end Text

end Marginalia
