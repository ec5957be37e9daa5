import Marginalia.Json.Basic
import Marginalia.Text.Ascii

/-!
# Writing JSON

The compact form: no blanks between tokens.  A string escapes the quote, the
backslash and the control characters below the blank, five of them by a letter
and the others by four hexadecimal digits; every other character stands as it is.
-/

namespace Marginalia

namespace Json

def escapeChar (c : Char) : List Char :=
  if c = '"' then ['\\', '"']
  else if c = '\\' then ['\\', '\\']
  else if c = '\x08' then ['\\', 'b']
  else if c = '\x0c' then ['\\', 'f']
  else if c = '\n' then ['\\', 'n']
  else if c = '\r' then ['\\', 'r']
  else if c = '\t' then ['\\', 't']
  else if c.toNat < 0x20 then
    ['\\', 'u', '0', '0', Text.hexDigit (c.toNat / 16), Text.hexDigit (c.toNat % 16)]
  else [c]

def quotedChars (cs : List Char) : List Char :=
  '"' :: (cs.flatMap escapeChar ++ ['"'])

def quoted (s : String) : String :=
  String.ofList (quotedChars s.toList)

def Number.render : Number → String
  | natural n => toString n
  | negative n => "-" ++ toString n
  | float literal => literal

def compact : Json → String
  | null => "null"
  | bool true => "true"
  | bool false => "false"
  | number n => n.render
  | string s => quoted s
  | array items => "[" ++ String.intercalate "," (compactItems items) ++ "]"
  | object members => "\x7b" ++ String.intercalate "," (compactMembers members) ++ "\x7d"
where
  compactItems : List Json → List String
    | [] => []
    | item :: items => compact item :: compactItems items
  compactMembers : List (String × Json) → List String
    | [] => []
    | (key, value) :: members => (quoted key ++ ":" ++ compact value) :: compactMembers members

end Json

end Marginalia
