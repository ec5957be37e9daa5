import Marginalia.Text.Ascii

/-!
# Addresses in strict form

Requests are made with addresses whose characters and length are held to narrower bounds: each
part has a set of characters, and an authority has at most one port behind its host.
-/

namespace Marginalia

namespace Url

namespace Strict

def maxBytes : Nat := 65534

def maxScheme : Nat := 64

/-- Whether a character begins what stands behind an authority. -/
def endsAuthority (c : Char) : Bool :=
  c == '/' || c == '?' || c == '#'

/-- Characters that an authority may have anywhere. -/
def isAuthorityChar (c : Char) : Bool :=
  c.isAlphanum ||
    ['!', '$', '&', '\'', '(', ')', '*', '+', ',', '-', '.', ';', '=', '_', '~'].contains c

structure Reading where
  /-- Colons since the last at sign or closing bracket. -/
  colons : Nat := 0
  isOpened : Bool := false
  isClosed : Bool := false
  /-- Whether there was a percent sign since the last at sign or closing bracket. -/
  hasPercent : Bool := false
  deriving DecidableEq, Repr

/-- Takes one more character of an authority, if it may stand there. -/
def Reading.take? (r : Reading) (c : Char) : Option Reading :=
  if c = ':' then if r.colons < 8 then some { r with colons := r.colons + 1 } else none
  else if c = '[' then
    if r.hasPercent ∨ r.isOpened then none else some { r with isOpened := true }
  else if c = ']' then
    if r.isOpened ∧ !r.isClosed then
      some { r with isClosed := true, colons := 0, hasPercent := false }
    else none
  else if c = '@' then some { r with colons := 0, hasPercent := false }
  else if c = '%' then some { r with hasPercent := true }
  else if isAuthorityChar c then some r
  else none

def isAuthority (cs : List Char) : Bool :=
  match cs.foldlM Reading.take? {} with
  | none => false
  | some r =>
      r.isOpened == r.isClosed && r.colons ≤ 1 && !r.hasPercent && cs.getLast? != some '@'

def isPathChar (c : Char) : Bool :=
  0x21 ≤ c.toNat && ['#', '<', '>', '?', '\x60'].all (· != c)

def isQueryChar (c : Char) : Bool :=
  0x21 ≤ c.toNat && ['"', '#', '<', '>'].all (· != c)

/-- Whether a text may stand behind an authority: a path, a query and any fragment. -/
def isTail (cs : List Char) : Bool :=
  let cs := cs.takeWhile (· != '#')
  (cs.takeWhile (· != '?')).all isPathChar &&
    ((cs.dropWhile (· != '?')).drop 1).all isQueryChar

def isSchemeChar (c : Char) : Bool :=
  c.isAlphanum || c == '+' || c == '-' || c == '.'

/--
The scheme in front of a colon and two slashes, if a text has them, and what follows.  The
schemes of the web may be written in capital letters.
-/
def splitScheme (cs : List Char) : Option (List Char) × List Char :=
  match cs.dropWhile isSchemeChar with
  | ':' :: '/' :: '/' :: rest =>
      let scheme := cs.takeWhile isSchemeChar
      let small := scheme.map Text.asciiLower
      let isOfWeb := small = ['h', 't', 't', 'p'] ∨ small = ['h', 't', 't', 'p', 's']
      (some (if isOfWeb then small else scheme), rest)
  | _ => (none, cs)

/-- An address in strict form: its scheme, if it has one, and its authority. -/
structure Parts where
  scheme : Option (List Char)
  authority : List Char
  deriving DecidableEq, Repr

/-- The parts of a text that is an address in strict form with an authority. -/
def parts? (text : String) : Option Parts :=
  let (scheme, rest) := splitScheme text.toList
  let authority := rest.takeWhile (!endsAuthority ·)
  let tail := rest.dropWhile (!endsAuthority ·)
  let isFit :=
    text.utf8ByteSize ≤ maxBytes && !authority.isEmpty && isAuthority authority && isTail tail &&
      (match scheme with
        | some scheme => scheme.length ≤ maxScheme
        | none => tail.isEmpty && authority != ['*'])
  if isFit then some ⟨scheme, authority⟩ else none

end Strict

end Url

end Marginalia
