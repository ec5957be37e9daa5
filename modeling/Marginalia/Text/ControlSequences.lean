import Marginalia.Text.Utf8

/-!
# Control sequences

Texts for a terminal may tell it more than what to show: an escape character begins a
sequence, which has an end of its own.  A text is made plain by leaving out such sequences and
all control characters but blanks.
-/

namespace Marginalia

namespace Text

namespace ControlSequences

/-- Where in a sequence a reader is. -/
inductive Place where
  /-- In no sequence. -/
  | outside
  /-- Behind the escape character. -/
  | escape
  /-- Behind the escape character and a sign that says that more follows. -/
  | extended
  /-- In a sequence that a letter ends. -/
  | parameters
  /-- In the head of a sequence that carries a text. -/
  | head
  /-- In a text that is carried. -/
  | carried
  /-- In a command, which a bell ends. -/
  | command
  deriving DecidableEq, Repr

/-- Whether a character may end one that is carried: one of its bytes is the sign for that. -/
def endsCarried (c : Char) : Bool :=
  c.toNat ≥ 0x80 && (Utf8.encode (String.singleton c)).contains 0x9C

/-- The place behind a character that is not shown. -/
def Place.next (p : Place) (c : Char) : Place :=
  let isFinal (low : Nat) : Bool := low ≤ c.toNat && c.toNat ≤ 0x7E
  if c = '\x1b' then .escape
  else if c = '\x18' ∨ c = '\x1a' then .outside
  else
    match p with
    | .outside => .outside
    | .escape =>
        if c = '[' then .parameters
        else if c = ']' then .command
        else if c = 'P' then .head
        else if c = 'X' ∨ c = '^' ∨ c = '_' then .carried
        else if isFinal 0x30 then .outside
        else if isFinal 0x20 then .extended
        else .escape
    | .extended => if isFinal 0x30 then .outside else .extended
    | .parameters => if isFinal 0x40 then .outside else .parameters
    | .head => if isFinal 0x40 ∨ c = ':' then .carried else .head
    | .carried => if endsCarried c then .outside else .carried
    | .command => if c = '\x07' then .outside else .command

/-- Whether a character is a blank of ASCII that ends or divides lines. -/
def isLineBlank (c : Char) : Bool :=
  c == '\t' || c == '\n' || c == '\x0c' || c == '\r'

def isShown (c : Char) : Bool :=
  (0x20 ≤ c.toNat && c.toNat != 0x7F) || isLineBlank c

/-- Whether a character is shown at a place; a blank breaks off some sequences. -/
def Place.shows (p : Place) (c : Char) : Bool :=
  match p with
  | .outside => isShown c
  | .escape => isLineBlank c
  | .extended => isLineBlank c
  | .parameters => isLineBlank c
  | _ => false

/-- What has been read of a text; what is shown is kept turned round. -/
structure Reading where
  shown : List Char := []
  /-- Whether the last character was shown. -/
  isShowing : Bool := true
  /-- The place from which a text goes on when something in it is not shown. -/
  place : Place := .outside
  deriving DecidableEq, Repr

def Reading.take (r : Reading) (c : Char) : Reading :=
  if (if r.isShowing then isShown c else r.place.shows c) then
    { shown := c :: r.shown
      isShowing := true
      place := if c.toNat ≥ 0x80 then .outside else r.place }
  else { r with isShowing := false, place := r.place.next c }

def remove (text : String) : String :=
  String.ofList (text.toList.foldl Reading.take {}).shown.reverse

end ControlSequences

end Text

end Marginalia
