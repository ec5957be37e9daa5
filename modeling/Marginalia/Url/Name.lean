import Marginalia.Text.Direction
import Marginalia.Text.Joiner
import Marginalia.Url.NameTable
import Marginalia.Url.Punycode

/-!
# Names of hosts

A name is a row of labels with dots between them.  It is brought to one form: each character
becomes what it stands for, and what is left is composed.  Labels beyond ASCII are then
written in Punycode; one that already is has to be what would be written for its meaning.
-/

namespace Marginalia

namespace Url

/-- Characters of ASCII that may not stand in a name. -/
def isForbiddenInName (c : Char) : Bool :=
  c.toNat ≤ 0x20 || c.toNat == 0x7F ||
    ['%', '#', '/', ':', '<', '>', '?', '@', '[', '\\', ']', '^', '|'].contains c

namespace Name

/-- How many characters a label may have that is to be written in Punycode. -/
def writeLimit : Nat := 1000

/-- How many characters of Punycode a label may have. -/
def readLimit : Nat := 2000

def isAscii (c : Char) : Bool :=
  c.toNat < 128

/-- A name in its one form, if all its characters may be in names. -/
def settled? (cs : List Char) : Option (List Char) :=
  (cs.mapM fun c => NameTable.image? c.toNat).map fun images =>
    Text.Composition.composed (images.flatten.map Char.ofNat)

/-- What follows the mark of Punycode at the start of a label. -/
def behindMark? : List Char → Option (List Char)
  | 'x' :: 'n' :: '-' :: '-' :: rest => some rest
  | _ => none

/-- The label that a text behind the mark of Punycode means: one beyond ASCII in its one form. -/
def meaning? (text : List Char) : Option (List Char) :=
  if text.length > readLimit ∨ !text.all isAscii then none
  else do
    let label ← Punycode.decode? text
    if label.all isAscii ∨ settled? label ≠ some label then none else some label

/-- Whether a label reads as one: it begins with no mark, and its joiners mean something. -/
def isSound (label : List Char) : Bool :=
  !label.head?.any Text.Mark.has && Text.Joiner.allMean [] label

/-- A label, and what it is written as. -/
structure Label where
  meaning : List Char
  written : List Char
  deriving DecidableEq, Repr

/-- A label of a settled name. -/
def Label.of? (label : List Char) : Option Label :=
  match behindMark? label with
  | some text => (meaning? text).map fun meaning => ⟨meaning, label⟩
  | none =>
      if label.all isAscii then some ⟨label, label⟩
      else if label.length > writeLimit then none
      else some ⟨label, 'x' :: 'n' :: '-' :: '-' :: Punycode.encode label⟩

/-- Whether labels can stand in one name: with letters from right to left each reads one way. -/
def agree (labels : List Label) : Bool :=
  !(labels.any fun l => l.meaning.any (Text.Direction.turns <| Text.Direction.of ·)) ||
    labels.all fun l => Text.Direction.readsOneWay l.meaning

def ascii? (cs : List Char) : Option (List Char) := do
  let settled ← settled? cs
  if settled.any isForbiddenInName then none
  else
    let labels ← (Text.partsAt '.' settled).mapM Label.of?
    if labels.all (isSound ·.meaning) && agree labels then
      some (Text.joinWith '.' (labels.map Label.written))
    else none

end Name

end Url

end Marginalia
