import Marginalia.Record
import Marginalia.Text.Lines

/-!
# Documents

A document as it stands when a review starts.  Lines are counted from one; the
ending of the last line opens no further one.  Part of the document may be marked
as visible.
-/

namespace Marginalia

structure Document where
  id : String
  lines : List String
  /-- The first and the last visible line. -/
  visible : Option (Nat × Nat) := none
  deriving DecidableEq, Repr

namespace Document

def ofText (id text : String) : Document :=
  { id, lines := Text.lines text }

/-- The number of lines, as far as lines can be counted. -/
def lineCount (d : Document) : Nat :=
  min d.lines.length maxLine

def fullRange (d : Document) : Nat × Nat :=
  (1, d.lineCount)

/--
The document with the lines from `first` to `last` visible, as far as it has them;
when it has none of them, no part is marked.
-/
def withVisible (d : Document) (first last : Nat) : Document :=
  let first := max first 1
  let last := min last d.lineCount
  { d with visible := if first ≤ last then some (first, last) else none }

def hasLine (d : Document) (n : Nat) : Bool :=
  1 ≤ n && n ≤ d.lineCount

def line? (d : Document) (n : Nat) : Option String :=
  if n = 0 then none else d.lines[n - 1]?

def linesIn (d : Document) (range : Nat × Nat) : List (Nat × String) :=
  ((d.lines.zipIdx 1).filter fun (_, n) => range.1 ≤ n && n ≤ range.2).map fun (text, n) =>
    (n, text)

end Document

end Marginalia
