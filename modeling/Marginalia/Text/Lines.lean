/-!
# Lines of a text

A line feed ends a line, and a carriage return right before it belongs to the
ending.  The last line needs no ending, so a text that ends in a line feed has
no empty line after it.
-/

namespace Marginalia

namespace Text

/-- A character in front of the first of the lines that follow it. -/
def addToFirstLine (c : Char) : List (List Char) → List (List Char)
  | [] => [[c]]
  | line :: lines => (c :: line) :: lines

/-- The lines of a text together with whatever stands before each line feed. -/
def rawLines (cs : List Char) : List (List Char) :=
  cs.foldr (fun c lines => if c = '\n' then [] :: lines else addToFirstLine c lines) []

def dropReturn (line : List Char) : List Char :=
  if line.getLast? = some '\r' then line.dropLast else line

/--
The lines of a text without their endings.  A carriage return counts as part of
an ending only in front of a line feed, so the last line keeps one that ends the
text.
-/
def lineChars (cs : List Char) : List (List Char) :=
  let lines := rawLines cs
  if cs.getLast? = some '\n' then lines.map dropReturn
  else lines.dropLast.map dropReturn ++ lines.getLast?.toList

def lines (s : String) : List String :=
  (lineChars s.toList).map String.ofList

/-- One numbered row: the number, a colon, the line and a blank before the line feed. -/
def numberedRow (n : Nat) (line : String) : String :=
  toString n ++ ": " ++ line ++ " \n"

/-- The given lines as numbered rows, the first one with the number `first`. -/
def numberLines (lines : List String) (first : Nat) : String :=
  String.join ((lines.zipIdx first).map fun (line, n) => numberedRow n line)

end Text

end Marginalia
