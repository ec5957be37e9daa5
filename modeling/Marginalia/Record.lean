import Marginalia.Json.Basic
import Marginalia.NonBlank
import Marginalia.Severity

/-!
# Annotation records

One flagged line of a source text as a model reports it: the number of the line,
a severity and a suggestion.  The line is not checked against any document here.
-/

namespace Marginalia

/-- The greatest line number that can be written: that of thirty-two binary digits. -/
def maxLine : Nat := 4294967295

structure Record where
  line : Nat
  suggestion : NonBlank
  severity : RecordSeverity
  deriving DecidableEq

namespace Record

def lineOf? : Json → Option Nat
  | .number (.natural n) => if n ≤ maxLine then some n else none
  | _ => none

/-- The word in the place of a severity; none at all stands for the empty word. -/
def severityWordOf? : Option Json → Option String
  | none => some ""
  | some .null => some ""
  | some (.string word) => some word
  | some _ => none

def suggestionOf? : Json → Option NonBlank
  | .string s => NonBlank.ofString? s
  | _ => none

/-- The record that an object spells, whatever other members it has. -/
def ofMembers? (members : List (String × Json)) : Option Record := do
  let line ← (Json.lookup? members "line").bind lineOf?
  let word ← severityWordOf? (Json.lookup? members "severity")
  let suggestion ← (Json.lookup? members "suggestion").bind suggestionOf?
  return ⟨line, suggestion, .ofWire word⟩

end Record

end Marginalia
