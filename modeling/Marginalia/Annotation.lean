import Marginalia.Json.Basic
import Marginalia.Ledger

/-!
# Annotations as the subject of a conversation

What a conversation about a marker has to know of it.
-/

namespace Marginalia

structure Annotation where
  line : Nat
  suggestion : String
  severity : Severity
  color : String
  deriving DecidableEq, Repr

namespace Annotation

def ofMarker (m : Marker) : Annotation :=
  ⟨m.line, m.suggestion, m.severity, m.color⟩

/-- The annotation that the latest marker on a line shows. -/
def at? (l : Ledger) (document : String) (line : Nat) : Option Annotation :=
  (l.markerAt? document line).map ofMarker

def toJson (a : Annotation) : Json :=
  .object
    [("line", .number (.natural a.line)), ("suggestion", .string a.suggestion),
      ("severity", .string a.severity.label), ("color", .string a.color)]

end Annotation

end Marginalia
