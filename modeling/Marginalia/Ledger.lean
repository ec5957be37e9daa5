import Marginalia.Document
import Marginalia.Tally

/-!
# The ledger of markers

The markers shown at present, for each document in the order in which they were
made.  Every change comes with the events that tell the host about it, so that a
host which follows the events shows what the ledger holds.  For a line there may be
several markers; looking a line up gives the latest.
-/

namespace Marginalia

/-- The part of a line that a marker covers: columns count characters from zero. -/
structure MarkerRange where
  line : Nat
  startColumn : Nat
  endColumn : Nat
  deriving DecidableEq, Repr

namespace MarkerRange

/-- From the first character that is not blank to the end of the line. -/
def ofLine (line : Nat) (text : String) : MarkerRange :=
  let cs := text.toList
  { line
    startColumn := min (cs.findIdx fun c => !Text.isBlank c) maxLine
    endColumn := min cs.length maxLine }

def isEmpty (r : MarkerRange) : Bool :=
  r.startColumn ≥ r.endColumn

end MarkerRange

structure Marker where
  severity : Severity
  suggestion : String
  color : String
  range : MarkerRange
  deriving DecidableEq, Repr

def Marker.line (m : Marker) : Nat :=
  m.range.line

inductive HostEvent where
  /-- These are now all markers of a document. -/
  | setMarkers (document : String) (markers : List Marker)
  /-- A document has no markers any more. -/
  | clearMarkers (document : String)
  | warning (text : String)
  | counts (tally : Tally) (state : FilterState)
  deriving DecidableEq, Repr

/-- The markers of one document: all of them in order, and the place of the latest one by line. -/
structure Shelf where
  rendered : List Marker := []
  /-- Lines, each with a place among the markers; what comes first replaces what comes later. -/
  latest : List (Nat × Nat) := []
  deriving DecidableEq, Repr, Inhabited

def Shelf.add (s : Shelf) (m : Marker) : Shelf :=
  ⟨s.rendered ++ [m], (m.line, s.rendered.length) :: s.latest⟩

def Shelf.markerAt? (s : Shelf) (line : Nat) : Option Marker := do
  let entry ← s.latest.find? fun entry => entry.1 == line
  s.rendered[entry.2]?

structure Ledger where
  shelves : List (String × Shelf) := []
  deriving DecidableEq, Repr, Inhabited

structure OutOfRange where
  line : Nat
  lineCount : Nat
  deriving DecidableEq, Repr

def OutOfRange.message (e : OutOfRange) : String :=
  s!"line {e.line} is outside the document (1..={e.lineCount})"

namespace Ledger

def shelf? (l : Ledger) (document : String) : Option Shelf :=
  (l.shelves.find? fun entry => entry.1 == document).map (·.2)

def rendered (l : Ledger) (document : String) : List Marker :=
  ((l.shelf? document).getD {}).rendered

def markerAt? (l : Ledger) (document : String) (line : Nat) : Option Marker := do
  let shelf ← l.shelf? document
  shelf.markerAt? line

def count (l : Ledger) (document : String) (severity : Severity) : Nat :=
  (l.rendered document).countP fun m => m.severity == severity

def isEmpty (l : Ledger) (document : String) : Bool :=
  (l.rendered document).isEmpty

def clear (l : Ledger) (document : String) : Ledger × List HostEvent :=
  match l.shelf? document with
  | none => (l, [])
  | some _ =>
      (⟨l.shelves.filter fun entry => entry.1 != document⟩, [.clearMarkers document])

def clearEach (l : Ledger) : List String → Ledger × List HostEvent
  | [] => (l, [])
  | document :: documents =>
      let (l, events) := l.clear document
      let (l, more) := l.clearEach documents
      (l, events ++ more)

def clearAll (l : Ledger) : Ledger × List HostEvent :=
  l.clearEach (l.shelves.map (·.1))

def put (shelves : List (String × Shelf)) (document : String) (shelf : Shelf) :
    List (String × Shelf) :=
  match shelves with
  | [] => [(document, shelf)]
  | entry :: rest =>
      if entry.1 == document then (document, shelf) :: rest
      else entry :: put rest document shelf

structure Applied where
  ledger : Ledger
  marker : Marker
  events : List HostEvent

def apply (l : Ledger) (d : Document) (line : Nat) (suggestion : String) (severity : Severity)
    (color : String) : Except OutOfRange Applied :=
  match d.line? line with
  | none => .error ⟨line, d.lineCount⟩
  | some text =>
      let marker : Marker := ⟨severity, suggestion, color, .ofLine line text⟩
      let shelf := ((l.shelf? d.id).getD {}).add marker
      .ok ⟨⟨put l.shelves d.id shelf⟩, marker, [.setMarkers d.id shelf.rendered]⟩

end Ledger

end Marginalia
