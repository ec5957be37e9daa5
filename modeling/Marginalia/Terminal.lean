import Marginalia.Display

/-!
# Output on a terminal

Markers are printed by line, each next to the line it is about: the number of the line
set right in a column, the line itself without blanks at its end, and below it the
severity and the suggestion.
-/

namespace Marginalia

namespace Terminal

def alignRight (width : Nat) (text : String) : String :=
  String.ofList (List.replicate (width - text.length) ' ') ++ text

def markerRows (d : Document) (width : Nat) (m : Marker) : String :=
  let source := (d.line? m.line).getD ""
  alignRight width (toString m.line) ++ " | " ++ Text.trimEnd source ++ "\n" ++
    alignRight width "" ++ " | [" ++ m.severity.label ++ "] " ++ m.suggestion ++ "\n"

/-- Markers by line; those on one line stay in their order. -/
def byLine (markers : List Marker) : List Marker :=
  markers.mergeSort fun a b => a.line ≤ b.line

def markers (d : Document) (display : Display) : String :=
  let width := (toString d.lineCount).length
  String.join ((byLine (display.markers d.id)).map (markerRows d width))

def status (tally : Tally) (state : FilterState) : String :=
  match state.active? with
  | some severity => tally.status ++ " (showing " ++ severity.label ++ ")"
  | none => tally.status

/-- What an event prints on standard output; a quiet terminal leaves the counts out. -/
def output (isQuiet : Bool) : HostEvent → String
  | .counts tally state => if isQuiet then "" else status tally state ++ "\n"
  | _ => ""

/-- What an event prints on standard error. -/
def complaint : HostEvent → String
  | .warning text => "warning: " ++ text ++ "\n"
  | _ => ""

end Terminal

end Marginalia
