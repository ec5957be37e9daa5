import Marginalia.Ledger

/-!
# What a host shows

A host keeps, for each document, the markers it was last told; following the events
of a ledger it shows exactly the ledger's markers.
-/

namespace Marginalia

structure Display where
  shown : List (String × List Marker) := []
  deriving DecidableEq, Repr, Inhabited

namespace Display

def markers? (d : Display) (document : String) : Option (List Marker) :=
  (d.shown.find? fun entry => entry.1 == document).map (·.2)

def markers (d : Display) (document : String) : List Marker :=
  (d.markers? document).getD []

def without (d : Display) (document : String) : Display :=
  ⟨d.shown.filter fun entry => entry.1 != document⟩

/-- Follows one event; warnings and counts do not change the markers. -/
def follow (d : Display) : HostEvent → Display
  | .setMarkers document markers => ⟨(document, markers) :: (d.without document).shown⟩
  | .clearMarkers document => d.without document
  | .warning _ => d
  | .counts _ _ => d

def replay (d : Display) (events : List HostEvent) : Display :=
  events.foldl follow d

end Display

end Marginalia
