import Marginalia.Display
import Marginalia.Proofs.Markers

/-!
# A host that follows the ledger

A host shows what it was last told.  The events that come with a change of the ledger make
the same change on the host, so a host that follows them shows the ledger's markers.
-/

namespace Marginalia

namespace Display

theorem markers?_without (d : Display) (document id : String) :
    (d.without document).markers? id = if document = id then none else d.markers? id := by
  rw [without, markers?, find?_filter_ne]
  split
  · rfl
  · rfl

theorem markers_clear (d : Display) (document id : String) :
    (d.follow (.clearMarkers document)).markers id =
      if document = id then [] else d.markers id := by
  rw [markers, follow, markers?_without]
  split
  · rfl
  · rfl

theorem markers_set (d : Display) (document : String) (ms : List Marker) (id : String) :
    (d.follow (.setMarkers document ms)).markers id =
      if document = id then ms else d.markers id := by
  rw [markers, follow, markers?, List.find?_cons]
  by_cases hid : document = id
  · rw [beq_iff_eq.mpr hid, if_pos hid]
    rfl
  · rw [beq_eq_false_iff_ne.mpr hid, if_neg hid]
    have hwithout := markers?_without d document id
    rw [if_neg hid] at hwithout
    exact congrArg (Option.getD · []) hwithout

theorem replay_append (d : Display) (events more : List HostEvent) :
    d.replay (events ++ more) = (d.replay events).replay more :=
  List.foldl_append

/-- Whether a host shows the ledger's markers, for every document. -/
def Mirrors (d : Display) (l : Ledger) : Prop :=
  ∀ id, d.markers id = l.rendered id

namespace Mirrors

variable {d : Display} {l : Ledger}

theorem empty : Mirrors {} {} :=
  fun _ => rfl

theorem add (h : d.Mirrors l) (document : String) (m : Marker) :
    (d.follow (.setMarkers document (l.rendered document ++ [m]))).Mirrors
      (l.add document m) := by
  intro id
  rw [markers_set, Ledger.rendered_add, h id]
  by_cases hid : document = id
  · rw [if_pos hid, if_pos hid, hid]
  · rw [if_neg hid, if_neg hid, List.append_nil]

theorem clear (h : d.Mirrors l) (document : String) :
    (d.replay (l.clear document).2).Mirrors (l.clear document).1 := by
  intro id
  rw [Ledger.rendered, Ledger.shelf?_clear]
  unfold Ledger.clear
  cases hshelf : l.shelf? document with
  | none =>
      -- nothing is told, since the document has no markers
      show d.markers id = _
      rw [h id, Ledger.rendered]
      by_cases hid : document = id
      · rw [if_pos hid, ← hid, hshelf]
      · rw [if_neg hid]
  | some shelf =>
      show (d.follow (.clearMarkers document)).markers id = _
      rw [markers_clear, h id]
      by_cases hid : document = id
      · rw [if_pos hid, if_pos hid]
        rfl
      · rw [if_neg hid, if_neg hid]
        rfl

theorem clearEach (h : d.Mirrors l) (documents : List String) :
    (d.replay (l.clearEach documents).2).Mirrors (l.clearEach documents).1 := by
  induction documents generalizing d l with
  | nil => exact h
  | cons document documents ih =>
      rw [Ledger.clearEach]
      dsimp only
      rw [replay_append]
      exact ih (h.clear document)

theorem clearAll (h : d.Mirrors l) :
    (d.replay l.clearAll.2).Mirrors l.clearAll.1 :=
  h.clearEach _

end Mirrors

end Display

end Marginalia
