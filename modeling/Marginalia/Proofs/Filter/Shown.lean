import Marginalia.Proofs.Filter.Reached
import Marginalia.Proofs.Review

/-!
# What a host shows of a filter

A host that follows the events of a filter shows the markers of the ledger, in every state
that the filter comes to.
-/

namespace Marginalia

def Session.Mirrored (s : Session) : Prop :=
  s.display.Mirrors s.filter.ledger

def Session.Shows (s : Session) (markers : String → List Marker) : Prop :=
  ∀ id, s.filter.ledger.rendered id = markers id ∧ s.display.markers id = markers id

namespace Session

variable {s s' : Session}

theorem Mirrored.shows (h : s.Mirrored) {markers : String → List Marker}
    (hrendered : ∀ id, s.filter.ledger.rendered id = markers id) : s.Shows markers :=
  fun id => ⟨hrendered id, (h id).trans (hrendered id)⟩

theorem Mirrored.of_agrees (h : s.Mirrored) (hagrees : s.Agrees s') : s'.Mirrored := by
  rw [Mirrored, hagrees.display, hagrees.ledger]
  exact h

theorem Mirrored.begin (h : s.Mirrored) (command : FilterCommand) (isCancelled : Bool) :
    (s.begin command isCancelled).1.Mirrored := by
  cases command with
  | initialLoad => exact h
  | toggle severity =>
      obtain ⟨hledger, hdisplay⟩ := s.begin_toggle severity isCancelled
      rw [Mirrored, hledger, hdisplay]
      exact Display.Mirrors.clearAll h

theorem Mirrored.read (h : s.Mirrored) {p p' : Pass} (hread : p.readRecord s = some (s', p')) :
    s'.Mirrored := by
  obtain ⟨review, record, feed, -, -, rfl, -⟩ := Pass.readRecord_eq_some hread
  rw [Mirrored, display_tell, Review.take_eq]
  exact Display.Mirrors.addAll h review.document.id (review.marker? record).toList

end Session

theorem Moved.mirrored {setup : FilterSetup} {s s' : Session} {p? p?' : Option Pass}
    {commands : List FilterCommand} {made : List (Document × Marker)}
    (hmoved : Moved setup s p? commands made s' p?') (h : s.Mirrored) : s'.Mirrored := by
  cases hmoved with
  | turned _ document => exact h
  | began _ command isCancelled => exact h.begin command isCancelled
  | prepared p => exact h.of_agrees (p.prepare_quiet setup s).agrees
  | read hread => exact h.read hread
  | settled hread => exact h.of_agrees (Pass.readOn_agrees hread)
  | cancelled p => exact h.of_agrees (s.agrees_exchange _)
  | superseded p => exact h.of_agrees (s.agrees_exchange _)
  | dropped => exact h

theorem Moves.mirrored {setup : FilterSetup} {s s' : Session} {p? p?' : Option Pass}
    {commands : List FilterCommand} {made : List (Document × Marker)}
    (hmoves : Moves setup s p? commands made s' p?') (h : s.Mirrored) : s'.Mirrored := by
  induction hmoves with
  | refl => exact h
  | step _ hmoved ih => exact hmoved.mirrored ih

/-- A host shows the markers of a filter that is at work for the first time: none. -/
theorem Session.mirrored_fresh (document : Option Document) (exchange : Model.Exchange) :
    Session.Mirrored { document, exchange } :=
  Display.Mirrors.empty

end Marginalia
