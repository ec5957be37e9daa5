import Marginalia.Proofs.Filter.Exclusive
import Marginalia.Proofs.Filter.Shown

/-!
# An inactive filter

A filter becomes inactive by a toggle, which takes all markers away, or by an initial load,
which keeps them.  So nothing is shown by an inactive filter that the last toggle made so;
one that an initial load made so goes on showing what was marked before.
-/

namespace Marginalia

/-- The state that the last of some toggles leads to, given the one before and the state now. -/
def FilterState.lastToggled (last state : FilterState) : List FilterCommand → FilterState
  | [] => last
  | .initialLoad :: commands => lastToggled last .inactive commands
  | .toggle severity :: commands =>
      let toggled := state.after (.toggle severity)
      lastToggled toggled toggled commands

theorem FilterState.lastToggled_load (last state : FilterState) (commands : List FilterCommand) :
    lastToggled last state (commands ++ [.initialLoad]) = lastToggled last state commands := by
  induction commands generalizing last state with
  | nil => rfl
  | cons command commands ih =>
      cases command with
      | initialLoad => exact ih last .inactive
      | toggle severity => exact ih _ _

theorem FilterState.lastToggled_toggle (last state : FilterState) (commands : List FilterCommand)
    (severity : Severity) :
    lastToggled last state (commands ++ [.toggle severity]) =
      (commands.foldl after state).after (.toggle severity) := by
  induction commands generalizing last state with
  | nil => rfl
  | cons command commands ih =>
      cases command with
      | initialLoad => exact ih last .inactive
      | toggle requested => exact ih _ _

theorem FilterState.foldl_after_of_lastToggled {last state : FilterState}
    {commands : List FilterCommand} (hstate : state = .inactive ∨ state = last)
    (hlast : lastToggled last state commands = .inactive) :
    commands.foldl after state = .inactive := by
  induction commands generalizing last state with
  | nil => exact hstate.elim id fun h => h.trans hlast
  | cons command commands ih =>
      cases command with
      | initialLoad => exact ih (.inl rfl) hlast
      | toggle severity => exact ih (.inr rfl) hlast

/-! ## Small steps -/

/-- A step applies a command or none. -/
theorem Moved.eq_nil_or_began {setup : FilterSetup} {s s' : Session} {p? p?' : Option Pass}
    {commands : List FilterCommand} {made : List (Document × Marker)}
    (h : Moved setup s p? commands made s' p?') :
    commands = [] ∨ ∃ command isCancelled, commands = [command] ∧
      s' = (s.begin command isCancelled).1 ∧ p?' = (s.begin command isCancelled).2 := by
  cases h with
  | began _ command isCancelled => exact .inr ⟨command, isCancelled, rfl, rfl, rfl⟩
  | _ => exact .inl rfl

/-- A filter without markers, of which the pass under way makes none. -/
structure Blank (s : Session) (p? : Option Pass) : Prop where
  rendered : ∀ id, s.filter.ledger.rendered id = []
  signal : ∀ p ∈ p?, p.signal = .initialLoad

namespace Blank

variable {setup : FilterSetup} {s s' : Session} {p p' : Pass} {p? p?' : Option Pass}
  {commands : List FilterCommand} {made : List (Document × Marker)}

theorem of_rendered (h : ∀ id, s.filter.ledger.rendered id = []) : Blank s none :=
  ⟨h, fun p hp => absurd hp (Option.not_mem_none p)⟩

theorem of_agrees (h : Blank s (some p)) (hagrees : s.Agrees s') (hcontinues : p.Continues p') :
    Blank s' (some p') := by
  refine ⟨fun id => ?_, fun q hq => ?_⟩
  · rw [hagrees.ledger]
    exact h.rendered id
  · cases hq
    exact hcontinues.signal.trans (h.signal p rfl)

theorem read (h : Blank s (some p)) (hfits : p.Fits setup s.filter.state)
    (hread : p.readRecord s = some (s', p')) : Blank s' (some p') := by
  have hload := h.signal p rfl
  have hmarked : p.marked = [] := by
    rw [List.eq_nil_iff_forall_not_mem]
    rintro ⟨d, m⟩ hm
    have hshown := (hfits.marked hm).1
    rw [hload] at hshown
    cases hshown
  obtain ⟨-, -, hrendered⟩ := Pass.readRecord_effect hread hfits
  obtain ⟨review, record, feed, hphase, -, -, rfl⟩ := Pass.readRecord_eq_some hread
  refine ⟨fun id => ?_, fun q hq => ?_⟩
  · rw [hrendered id, h.rendered id, hmarked]
    rfl
  · cases hq
    exact hload

/-- Between commands nothing is marked. -/
theorem moved (h : Blank s p?) (hfits : ∀ p ∈ p?, p.Fits setup s.filter.state)
    (hmoved : Moved setup s p? [] made s' p?') : Blank s' p?' := by
  cases hmoved with
  | turned _ document => exact ⟨h.rendered, h.signal⟩
  | prepared p =>
      have hquiet := p.prepare_quiet setup s
      exact h.of_agrees hquiet.agrees hquiet.continues
  | read hread => exact h.read (hfits _ rfl) hread
  | settled hread => exact h.of_agrees (Pass.readOn_agrees hread) (Pass.readOn_continues s _)
  | cancelled p => exact h.of_agrees (s.agrees_exchange _) ⟨rfl, rfl⟩
  | superseded p => exact .of_rendered h.rendered
  | dropped => exact .of_rendered h.rendered

theorem load (h : Blank s p?) (isCancelled : Bool) :
    Blank (s.begin .initialLoad isCancelled).1 (s.begin .initialLoad isCancelled).2 := by
  refine ⟨h.rendered, fun p hp => ?_⟩
  cases hp
  rfl

theorem toggle {severity : Severity} (isCancelled : Bool)
    (hinactive : s.filter.state.after (.toggle severity) = .inactive) :
    Blank (s.begin (.toggle severity) isCancelled).1
      (s.begin (.toggle severity) isCancelled).2 := by
  refine ⟨s.rendered_begin_toggle severity isCancelled, fun p hp => ?_⟩
  simp only [FilterState.after] at hinactive
  simp only [Session.begin, Session.start, Session.applyToggle] at hp
  cases hplan : Transition.plan s.filter.state severity with
  | activate target => simp [hplan, Transition.target] at hinactive
  | switch source target => simp [hplan, Transition.target] at hinactive
  | deactivate target =>
      simp only [hplan, Transition.signal?] at hp
      cases hp

end Blank

/-- Without a toggle since that led to a severity, a filter has no markers. -/
theorem Moves.blank {setup : FilterSetup} {document : Option Document}
    {exchange : Model.Exchange} {s : Session} {p? : Option Pass} {commands : List FilterCommand}
    {made : List (Document × Marker)}
    (h : Moves setup { document, exchange } none commands made s p?)
    (hlast : FilterState.lastToggled .inactive .inactive commands = .inactive) :
    Blank s p? := by
  induction h with
  | refl => exact .of_rendered fun id => rfl
  | @step commands more made made' s' s'' p?' p?'' hbefore hmoved ih =>
      rcases hmoved.eq_nil_or_began with rfl | ⟨command, isCancelled, rfl, rfl, rfl⟩
      · rw [List.append_nil] at hlast
        have hreached := (Reached.fresh document exchange).moves hbefore
        exact (ih hlast).moved (Exclusive.of_reached hreached).fits hmoved
      · cases command with
        | initialLoad =>
            rw [FilterState.lastToggled_load] at hlast
            exact (ih hlast).load isCancelled
        | toggle severity =>
            rw [FilterState.lastToggled_toggle] at hlast
            exact .toggle isCancelled (hbefore.state ▸ hlast)

/-! ## The initial load -/

namespace Pass

theorem readOn_agrees_of_load {s : Session} {p : Pass}
    (hload : ∀ review, p.phase = .reviewing review → review.signal = .initialLoad) :
    s.Agrees (p.readOn s).1 := by
  unfold readOn
  split
  · next review hphase =>
      obtain ⟨read, left, hread, -⟩ := review.exists_advance s.filter.ledger
      have hnone : read.filterMap review.marker? = [] :=
        List.filterMap_eq_nil_iff.mpr fun record _ =>
          Review.marker?_of_initialLoad (hload review hphase) record
      have hmarked := hread.marked
      have htold := hread.told
      rw [hnone] at hmarked htold
      have hquiet : s.Agrees ({ s with filter := { s.filter with
          ledger := (review.advance s.filter.ledger).ledger } }.tell
            (review.advance s.filter.ledger).events) := by
        refine ⟨rfl, rfl, hmarked, ?_⟩
        rw [Session.display_tell, htold]
        rfl
      unfold continueReview
      dsimp only
      split
      · exact (hquiet.trans (conclude_agrees _ _)).trans (close_agrees _ p _)
      · exact hquiet
  · exact .refl s

theorem advance_agrees_of_load {setup : FilterSetup} {s : Session} {p : Pass}
    (hfits : p.Fits setup s.filter.state) (hload : p.signal = .initialLoad) :
    s.Agrees (p.advance setup s).1 := by
  have hprepared := hfits.prepare s
  have hquiet := p.prepare_quiet setup s
  refine hquiet.agrees.trans (readOn_agrees_of_load fun review hreview => ?_)
  exact (hprepared.review review hreview).1.trans (hquiet.continues.signal.trans hload)

end Pass

/-- The initial load makes a filter inactive and shows what was shown before. -/
theorem Session.initialLoad_shows (setup : FilterSetup) (s : Session) (isCancelled : Bool)
    {markers : String → List Marker} (h : s.Shows markers) :
    (s.initialLoad setup isCancelled).1.filter.state = .inactive ∧
      (s.initialLoad setup isCancelled).1.Shows markers := by
  let began := s.begin .initialLoad isCancelled
  let p : Pass := { token := s.exchange.fresh, signal := .initialLoad, isCancelled }
  have hfits : p.Fits setup began.1.filter.state :=
    s.begin_fits setup .initialLoad isCancelled p rfl
  have hagrees : began.1.Agrees (s.initialLoad setup isCancelled).1 :=
    Pass.advance_agrees_of_load hfits rfl
  refine ⟨hagrees.state, fun id => ?_⟩
  rw [hagrees.ledger, hagrees.display]
  exact h id

/--
An inactive filter has no markers, and the host shows none, if the last toggle led to no
severity.  An initial load makes a filter inactive too, but keeps all markers that are
shown, those of a pass that it supersedes among them.  The operations of the filter take
small steps and apply their commands.
-/
theorem inactive_shows_nothing (setup : FilterSetup) :
    (∀ document exchange commands made s p?,
      Moves setup { document, exchange } none commands made s p? →
        FilterState.lastToggled .inactive .inactive commands = .inactive →
          s.filter.state = .inactive ∧ s.Shows fun _ => []) ∧
    (∀ s markers isCancelled, Session.Shows s markers →
      (s.begin .initialLoad isCancelled).1.filter.state = .inactive ∧
        (s.begin .initialLoad isCancelled).1.Shows markers ∧
        (s.initialLoad setup isCancelled).1.filter.state = .inactive ∧
        (s.initialLoad setup isCancelled).1.Shows markers) ∧
    ∀ s p?,
      (∀ isCancelled, ∃ made, Moves setup s p? [.initialLoad] made
        (s.initialLoad setup isCancelled).1 (some (s.initialLoad setup isCancelled).2)) ∧
      (∀ severity isCancelled, ∃ made, Moves setup s p? [.toggle severity] made
        (s.toggle setup severity isCancelled).1 (s.toggle setup severity isCancelled).2.2) ∧
      (∀ command isCancelled, ∃ made, Moves setup s p? [command] made
        (s.handle setup command isCancelled).1 (s.handle setup command isCancelled).2) ∧
      ∀ actions, ∃ made, Moves setup s p? (Drive.Run.ofActions setup s actions).applied made
        (Drive.Run.ofActions setup s actions).drive.session
        (Drive.Run.ofActions setup s actions).drive.pass := by
  refine ⟨fun document exchange commands made s p? h hlast => ?_,
    fun s markers isCancelled h => ?_, fun s p? => ?_⟩
  · have hmirrored := h.mirrored (Session.mirrored_fresh document exchange)
    have hstate := FilterState.foldl_after_of_lastToggled (.inl rfl) hlast
    exact ⟨h.state.trans hstate, hmirrored.shows (h.blank hlast).rendered⟩
  · exact ⟨rfl, h, s.initialLoad_shows setup isCancelled h⟩
  · exact ⟨Moves.initialLoad setup s p?, Moves.toggle setup s p?, Moves.handle setup s p?,
      Moves.drive setup s p?⟩

/-- A second toggle takes away the marker that the first one led to. -/
theorem shows_nothing_toggled_twice :
    ∃ made s, Moves stalledSetup stalledSession none [.toggle .red] made s none ∧
      s.filter.ledger.rendered "main.rs" = [stalledMarker] ∧
        (s.begin (.toggle .red) false).1.filter.state = .inactive ∧
          (s.begin (.toggle .red) false).1.Shows fun _ => [] := by
  obtain ⟨made, s, hmoves, -, hrendered⟩ := Moves.exists_stalled
  have htwice := hmoves.step (.began s none (.toggle .red) false)
  obtain ⟨hstate, hshows⟩ :=
    (inactive_shows_nothing stalledSetup).1 _ _ _ _ _ _ htwice (by decide)
  exact ⟨made, s, hmoves, hrendered, hstate, hshows⟩

/-- An initial load makes the filter inactive with the marker still there. -/
theorem shows_marker_after_load :
    ∃ made s p?, Moves stalledSetup stalledSession none [.toggle .red, .initialLoad] made s p? ∧
      s.filter.state = .inactive ∧ s.filter.ledger.rendered "main.rs" = [stalledMarker] ∧
        s.display.markers "main.rs" = [stalledMarker] := by
  obtain ⟨made, s, hmoves, -, hrendered⟩ := Moves.exists_stalled
  have hmirrored := hmoves.mirrored (Session.mirrored_fresh _ _)
  exact ⟨_, _, _, hmoves.step (.began s none .initialLoad false), rfl, hrendered,
    (hmirrored "main.rs").trans hrendered⟩

end Marginalia
