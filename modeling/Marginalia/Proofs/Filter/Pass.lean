import Marginalia.Filter.Session
import Marginalia.Proofs.Display
import Marginalia.Proofs.Exchange

/-!
# What a pass leaves alone

No pass changes the state of the filter.  Until its review is read, and after it, a pass
leaves the markers alone too, also those that the host shows.
-/

namespace Marginalia

def Session.display (s : Session) : Display :=
  Display.replay {} s.events

theorem Session.display_tell (s : Session) (events : List HostEvent) :
    (s.tell events).display = s.display.replay events :=
  Display.replay_append {} s.events events

/--
Whether a session has the active document, the filter state and the markers of another one,
and its host too.
-/
structure Session.Agrees (s s' : Session) : Prop where
  document : s'.document = s.document
  state : s'.filter.state = s.filter.state
  ledger : s'.filter.ledger = s.filter.ledger
  display : s'.display = s.display

theorem Session.Agrees.refl (s : Session) : s.Agrees s :=
  ⟨rfl, rfl, rfl, rfl⟩

theorem Session.Agrees.trans {s s' s'' : Session} (h : s.Agrees s') (h' : s'.Agrees s'') :
    s.Agrees s'' :=
  ⟨h'.document.trans h.document, h'.state.trans h.state, h'.ledger.trans h.ledger,
    h'.display.trans h.display⟩

theorem Session.agrees_exchange (s : Session) (exchange : Model.Exchange) :
    s.Agrees { s with exchange } :=
  ⟨rfl, rfl, rfl, rfl⟩

theorem Session.agrees_publish (s : Session) : s.Agrees s.publish :=
  ⟨rfl, rfl, rfl, s.display_tell _⟩

theorem Review.cancelled_start (r : Reviewer) (document : Option Document)
    (fileContext : List Message) (color : String) (signal : Signal) (token : Model.Token)
    (isCancelled : Bool) (x : Model.Exchange) :
    (start r document fileContext color signal token isCancelled x).2.cancelled = x.cancelled := by
  unfold start
  split
  · rfl
  · split
    · rfl
    · next d _ model _ =>
        have hsend := x.cancelled_send ⟨model, r.messages d fileContext, token⟩
        split
        · next h =>
            rw [h] at hsend
            exact hsend
        · next h =>
            rw [h] at hsend
            exact hsend

theorem FileChoice.cancelled_start (r : Reviewer) (library : Library) (d : Document)
    (token : Model.Token) (isCancelled : Bool) (x : Model.Exchange) :
    (start r library d token isCancelled x).2.cancelled = x.cancelled := by
  unfold start
  dsimp only
  split
  · rfl
  · split
    · rfl
    · next model _ =>
        have hsend := x.cancelled_send
          ⟨model, messages r d (library.files.filter (· != d.id)), token⟩
        split
        · next h =>
            rw [h] at hsend
            exact hsend
        · next h =>
            rw [h] at hsend
            exact hsend

namespace Pass

/-- A warning and the counts that follow it do not change what the host shows. -/
theorem agrees_conclude_error (s : Session) (warning : String) :
    s.Agrees
      (({ s with filter := { s.filter with tally := {} } }.tell [.warning warning]).publish) := by
  let warned := { s with filter := { s.filter with tally := {} } }.tell [.warning warning]
  have hwarned : warned.display = s.display := Session.display_tell _ _
  exact ⟨rfl, rfl, rfl, (Session.agrees_publish warned).display.trans hwarned⟩

theorem conclude_agrees (s : Session) (outcome : Except ReviewFailure Tally) :
    s.Agrees (conclude s outcome) := by
  cases outcome with
  | ok tally =>
      have hpublish := Session.agrees_publish { s with filter := { s.filter with tally } }
      exact ⟨rfl, rfl, rfl, hpublish.display⟩
  | error failure =>
      cases failure with
      | cancelled => exact .refl s
      | _ => exact agrees_conclude_error s _

theorem close_agrees (s : Session) (p : Pass) (isCancelled : Bool) :
    s.Agrees (close s p isCancelled).1 :=
  ⟨rfl, rfl, rfl, rfl⟩

/-! ## On the way to the review -/

/-- Whether a pass is another one at a later time. -/
structure Continues (p p' : Pass) : Prop where
  token : p'.token = p.token
  signal : p'.signal = p.signal

theorem Continues.refl (p : Pass) : p.Continues p :=
  ⟨rfl, rfl⟩

theorem Continues.trans {p p' p'' : Pass} (h : p.Continues p') (h' : p'.Continues p'') :
    p.Continues p'' :=
  ⟨h'.token.trans h.token, h'.signal.trans h.signal⟩

/-- What a pass leaves alone until it reads a review: requests that are cancelled stay so. -/
structure Quiet (s : Session) (p : Pass) (next : Session × Pass) : Prop where
  agrees : s.Agrees next.1
  continues : p.Continues next.2
  cancelled : s.exchange.cancelled ⊆ next.1.exchange.cancelled

theorem Quiet.refl (s : Session) (p : Pass) : Quiet s p (s, p) :=
  ⟨.refl s, .refl p, List.Subset.refl _⟩

theorem Quiet.of_agrees {s s' : Session} {p : Pass} {next : Session × Pass} (h : Quiet s' p next)
    (hagrees : s.Agrees s') (hcancelled : s'.exchange.cancelled = s.exchange.cancelled) :
    Quiet s p next :=
  ⟨hagrees.trans h.agrees, h.continues, hcancelled ▸ h.cancelled⟩

theorem close_quiet (s : Session) (p : Pass) (isCancelled : Bool) :
    Quiet s p (close s p isCancelled) :=
  ⟨close_agrees s p isCancelled, ⟨rfl, rfl⟩,
    s.exchange.subset_cancelled_cancelIf p.token isCancelled⟩

theorem conclude_keeps (s : Session) (outcome : Except ReviewFailure Tally) :
    (conclude s outcome).exchange = s.exchange ∧
      (conclude s outcome).filter.fileContext = s.filter.fileContext := by
  cases outcome with
  | ok tally => exact ⟨rfl, rfl⟩
  | error failure =>
      cases failure with
      | _ => exact ⟨rfl, rfl⟩

theorem openReview_quiet (setup : FilterSetup) (s : Session) (p : Pass) (isCancelled : Bool) :
    Quiet s p (openReview setup s p isCancelled) := by
  unfold openReview
  split
  · exact close_quiet s p true
  · have hstart := Review.cancelled_start setup.reviewer s.document s.filter.fileContext
      (setup.palette.colorFor p.signal) p.signal p.token false s.exchange
    split
    · next failure exchange hfailure =>
        rw [hfailure] at hstart
        have hconclude := conclude_agrees { s with exchange } (.error failure)
        refine (close_quiet _ p false).of_agrees ((s.agrees_exchange exchange).trans hconclude) ?_
        rw [(conclude_keeps _ _).1]
        exact hstart
    · next review exchange hreview =>
        rw [hreview] at hstart
        exact ⟨s.agrees_exchange exchange, ⟨rfl, rfl⟩, fun _ hmem => hstart ▸ hmem⟩

theorem openReview_quiet_withFileContext (setup : FilterSetup) (s : Session)
    (messages : List Message) (p : Pass) (isCancelled : Bool) :
    Quiet s p (openReview setup (withFileContext s messages) p isCancelled) :=
  (openReview_quiet setup _ p isCancelled).of_agrees ⟨rfl, rfl, rfl, rfl⟩ rfl

theorem continueChoice_quiet (setup : FilterSetup) (library : Library) (s : Session) (p : Pass)
    (choice : FileChoice) : Quiet s p (continueChoice setup library s p choice) := by
  unfold continueChoice
  split
  · exact openReview_quiet_withFileContext setup s _ p _
  · exact openReview_quiet_withFileContext setup s [] p _
  · exact ⟨.refl s, ⟨rfl, rfl⟩, List.Subset.refl _⟩

theorem begin_quiet (setup : FilterSetup) (s : Session) (p : Pass) :
    Quiet s p (begin setup s p) := by
  unfold begin
  split
  · next library d _ _ =>
      have hstart := FileChoice.cancelled_start setup.reviewer library d p.token p.isCancelled
        s.exchange
      split
      · next exchange hnothing =>
          rw [hnothing] at hstart
          have hreview :=
            openReview_quiet_withFileContext setup { s with exchange } [] p p.isCancelled
          exact hreview.of_agrees (s.agrees_exchange exchange) hstart
      · next choice exchange hreading =>
          rw [hreading] at hstart
          have hchoice := continueChoice_quiet setup library { s with exchange } p choice
          exact hchoice.of_agrees (s.agrees_exchange exchange) hstart
  · exact openReview_quiet setup s p _

/-- Nothing is marked before the review of a pass is read. -/
theorem prepare_quiet (setup : FilterSetup) (s : Session) (p : Pass) :
    Quiet s p (p.prepare setup s) := by
  unfold prepare
  split
  · exact begin_quiet setup s p
  · split
    · exact continueChoice_quiet setup _ s p _
    · exact openReview_quiet setup s p _
  · exact .refl s p

/-! ## Reading on -/

theorem readOn_continues (s : Session) (p : Pass) : p.Continues (p.readOn s).2 := by
  unfold readOn
  split
  · unfold continueReview
    dsimp only
    split
    · exact ⟨rfl, rfl⟩
    · exact ⟨rfl, rfl⟩
  · exact .refl p

theorem advance_continues (setup : FilterSetup) (s : Session) (p : Pass) :
    p.Continues (p.advance setup s).2 :=
  (prepare_quiet setup s p).continues.trans (readOn_continues _ _)

theorem subset_cancelled_readOn (s : Session) (p : Pass) :
    s.exchange.cancelled ⊆ (p.readOn s).1.exchange.cancelled := by
  unfold readOn
  split
  · next review _ =>
      unfold continueReview
      dsimp only
      generalize review.advance s.filter.ledger = a
      split
      · let marked := { s with filter := { s.filter with ledger := a.ledger } }.tell a.events
        have hclose :=
          (close_quiet (conclude marked a.review.outcome) p a.review.feed.isCancelled).cancelled
        rw [(conclude_keeps _ _).1] at hclose
        exact hclose
      · exact List.Subset.refl _
  · exact List.Subset.refl _

theorem readOn_keeps (s : Session) (p : Pass) :
    (p.readOn s).1.filter.state = s.filter.state ∧ (p.readOn s).1.document = s.document := by
  unfold readOn
  split
  · next review _ =>
      unfold continueReview
      dsimp only
      generalize review.advance s.filter.ledger = a
      split
      · let marked := { s with filter := { s.filter with ledger := a.ledger } }.tell a.events
        have hconclude := conclude_agrees marked a.review.outcome
        exact ⟨hconclude.state, hconclude.document⟩
      · exact ⟨rfl, rfl⟩
  · exact ⟨rfl, rfl⟩

theorem advance_keeps (setup : FilterSetup) (s : Session) (p : Pass) :
    (p.advance setup s).1.filter.state = s.filter.state ∧
      (p.advance setup s).1.document = s.document := by
  have hprepare := (prepare_quiet setup s p).agrees
  obtain ⟨hstate, hdocument⟩ := readOn_keeps (p.prepare setup s).1 (p.prepare setup s).2
  exact ⟨hstate.trans hprepare.state, hdocument.trans hprepare.document⟩

end Pass

namespace Session

theorem start_state (s : Session) (command : FilterCommand) :
    (s.start command).1.filter.state = s.filter.state.after command := by
  cases command with
  | initialLoad => rfl
  | toggle severity =>
      simp only [start, applyToggle, FilterState.after]
      cases Transition.plan s.filter.state severity with
      | _ => rfl

theorem begin_state (s : Session) (command : FilterCommand) (isCancelled : Bool) :
    (s.begin command isCancelled).1.filter.state = s.filter.state.after command := by
  rw [← start_state, begin]
  split
  · next h => rw [h]
  · next h => rw [h]; rfl

theorem begin_toggle (s : Session) (severity : Severity) (isCancelled : Bool) :
    let s' := (s.begin (.toggle severity) isCancelled).1
    s'.filter.ledger = s.filter.ledger.clearAll.1 ∧
      s'.display = s.display.replay s.filter.ledger.clearAll.2 := by
  simp only [begin, start, applyToggle]
  cases Transition.plan s.filter.state severity with
  | activate target => exact ⟨rfl, display_tell _ _⟩
  | switch source target => exact ⟨rfl, display_tell _ _⟩
  | deactivate target =>
      let cleared : Session := { s with filter := { s.filter with
        ledger := s.filter.ledger.clearAll.1, state := .inactive } }
      have hpublish := agrees_publish (cleared.tell s.filter.ledger.clearAll.2)
      exact ⟨rfl, hpublish.display.trans (display_tell cleared _)⟩

theorem rendered_begin_toggle (s : Session) (severity : Severity) (isCancelled : Bool)
    (id : String) :
    (s.begin (.toggle severity) isCancelled).1.filter.ledger.rendered id = [] := by
  rw [(s.begin_toggle severity isCancelled).1]
  exact Ledger.rendered_clearAll s.filter.ledger id

theorem begin_toggle_pass (s : Session) (severity : Severity) (isCancelled : Bool) :
    let opened := s.begin (.toggle severity) isCancelled
    (opened.1.filter.state = .inactive → opened.2 = none) ∧
      ∀ target, opened.1.filter.state = .active target →
        ∃ p, opened.2 = some p ∧ p.signal = .display target ∧ p.phase = .opening ∧
          p.isCancelled = isCancelled := by
  simp only [begin, start, applyToggle]
  cases Transition.plan s.filter.state severity with
  | deactivate target => exact ⟨fun _ => rfl, nofun⟩
  | _ =>
      refine ⟨nofun, fun target htarget => ?_⟩
      cases htarget
      exact ⟨_, rfl, rfl, rfl, rfl⟩

theorem begin_document (s : Session) (command : FilterCommand) (isCancelled : Bool) :
    (s.begin command isCancelled).1.document = s.document := by
  cases command with
  | initialLoad => rfl
  | toggle severity =>
      simp only [begin, start, applyToggle]
      cases Transition.plan s.filter.state severity with
      | _ => rfl

end Session

end Marginalia
