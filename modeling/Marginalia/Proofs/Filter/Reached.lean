import Marginalia.Proofs.Filter.Commands
import Marginalia.Proofs.Markers

/-!
# States of a filter

The states that a filter comes to in small steps: a command is applied and opens a pass, a
pass is brought to its review, one record is taken in, the review comes to a stop.  Between
any two of them the pass may be cancelled or dropped, and another document may become the
active one.  All that a filter does at once is a number of these steps.
-/

namespace Marginalia

namespace Review

theorem take_append_events (review : Review) (p : Progress) (record : Record)
    (events : List HostEvent) :
    review.take { p with events := events ++ p.events } record =
      { review.take p record with events := events ++ (review.take p record).events } := by
  rw [take_eq, take_eq, List.append_assoc]

/-- Reading on takes in the next record first. -/
theorem advance_of_record {review : Review} {ledger : Ledger} {record : Record}
    {feed : Record.Feed} (h : review.feed.next = .record record feed) :
    review.advance ledger =
      let progress := review.take { tally := review.tally, ledger } record
      let a := ({ review with feed, tally := progress.tally } : Review).advance progress.ledger
      { a with events := progress.events ++ a.events } := by
  dsimp only
  generalize hprogress : review.take { tally := review.tally, ledger } record = progress
  let step (p : Progress) (record : Record) := (review.take p record, false)
  have hfold := @Record.Feed.fold_map _ step
    (fun p => { p with events := progress.events ++ p.events })
    (fun p record => congrArg (·, false) (review.take_append_events p record progress.events))
    { tally := progress.tally, ledger := progress.ledger } feed
  simp only [List.append_nil] at hfold
  rw [advance, Record.Feed.fold_of_record h, Bool.or_false, hprogress, hfold, advance]
  have hstep : (fun (p : Progress) (r : Record) =>
      (({ review with feed, tally := progress.tally } : Review).take p r, false)) = step := rfl
  rw [hstep]
  generalize Record.Feed.fold step { tally := progress.tally, ledger := progress.ledger } feed =
    folded
  obtain ⟨p, feed | feed⟩ := folded
  · rfl
  · rfl

end Review

namespace Pass

def readRecord (s : Session) (p : Pass) : Option (Session × Pass) :=
  match p.phase with
  | .reviewing review =>
      match review.feed.next with
      | .record record feed =>
          let progress := review.take { tally := review.tally, ledger := s.filter.ledger } record
          some
            ({ s with filter := { s.filter with ledger := progress.ledger } }.tell progress.events,
              { p with phase := .reviewing { review with feed, tally := progress.tally } })
      | _ => none
  | _ => none

def marked (p : Pass) : List (Document × Marker) :=
  match p.phase with
  | .reviewing review =>
      match review.feed.next with
      | .record record _ => (review.marker? record).toList.map fun m => (review.document, m)
      | _ => []
  | _ => []

def unread (p : Pass) : Nat × Nat :=
  match p.phase with
  | .reviewing review => review.feed.size
  | _ => (0, 0)

theorem readRecord_eq_some {s s' : Session} {p p' : Pass} (h : p.readRecord s = some (s', p')) :
    ∃ review record feed, p.phase = .reviewing review ∧
      review.feed.next = .record record feed ∧
        let progress := review.take { tally := review.tally, ledger := s.filter.ledger } record
        s' = ({ s with filter := { s.filter with ledger := progress.ledger } }.tell
          progress.events) ∧
            p' = { p with phase := .reviewing { review with feed, tally := progress.tally } } := by
  unfold readRecord at h
  split at h
  · next review hphase =>
      split at h
      · next record feed hnext =>
          cases h
          exact ⟨review, record, feed, hphase, hnext, rfl, rfl⟩
      · cases h
  · cases h

theorem readRecord_lt {s s' : Session} {p p' : Pass} (h : p.readRecord s = some (s', p')) :
    Prod.Lex (· < ·) (· < ·) p'.unread p.unread := by
  obtain ⟨review, record, feed, hphase, hnext, -, rfl⟩ := readRecord_eq_some h
  simp only [unread, hphase]
  exact Record.Feed.next_record_lt hnext

theorem readOn_of_readRecord {s s' : Session} {p p' : Pass}
    (h : p.readRecord s = some (s', p')) : p.readOn s = p'.readOn s' := by
  obtain ⟨review, record, feed, hphase, hnext, rfl, rfl⟩ := readRecord_eq_some h
  simp only [readOn, hphase, continueReview, Session.tell, Review.advance_of_record hnext,
    List.append_assoc]
  rfl

/-- Ends the review of which nothing has arrived and nothing is to come, or goes on to wait. -/
def settle (s : Session) (p : Pass) : Session × Pass :=
  match p.phase with
  | .reviewing review =>
      match review.feed.next with
      | .over feed =>
          close (conclude (s.tell []) ({ review with feed } : Review).outcome) p feed.isCancelled
      | .waiting feed => (s.tell [], { p with phase := .reviewing { review with feed } })
      | .record _ _ => (s, p)
  | _ => (s, p)

theorem readOn_eq_settle {s : Session} {p : Pass} (h : p.readRecord s = none) :
    p.readOn s = p.settle s := by
  cases hphase : p.phase with
  | reviewing review =>
      simp only [readRecord, hphase] at h
      simp only [readOn, settle, hphase, continueReview]
      rcases hnext : review.feed.next with ⟨record, feed⟩ | feed | feed
      · simp only [hnext] at h
        cases h
      · rw [Review.advance, Record.Feed.fold_of_over hnext]
        rfl
      · rw [Review.advance, Record.Feed.fold_of_waiting hnext]
        rfl
  | _ => simp only [readOn, settle, hphase]

theorem readOn_agrees {s : Session} {p : Pass} (h : p.readRecord s = none) :
    s.Agrees (p.readOn s).1 := by
  rw [readOn_eq_settle h]
  have hquiet : s.Agrees (s.tell []) := ⟨rfl, rfl, rfl, s.display_tell []⟩
  unfold settle
  split
  · split
    · exact (hquiet.trans (conclude_agrees (s.tell []) _)).trans (close_agrees _ p _)
    · exact hquiet
    · exact .refl s
  · exact .refl s

end Pass

theorem Session.handle_toggle (setup : FilterSetup) (s : Session) (severity : Severity)
    (isCancelled : Bool) :
    s.handle setup (.toggle severity) isCancelled =
      ((s.toggle setup severity isCancelled).1, (s.toggle setup severity isCancelled).2.2) := by
  simp only [handle, begin, start, toggle, Pass.run]
  cases (s.applyToggle severity).2.signal? with
  | none => rfl
  | some signal => rfl

/-- The states a filter comes to, the pass under way, and all markers made until then. -/
inductive Reached (setup : FilterSetup) :
    Session → Option Pass → List (Document × Marker) → Prop where
  /-- A filter at work for the first time. -/
  | fresh (document : Option Document) (exchange : Model.Exchange) :
      Reached setup { document, exchange } none []
  /-- Another document becomes the active one. -/
  | turned {s : Session} {p? : Option Pass} {log : List (Document × Marker)}
      (h : Reached setup s p? log) (document : Option Document) :
      Reached setup { s with document } p? log
  /-- A command is applied, whatever pass was under way, and opens a pass perhaps. -/
  | began {s : Session} {p? : Option Pass} {log : List (Document × Marker)}
      (h : Reached setup s p? log) (command : FilterCommand) (isCancelled : Bool) :
      Reached setup (s.begin command isCancelled).1 (s.begin command isCancelled).2 log
  /-- Files are chosen and the review is asked for, as far as the replies have arrived. -/
  | prepared {s : Session} {p : Pass} {log : List (Document × Marker)}
      (h : Reached setup s (some p) log) :
      Reached setup (p.prepare setup s).1 (some (p.prepare setup s).2) log
  /-- One record is taken in. -/
  | read {s s' : Session} {p p' : Pass} {log : List (Document × Marker)}
      (h : Reached setup s (some p) log) (hread : p.readRecord s = some (s', p')) :
      Reached setup s' (some p') (log ++ p.marked)
  /-- The review is over or waits. -/
  | settled {s : Session} {p : Pass} {log : List (Document × Marker)}
      (h : Reached setup s (some p) log) (hread : p.readRecord s = none) :
      Reached setup (p.readOn s).1 (some (p.readOn s).2) log
  /-- The requests of the pass are cancelled, and it goes on. -/
  | cancelled {s : Session} {p : Pass} {log : List (Document × Marker)}
      (h : Reached setup s (some p) log) :
      Reached setup { s with exchange := s.exchange.cancel p.token } (some p.cancel) log
  /-- The requests of the pass are cancelled, and it is dropped. -/
  | superseded {s : Session} {p : Pass} {log : List (Document × Marker)}
      (h : Reached setup s (some p) log) :
      Reached setup { s with exchange := s.exchange.cancel p.token } none log
  /-- The pass is dropped. -/
  | dropped {s : Session} {p? : Option Pass} {log : List (Document × Marker)}
      (h : Reached setup s p? log) : Reached setup s none log

/-- One small step of a filter, with the commands it applies and the markers it makes. -/
inductive Moved (setup : FilterSetup) : Session → Option Pass → List FilterCommand →
    List (Document × Marker) → Session → Option Pass → Prop where
  | turned (s : Session) (p? : Option Pass) (document : Option Document) :
      Moved setup s p? [] [] { s with document } p?
  | began (s : Session) (p? : Option Pass) (command : FilterCommand) (isCancelled : Bool) :
      Moved setup s p? [command] [] (s.begin command isCancelled).1 (s.begin command isCancelled).2
  | prepared (s : Session) (p : Pass) :
      Moved setup s (some p) [] [] (p.prepare setup s).1 (some (p.prepare setup s).2)
  | read {s s' : Session} {p p' : Pass} (hread : p.readRecord s = some (s', p')) :
      Moved setup s (some p) [] p.marked s' (some p')
  | settled {s : Session} {p : Pass} (hread : p.readRecord s = none) :
      Moved setup s (some p) [] [] (p.readOn s).1 (some (p.readOn s).2)
  | cancelled (s : Session) (p : Pass) :
      Moved setup s (some p) [] [] { s with exchange := s.exchange.cancel p.token } (some p.cancel)
  | superseded (s : Session) (p : Pass) :
      Moved setup s (some p) [] [] { s with exchange := s.exchange.cancel p.token } none
  | dropped (s : Session) (p? : Option Pass) : Moved setup s p? [] [] s none

inductive Moves (setup : FilterSetup) (s : Session) (p? : Option Pass) :
    List FilterCommand → List (Document × Marker) → Session → Option Pass → Prop where
  | refl : Moves setup s p? [] [] s p?
  | step {commands more : List FilterCommand} {made made' : List (Document × Marker)}
      {s' s'' : Session} {p?' p?'' : Option Pass} (h : Moves setup s p? commands made s' p?')
      (hmoved : Moved setup s' p?' more made' s'' p?'') :
      Moves setup s p? (commands ++ more) (made ++ made') s'' p?''

theorem Moved.moves {setup : FilterSetup} {s s' : Session} {p? p?' : Option Pass}
    {commands : List FilterCommand} {made : List (Document × Marker)}
    (h : Moved setup s p? commands made s' p?') : Moves setup s p? commands made s' p?' :=
  Moves.refl.step h

theorem Moved.state {setup : FilterSetup} {s s' : Session} {p? p?' : Option Pass}
    {commands : List FilterCommand} {made : List (Document × Marker)}
    (h : Moved setup s p? commands made s' p?') :
    s'.filter.state = commands.foldl FilterState.after s.filter.state := by
  cases h with
  | turned _ document => rfl
  | began _ command isCancelled => exact s.begin_state command isCancelled
  | prepared p => exact (p.prepare_quiet setup s).agrees.state
  | read hread =>
      obtain ⟨review, record, feed, -, -, rfl, -⟩ := Pass.readRecord_eq_some hread
      rfl
  | settled hread => exact (Pass.readOn_agrees hread).state
  | cancelled p => rfl
  | superseded p => rfl
  | dropped => rfl

theorem Moves.state {setup : FilterSetup} {s s' : Session} {p? p?' : Option Pass}
    {commands : List FilterCommand} {made : List (Document × Marker)}
    (h : Moves setup s p? commands made s' p?') :
    s'.filter.state = commands.foldl FilterState.after s.filter.state := by
  induction h with
  | refl => rfl
  | step _ hmoved ih => rw [hmoved.state, ih, List.foldl_append]

namespace Moves

variable {setup : FilterSetup} {s s' s'' : Session} {p? p?' p?'' : Option Pass}
  {commands more : List FilterCommand} {made made' : List (Document × Marker)}

theorem trans (h : Moves setup s p? commands made s' p?')
    (h' : Moves setup s' p?' more made' s'' p?'') :
    Moves setup s p? (commands ++ more) (made ++ made') s'' p?'' := by
  induction h' with
  | refl =>
      rw [List.append_nil, List.append_nil]
      exact h
  | step _ hmoved ih =>
      rw [← List.append_assoc, ← List.append_assoc]
      exact ih.step hmoved

/-- Reading on in a review is taking in one record after the other. -/
theorem readOn (setup : FilterSetup) (s : Session) (p : Pass) :
    ∃ made, Moves setup s (some p) [] made (p.readOn s).1 (some (p.readOn s).2) := by
  cases hread : p.readRecord s with
  | none => exact ⟨[], (Moved.settled hread).moves⟩
  | some next =>
      obtain ⟨s', p'⟩ := next
      obtain ⟨made, hmade⟩ := readOn setup s' p'
      rw [Pass.readOn_of_readRecord hread]
      exact ⟨p.marked ++ made, (Moved.read hread).moves.trans hmade⟩
termination_by p.unread
decreasing_by
  show Prod.Lex _ _ p'.unread p.unread
  exact Pass.readRecord_lt hread

theorem advance (setup : FilterSetup) (s : Session) (p : Pass) :
    ∃ made, Moves setup s (some p) [] made (p.advance setup s).1 (some (p.advance setup s).2) := by
  obtain ⟨made, hmade⟩ := readOn setup (p.prepare setup s).1 (p.prepare setup s).2
  exact ⟨made, (Moved.prepared s p).moves.trans hmade⟩

theorem handle (setup : FilterSetup) (s : Session) (p? : Option Pass) (command : FilterCommand)
    (isCancelled : Bool) :
    ∃ made, Moves setup s p? [command] made (s.handle setup command isCancelled).1
      (s.handle setup command isCancelled).2 := by
  have hbegan := @Moved.began setup s p? command isCancelled |>.moves
  rw [Session.handle]
  split
  · next hbegin =>
      rw [hbegin] at hbegan
      exact ⟨[], hbegan⟩
  · next s' p' hbegin =>
      rw [hbegin] at hbegan
      obtain ⟨made, hmade⟩ := advance setup s' p'
      exact ⟨made, hbegan.trans hmade⟩

theorem initialLoad (setup : FilterSetup) (s : Session) (p? : Option Pass) (isCancelled : Bool) :
    ∃ made, Moves setup s p? [.initialLoad] made (s.initialLoad setup isCancelled).1
      (some (s.initialLoad setup isCancelled).2) :=
  handle setup s p? .initialLoad isCancelled

theorem toggle (setup : FilterSetup) (s : Session) (p? : Option Pass) (severity : Severity)
    (isCancelled : Bool) :
    ∃ made, Moves setup s p? [.toggle severity] made (s.toggle setup severity isCancelled).1
      (s.toggle setup severity isCancelled).2.2 := by
  have hhandle := handle setup s p? (.toggle severity) isCancelled
  rw [Session.handle_toggle] at hhandle
  exact hhandle

theorem driveStep (setup : FilterSetup) (d : Drive) :
    ∃ made, Moves setup d.session d.pass d.atHand.toList made (d.step setup).1.session
      (d.step setup).1.pass := by
  cases (Drive.stepped setup d).changed with
  | rested hatHand hsession hpass =>
      rw [hatHand, hsession, hpass]
      exact ⟨[], .refl⟩
  | @took command hatHand hsession hpass =>
      rw [hatHand, hsession, hpass]
      exact ⟨[], (Moved.began d.session d.pass command false).moves⟩
  | @superseded p hatHand hbefore hsession hpass =>
      rw [hatHand, hbefore, hsession, hpass]
      exact ⟨[], (Moved.superseded d.session p).moves⟩
  | @ran p hatHand hbefore hsession hpass =>
      obtain ⟨made, hmade⟩ := advance setup d.session p
      rw [hatHand, hbefore, hsession, hpass]
      split
      · have hdropped := hmade.step (Moved.dropped _ _)
        rw [List.append_nil, List.append_nil] at hdropped
        exact ⟨made, hdropped⟩
      · exact ⟨made, hmade⟩

theorem act (setup : FilterSetup) (r : Drive.Run) (action : Drive.Action) :
    ∃ commands made, Moves setup r.drive.session r.drive.pass commands made
      (r.act setup action).drive.session (r.act setup action).drive.pass ∧
        (r.act setup action).applied = r.applied ++ commands := by
  cases action with
  | arrive command =>
      refine ⟨[], [], ?_, (List.append_nil _).symm⟩
      rw [Drive.Run.act, Drive.arrive]
      split
      · exact .refl
      · exact .refl
  | close => exact ⟨[], [], .refl, (List.append_nil _).symm⟩
  | turn document => exact ⟨[], [], (Moved.turned _ _ document).moves, (List.append_nil _).symm⟩
  | step =>
      obtain ⟨made, hmade⟩ := driveStep setup r.drive
      exact ⟨r.drive.atHand.toList, made, hmade, Drive.Run.applied_step setup r⟩

/-- Whatever happens to a drive, it takes small steps of the filter. -/
theorem drive (setup : FilterSetup) (s : Session) (p? : Option Pass)
    (actions : List Drive.Action) :
    ∃ made, Moves setup s p? (Drive.Run.ofActions setup s actions).applied made
      (Drive.Run.ofActions setup s actions).drive.session
      (Drive.Run.ofActions setup s actions).drive.pass := by
  have hrun : ∀ r : Drive.Run, ∃ commands made,
      Moves setup r.drive.session r.drive.pass commands made
        (actions.foldl (Drive.Run.act setup) r).drive.session
        (actions.foldl (Drive.Run.act setup) r).drive.pass ∧
          (actions.foldl (Drive.Run.act setup) r).applied = r.applied ++ commands := by
    induction actions with
    | nil => exact fun r => ⟨[], [], .refl, (List.append_nil _).symm⟩
    | cons action actions ih =>
        intro r
        obtain ⟨first, made, hfirst, happlied⟩ := act setup r action
        obtain ⟨more, made', hmore, happlied'⟩ := ih (r.act setup action)
        refine ⟨first ++ more, made ++ made', hfirst.trans hmore, ?_⟩
        rw [List.foldl_cons, happlied', happlied, List.append_assoc]
  obtain ⟨commands, made, hmoves, happlied⟩ := hrun { drive := { session := s } }
  rw [Drive.Run.ofActions, happlied]
  exact ⟨made, (Moved.dropped s p?).moves.trans hmoves⟩

end Moves

namespace Reached

variable {setup : FilterSetup} {s s' : Session} {p : Pass} {p? p?' : Option Pass}
  {commands : List FilterCommand} {log made : List (Document × Marker)}

theorem moved (h : Reached setup s p? log) (hmoved : Moved setup s p? commands made s' p?') :
    Reached setup s' p?' (log ++ made) := by
  cases hmoved with
  | turned _ document => simpa using h.turned document
  | began _ command isCancelled => simpa using h.began command isCancelled
  | prepared p => simpa using h.prepared
  | read hread => exact h.read hread
  | settled hread => simpa using h.settled hread
  | cancelled p => simpa using h.cancelled
  | superseded p => simpa using h.superseded
  | dropped => simpa using h.dropped

theorem moves (h : Reached setup s p? log) (hmoves : Moves setup s p? commands made s' p?') :
    Reached setup s' p?' (log ++ made) := by
  induction hmoves with
  | refl =>
      rw [List.append_nil]
      exact h
  | step _ hmoved ih =>
      rw [← List.append_assoc]
      exact ih.moved hmoved

theorem advance (h : Reached setup s (some p) log) :
    ∃ more, Reached setup (p.advance setup s).1 (some (p.advance setup s).2) (log ++ more) :=
  (Moves.advance setup s p).imp fun _ => h.moves

theorem handle (h : Reached setup s p? log) (command : FilterCommand) (isCancelled : Bool) :
    ∃ more, Reached setup (s.handle setup command isCancelled).1
      (s.handle setup command isCancelled).2 (log ++ more) :=
  (Moves.handle setup s p? command isCancelled).imp fun _ => h.moves

theorem initialLoad (h : Reached setup s p? log) (isCancelled : Bool) :
    ∃ more, Reached setup (s.initialLoad setup isCancelled).1
      (some (s.initialLoad setup isCancelled).2) (log ++ more) :=
  (Moves.initialLoad setup s p? isCancelled).imp fun _ => h.moves

theorem toggle (h : Reached setup s p? log) (severity : Severity) (isCancelled : Bool) :
    ∃ more, Reached setup (s.toggle setup severity isCancelled).1
      (s.toggle setup severity isCancelled).2.2 (log ++ more) :=
  (Moves.toggle setup s p? severity isCancelled).imp fun _ => h.moves

theorem drive (h : Reached setup s p? log) (actions : List Drive.Action) :
    ∃ more, Reached setup (Drive.Run.ofActions setup s actions).drive.session
      (Drive.Run.ofActions setup s actions).drive.pass (log ++ more) :=
  (Moves.drive setup s p? actions).imp fun _ => h.moves

end Reached

end Marginalia
