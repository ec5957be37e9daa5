import Marginalia.Proofs.Review

/-!
# Reviews that are cancelled

A review of which the request is cancelled fails as cancelled, wherever in its reply that
happens.  By then it has marked what the records in front of that place ask for, one by one,
as the same review does that nobody cancels and that goes on from there.
-/

namespace Marginalia

namespace Model

def undisturbed (events : List Event) : List Event :=
  events.filter (· ≠ .cancellation)

def untilCancelled (events : List Event) : List Event :=
  events.takeWhile (· ≠ .cancellation)

theorem heard_undisturbed (events : List Event) : heard (undisturbed events) = heard events := by
  induction events with
  | nil => rfl
  | cons event events ih =>
      rw [undisturbed] at ih ⊢
      cases event with
      | fragment text => exact congrArg (text :: ·) ih
      | failure failure => rfl
      | cancellation => exact ih
      | pause => exact ih
      | stall => rfl

theorem fires_undisturbed (events : List Event) : fires (undisturbed events) = false := by
  induction events with
  | nil => rfl
  | cons event events ih =>
      rw [undisturbed] at ih ⊢
      cases event with
      | fragment text => exact ih
      | failure failure => rfl
      | cancellation => exact ih
      | pause => exact ih
      | stall => rfl

theorem heard_untilCancelled (events : List Event) :
    heard (untilCancelled events) <+: heard events := by
  induction events with
  | nil => exact List.prefix_refl _
  | cons event events ih =>
      rw [untilCancelled] at ih ⊢
      cases event with
      | fragment text => exact List.cons_prefix_cons.mpr ⟨rfl, ih⟩
      | failure failure => exact List.nil_prefix
      | cancellation => exact List.nil_prefix
      | pause => exact ih
      | stall => exact List.nil_prefix

theorem untilCancelled_of_passed {used : List Event} (h : ∀ event ∈ used, event.isPassed = true)
    (more : List Event) : untilCancelled (used ++ .cancellation :: more) = used := by
  induction used with
  | nil => rfl
  | cons event used ih =>
      have hlater := ih fun e he => h e (List.mem_cons_of_mem event he)
      have hfirst := h event List.mem_cons_self
      rw [untilCancelled] at hlater ⊢
      cases event with
      | fragment text => exact congrArg (.fragment text :: ·) hlater
      | pause => exact congrArg (.pause :: ·) hlater
      | _ => cases hfirst

end Model

namespace Record.Feed

/-- A poll that finds the request cancelled while it goes on has read up to that place. -/
theorem exists_fired {feed final : Feed} (h : feed.next = .over final)
    (hbefore : feed.isCancelled = false) (hafter : final.isCancelled = true) :
    ∃ used last, feed.Passed used [] last ∧ last.ready = [] ∧
      last.events = .cancellation :: final.events := by
  obtain ⟨used, last, hpassed, hlast, hstops⟩ := passed_of_next_over h hbefore
  cases hstops with
  | finished hready hfinished =>
      rw [hlast] at hafter
      cases hafter
  | ended hready hevents hquiet =>
      rw [hquiet] at hafter
      cases hafter
  | failed hready hevents hquiet =>
      rw [hquiet] at hafter
      cases hafter
  | fired hready hfinished hevents _ => exact ⟨used, last, hpassed, hready, hevents⟩

end Record.Feed

namespace Review

open Record (ofEvents)

/-- A review that is cancelled before anything is read is over at once. -/
theorem reads_nothing {review : Review} (hcancelled : review.feed.isCancelled = true)
    (ledger : Ledger) :
    review.ReadsOn ledger [] review.feed.remaining (review.complete ledger) ∧
      (review.complete ledger).isOver = true ∧
        (review.complete ledger).review.feed.isCancelled = true := by
  have hnext := Record.Feed.next_of_isCancelled hcancelled
  have hadvance : review.advance ledger =
      ⟨{ review with feed := review.feed.finish }, ledger, [], true⟩ := by
    rw [advance, Record.Feed.fold_of_over hnext]
  have hcomplete : review.complete ledger =
      ⟨{ review with feed := review.feed.finish }, ledger, [], true⟩ := by
    rw [complete, hadvance]
    simp
  have hfires : review.feed.fires = true := by rw [Record.Feed.fires, hcancelled, Bool.true_or]
  rw [hcomplete]
  refine ⟨⟨rfl, rfl, rfl, rfl, fun _ => ⟨hcancelled.trans hfires.symm, fun hquiet => ?_⟩,
    fun hwaits => ?_, fun _ => ⟨[], review.feed, .refl _, rfl, hnext⟩, fun hwaits => ?_⟩,
    rfl, hcancelled⟩
  · rw [hfires] at hquiet
    cases hquiet
  · cases hwaits
  · cases hwaits

/-- A review that is cancelled while its reply is read takes in what comes before that. -/
theorem reads_untilCancelled {review : Review} {events : List Model.Event}
    (hfeed : review.feed = { events }) (hfires : Model.fires events = true) (ledger : Ledger) :
    ∃ left, review.ReadsOn ledger (ofEvents (Model.untilCancelled events)) left
        (review.complete ledger) ∧
      (review.complete ledger).isOver = true ∧
        (review.complete ledger).review.feed.isCancelled = true := by
  obtain ⟨read, left, hread, hwaits⟩ := review.exists_complete ledger
  have hfeedFires : review.feed.fires = true := by
    rw [hfeed]
    exact hfires
  have hover : (review.complete ledger).isOver = true := by
    cases hover : (review.complete ledger).isOver with
    | true => rfl
    | false =>
        have hstuck := (hwaits hover).fires
        rw [(hread.waiting hover).fires, hfeedFires] at hstuck
        cases hstuck
  have hcancelled := (hread.atEnd hover).1.trans hfeedFires
  obtain ⟨used, last, hpassed, hsame, hnext⟩ := hread.ended hover
  rw [hfeed] at hpassed hsame
  obtain ⟨used', stopped, hpassed', hready, hevents⟩ :=
    Record.Feed.exists_fired hnext hsame hcancelled
  have hall := hpassed.trans hpassed'
  have hsplit : events = used ++ used' ++ stopped.events := hall.events
  have hrecords : ofEvents (used ++ used') = read := by
    have hgiven := hall.ready
    rw [hready, List.append_nil, List.append_nil] at hgiven
    exact hgiven
  have huntil : Model.untilCancelled events = used ++ used' := by
    rw [hsplit, hevents]
    exact Model.untilCancelled_of_passed hall.isPassed _
  rw [huntil, hrecords]
  exact ⟨left, hread, hover, hcancelled⟩

/-- The records of a reply that come before its request is cancelled, beforehand or on the way. -/
def recordsBefore (isCancelled : Bool) (events : List Model.Event) : List Record :=
  if isCancelled then [] else ofEvents (Model.untilCancelled events)

theorem recordsBefore_prefix (isCancelled : Bool) (events : List Model.Event) :
    recordsBefore isCancelled events <+: ofEvents (Model.undisturbed events) := by
  cases isCancelled with
  | true => exact List.nil_prefix
  | false =>
      refine Record.Decoder.pushAll_prefix ?_
      rw [Model.heard_undisturbed]
      exact Model.heard_untilCancelled events

theorem reads_recordsBefore (review : Review) {isCancelled : Bool} {events : List Model.Event}
    (hfeed : review.feed = { events, isCancelled })
    (hfires : isCancelled = true ∨ Model.fires events = true) (ledger : Ledger) :
    ∃ left, review.ReadsOn ledger (recordsBefore isCancelled events) left
        (review.complete ledger) ∧
      (review.complete ledger).isOver = true ∧
        (review.complete ledger).review.feed.isCancelled = true := by
  cases isCancelled with
  | true => exact ⟨_, reads_nothing (by rw [hfeed]) ledger⟩
  | false => exact reads_untilCancelled hfeed (hfires.resolve_left Bool.false_ne_true) ledger

/-- What a review comes to of which the request is answered with a stream. -/
theorem exists_run_of_stream {r : Reviewer} {model : Nat} {x : Model.Exchange}
    {events : List Model.Event} (hmodel : r.model? = some model)
    (hanswer : x.answer 0 = .stream events) (d : Document) (ledger : Ledger)
    (fileContext : List Message) (color : String) (signal : Signal) (isCancelled : Bool) :
    ∃ exchange,
      let review : Review := { document := d, signal, color, feed := { events, isCancelled } }
      let a := review.complete ledger
      Review.run r (some d) ledger fileContext color signal isCancelled x =
        { outcome := a.review.outcome, ledger := a.ledger, events := a.events, exchange
          isOver := a.isOver } := by
  obtain ⟨x', -, -, hstart⟩ := start_of_model fileContext color signal x.fresh isCancelled d hmodel
    (Model.Exchange.Since.refl x).issue
  rw [List.length_nil, hanswer] at hstart
  exact ⟨_, run_of_review ledger hstart⟩

/-! ## Two reviews of one reply -/

/-- A review that made the first markers of another one, and told the host of them. -/
structure Run.Truncates (run full : Run) (d : Document) (ledger : Ledger)
    (markers more : List Marker) : Prop where
  rendered : run.ledger.rendered d.id = ledger.rendered d.id ++ markers
  full_rendered : full.ledger.rendered d.id = ledger.rendered d.id ++ (markers ++ more)
  others : ∀ id, d.id ≠ id → run.ledger.shelf? id = ledger.shelf? id ∧
    full.ledger.shelf? id = ledger.shelf? id
  events : run.events <+: full.events

/-- Of two reviews of one document alike, one takes in more records than the other. -/
theorem truncates_of_reads {review review' : Review} {ledger : Ledger}
    {read more left left' : List Record} {a a' : Advanced} (hresumes : review.Resumes review')
    (hread : review.ReadsOn ledger read left a)
    (hread' : review'.ReadsOn ledger (read ++ more) left' a')
    (outcome outcome' : Except ReviewFailure Tally) (exchange exchange' : Model.Exchange)
    (isOver isOver' : Bool) :
    Run.Truncates ⟨outcome, a.ledger, a.events, exchange, isOver⟩
      ⟨outcome', a'.ledger, a'.events, exchange', isOver'⟩ review.document ledger
      (read.filterMap review.marker?) (more.filterMap review.marker?) := by
  have hmarked := hread'.marked
  have htold := hread'.told
  rw [hresumes.document, hresumes.marker?_eq, List.filterMap_append] at hmarked htold
  refine ⟨?_, ?_, fun id hid => ⟨?_, ?_⟩, ?_⟩
  · dsimp only
    rw [hread.rendered, if_pos rfl]
  · dsimp only
    rw [hmarked, Ledger.rendered_addAll, if_pos rfl]
  · dsimp only
    rw [hread.marked, Ledger.shelf?_addAll_of_ne _ hid]
  · dsimp only
    rw [hmarked, Ledger.shelf?_addAll_of_ne _ hid]
  · dsimp only
    rw [hread.told, htold, HostEvent.announcements_append]
    exact List.prefix_append _ _

/--
A review of which the request is cancelled beforehand or while its reply is read comes to an
end and fails as cancelled.  It has marked what the records ask for that came before that,
and told the host so; the same review with a request that is not cancelled goes on from there.
-/
theorem run_truncated (r : Reviewer) (d : Document) (ledger : Ledger)
    (fileContext : List Message) (color : String) (signal : Signal) (isCancelled : Bool)
    (events : List Model.Event) (x x' : Model.Exchange) {model : Nat}
    (hmodel : r.model? = some model) (hanswer : x.answer 0 = .stream events)
    (hanswer' : x'.answer 0 = .stream (Model.undisturbed events))
    (hfires : isCancelled = true ∨ Model.fires events = true) :
    let run := Review.run r (some d) ledger fileContext color signal isCancelled x
    let full := Review.run r (some d) ledger fileContext color signal false x'
    run.isOver = true ∧ run.outcome = .error .cancelled ∧
      ∃ more, run.Truncates full d ledger
        (d.markersFor signal color (recordsBefore isCancelled events)) more := by
  intro run full
  let review : Review := { document := d, signal, color, feed := { events, isCancelled } }
  let calm : Review :=
    { document := d, signal, color, feed := { events := Model.undisturbed events } }
  have hresumes : review.Resumes calm := ⟨rfl, rfl, rfl⟩
  obtain ⟨exchange, hrun⟩ :=
    exists_run_of_stream hmodel hanswer d ledger fileContext color signal isCancelled
  obtain ⟨exchange', hfull⟩ :=
    exists_run_of_stream hmodel hanswer' d ledger fileContext color signal false
  obtain ⟨left, hread, hover, hcancelled⟩ := review.reads_recordsBefore rfl hfires ledger
  obtain ⟨more, hmore⟩ := recordsBefore_prefix isCancelled events
  have hremaining : calm.feed.remaining = recordsBefore isCancelled events ++ more := hmore.symm
  obtain ⟨left', hread', -⟩ := calm.reads_remaining ledger (Model.fires_undisturbed events)
  rw [hremaining] at hread'
  have hsmall : ∀ record ∈ recordsBefore isCancelled events, record.IsSmall := by
    intro record hrecord
    have hmem : record ∈ ofEvents (Model.undisturbed events) :=
      hmore ▸ List.mem_append_left more hrecord
    exact Record.Decoder.isSmall_of_mem_pushAll hmem
  rw [show run = _ from hrun, show full = _ from hfull]
  refine ⟨hover, ?_, more.filterMap review.marker?, ?_⟩
  · dsimp only
    rw [outcome, hcancelled]
    rfl
  · have htruncates := truncates_of_reads hresumes hread hread'
    rw [filterMap_marker? review hsmall] at htruncates
    exact htruncates _ _ _ _ _ _

/-- Two records with a pause in the second one, and a cancellation in the third one. -/
def interruptedReply : List Model.Event :=
  [.fragment "\x7b\"line\":1,\"severity\":\"red\",\"suggestion\":\"a\"\x7d\x7b\"line\":2,",
    .pause, .fragment "\"severity\":\"red\",\"suggestion\":\"b\"\x7d \x7b\"line\":1,",
    .cancellation, .fragment "\"severity\":\"red\",\"suggestion\":\"c\"\x7d", .stall]

theorem run_interruptedReply :
    let d : Document := { id := "main.rs", lines := ["fn main()", "  run();"] }
    let r : Reviewer := { catalog := ⟨[⟨"test", "scripted"⟩]⟩ }
    let run := Review.run r (some d) {} [] "red" (.display .red) false
      { replies := [.stream interruptedReply] }
    let full := Review.run r (some d) {} [] "red" (.display .red) false
      { replies := [.stream (Model.undisturbed interruptedReply)] }
    Model.fires interruptedReply = true ∧ run.isOver = true ∧ run.outcome = .error .cancelled ∧
      (∃ more, run.Truncates full d {}
        [⟨.red, "a", "red", ⟨1, 0, 9⟩⟩, ⟨.red, "b", "red", ⟨2, 2, 8⟩⟩] more) := by
  intro d r run full
  have hfires : Model.fires interruptedReply = true := by decide
  have hmodel : r.model? = some 0 := by decide +kernel
  have hmarkers : d.markersFor (.display .red) "red" (recordsBefore false interruptedReply) =
      [⟨.red, "a", "red", ⟨1, 0, 9⟩⟩, ⟨.red, "b", "red", ⟨2, 2, 8⟩⟩] := by
    decide +kernel
  obtain ⟨hover, houtcome, more, htruncates⟩ :=
    run_truncated r d {} [] "red" (.display .red) false interruptedReply
      { replies := [.stream interruptedReply] }
      { replies := [.stream (Model.undisturbed interruptedReply)] } hmodel rfl rfl (.inr hfires)
  rw [hmarkers] at htruncates
  exact ⟨hfires, hover, houtcome, more, htruncates⟩

end Review

end Marginalia
