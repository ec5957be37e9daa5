import Marginalia.Proofs.Display
import Marginalia.Proofs.Exchange
import Marginalia.Proofs.Record.Remaining

/-!
# What a review comes to

A review counts every record of its reply and marks those that the signal selects on lines
that the document has, in the order of the reply; each marker is told to the host as it is
made.  A review that fails changes nothing.
-/

namespace Marginalia

/-! ## Markers of records -/

/-- The markers that the records of a severity make on the lines that a document has. -/
def Document.markersOf (d : Document) (severity : Severity) (color : String)
    (records : List Record) : List Marker :=
  let shown := records.filter fun record =>
    record.severity = .known severity && d.hasLine record.line
  shown.map fun record =>
    ⟨severity, record.suggestion.text, color,
      .ofLine record.line ((d.line? record.line).getD "")⟩

def Document.markersFor (d : Document) (signal : Signal) (color : String)
    (records : List Record) : List Marker :=
  match signal with
  | .display severity => d.markersOf severity color records
  | .initialLoad => []

theorem Document.markersOf_append (d : Document) (severity : Severity) (color : String)
    (records more : List Record) :
    d.markersOf severity color (records ++ more) =
      d.markersOf severity color records ++ d.markersOf severity color more := by
  rw [markersOf, List.filter_append, List.map_append]
  rfl

theorem Document.line?_of_hasLine {d : Document} {n : Nat} (h : d.hasLine n = true) :
    ∃ text, d.line? n = some text := by
  simp only [hasLine, lineCount, Bool.and_eq_true, decide_eq_true_eq, Nat.le_min] at h
  obtain ⟨hpos, hlength, -⟩ := h
  have hlt : n - 1 < d.lines.length := by omega
  have hne : n ≠ 0 := by omega
  exact ⟨d.lines[n - 1], by rw [line?, if_neg hne, List.getElem?_eq_getElem hlt]⟩

namespace Review

theorem marker?_of_initialLoad {review : Review} (hsignal : review.signal = .initialLoad)
    (record : Record) : review.marker? record = none := by
  rw [marker?, hsignal]
  rfl

theorem marker?_of_display {review : Review} {severity : Severity}
    (hsignal : review.signal = .display severity) {record : Record} (hsmall : record.IsSmall) :
    (review.marker? record).toList =
      review.document.markersOf severity review.color [record] := by
  have hfilter : review.document.markersOf severity review.color [record] =
      if record.severity = .known severity ∧ review.document.hasLine record.line = true then
        [⟨severity, record.suggestion.text, review.color,
          .ofLine record.line ((review.document.line? record.line).getD "")⟩]
      else [] := by
    rw [Document.markersOf]
    by_cases hshown : record.severity = .known severity ∧ review.document.hasLine record.line = true
    · simp [hshown]
    · simp [hshown]
  rw [hfilter, marker?, hsignal, Signal.renders]
  by_cases hseverity : record.severity = .known severity
  · rw [hseverity, RecordSeverity.severity?, beq_self_eq_true, if_pos rfl]
    by_cases hline : review.document.hasLine record.line = true
    · obtain ⟨text, htext⟩ := Document.line?_of_hasLine hline
      rw [if_pos ⟨rfl, hline⟩, htext]
      rfl
    · have hnone : review.document.line? record.line = none := by
        rw [← Option.not_isSome_iff_eq_none]
        exact fun hsome => hline (Document.hasLine_of_line? hsome hsmall)
      rw [if_neg fun h => hline h.2, hnone]
      rfl
  · have hother : record.severity.severity? ≠ some severity := by
      intro h
      cases hactual : record.severity with
      | known actual =>
          rw [hactual] at h
          cases h
          exact hseverity hactual
      | _ =>
          rw [hactual] at h
          cases h
    rw [if_neg (fun h => hother (beq_iff_eq.mp h)), if_neg fun h => hseverity h.1]
    rfl

theorem filterMap_cons_eq_append (review : Review) (record : Record) (records : List Record) :
    (record :: records).filterMap review.marker? =
      (review.marker? record).toList ++ records.filterMap review.marker? := by
  rw [List.filterMap_cons]
  cases review.marker? record with
  | none => rfl
  | some m => rfl

theorem filterMap_marker? (review : Review) {records : List Record}
    (hsmall : ∀ record ∈ records, record.IsSmall) :
    records.filterMap review.marker? =
      review.document.markersFor review.signal review.color records := by
  cases hsignal : review.signal with
  | initialLoad =>
      rw [List.filterMap_eq_nil_iff.mpr fun record _ => marker?_of_initialLoad hsignal record]
      rfl
  | display severity =>
      rw [Document.markersFor]
      induction records with
      | nil => rfl
      | cons record records ih =>
          have hrest := ih fun r hr => hsmall r (List.mem_cons_of_mem record hr)
          have hfirst := marker?_of_display hsignal (hsmall record List.mem_cons_self)
          rw [filterMap_cons_eq_append, hfirst, hrest]
          exact (Document.markersOf_append _ _ _ [record] records).symm

end Review

/-! ## Taking in records -/

def Tally.countAll (t : Tally) (records : List Record) : Tally :=
  records.foldl (fun t record => t.count record.severity) t

theorem Tally.get_countAll (t : Tally) (records : List Record) (severity : Severity) :
    (t.countAll records).get severity =
      t.get severity + records.countP fun record => record.severity = .known severity := by
  induction records generalizing t with
  | nil => rfl
  | cons record records ih =>
      have hcount : (t.count record.severity).get severity =
          t.get severity + if record.severity = .known severity then 1 else 0 := by
        cases hactual : record.severity with
        | known actual =>
            rw [count, RecordSeverity.severity?]
            dsimp only
            rw [get_bump]
            simp
        | _ => simp [count, RecordSeverity.severity?]
      rw [countAll, List.foldl_cons, ← countAll, ih, hcount, List.countP_cons]
      simp only [decide_eq_true_eq]
      omega

/-- A host that is told of markers as they are made shows them behind those it showed. -/
theorem Display.Mirrors.addAll {d : Display} {l : Ledger} (h : d.Mirrors l) (document : String)
    (markers : List Marker) :
    (d.replay (HostEvent.announcements document (l.rendered document) markers)).Mirrors
      (l.addAll document markers) := by
  induction markers generalizing d l with
  | nil => exact h
  | cons m markers ih =>
      have hrest := ih (h.add document m)
      rw [Ledger.rendered_add, if_pos rfl] at hrest
      exact hrest

namespace Review

/-- Records that are taken in are all counted, and make their markers in their order. -/
theorem foldl_take (review : Review) (p : Progress) (records : List Record) :
    records.foldl review.take p =
      { tally := p.tally.countAll records
        ledger := p.ledger.addAll review.document.id (records.filterMap review.marker?)
        events := p.events ++ HostEvent.announcements review.document.id
          (p.ledger.rendered review.document.id) (records.filterMap review.marker?) } := by
  induction records generalizing p with
  | nil => simp [Tally.countAll, Ledger.addAll, HostEvent.announcements]
  | cons record records ih =>
      rw [List.foldl_cons, ih, take_eq, filterMap_cons_eq_append, HostEvent.announcements_append,
        Ledger.rendered_addAll, if_pos rfl, Ledger.addAll, Ledger.addAll, Ledger.addAll,
        List.foldl_append, List.append_assoc]
      rfl

/-! ## Reading on -/

/--
What reading on does: some of the records that remain are taken in.  When it is over, these
were all, unless it was cancelled; when it waits, the others remain.
-/
structure ReadsOn (review : Review) (ledger : Ledger) (read left : List Record)
    (a : Advanced) : Prop where
  remaining : review.feed.remaining = read ++ left
  kept : a.review = { review with feed := a.review.feed, tally := review.tally.countAll read }
  marked : a.ledger = ledger.addAll review.document.id (read.filterMap review.marker?)
  told : a.events = HostEvent.announcements review.document.id
    (ledger.rendered review.document.id) (read.filterMap review.marker?)
  atEnd : a.isOver = true → a.review.feed.isCancelled = review.feed.fires ∧
    (review.feed.fires = false → left = [] ∧ review.feed.stalls = false)
  waiting : a.isOver = false → review.feed.Continues read a.review.feed
  /-- The poll that found the end was that of the feed behind the records that were taken in. -/
  ended : a.isOver = true → ∃ used last, review.feed.Passed used read last ∧
    last.isCancelled = review.feed.isCancelled ∧ last.next = .over a.review.feed
  paused : a.isOver = false → review.feed.isCancelled = false ∧
    ∃ used, review.feed.Passed used read a.review.feed

theorem exists_advance (review : Review) (ledger : Ledger) :
    ∃ read left, review.ReadsOn ledger read left (review.advance ledger) ∧
      ((review.advance ledger).isOver = false →
        (review.advance ledger).review.feed.events.length < review.feed.events.length ∨
          (review.advance ledger).review.feed.IsStuck) := by
  obtain ⟨read, last, ended, hread, hfold⟩ :=
    Record.Feed.exists_readOn review.take { tally := review.tally, ledger } review.feed
  refine ⟨read, last.remaining, ?_⟩
  rw [advance, hfold, foldl_take]
  obtain feed | feed := ended
  · obtain ⟨used, hpassed⟩ := hread.passed
    exact ⟨⟨hread.remaining, rfl, rfl, List.nil_append _, fun _ => hread.atEnd, nofun,
      fun _ => ⟨used, last, hpassed, hread.isCancelled, hread.next⟩, nofun⟩, nofun⟩
  · obtain ⟨hbefore, hpassed, hcontinues, hlength⟩ := hread.waiting
    exact ⟨⟨hread.remaining, rfl, rfl, List.nil_append _, nofun, fun _ => hcontinues, nofun,
      fun _ => ⟨hbefore, hpassed⟩⟩, fun _ => hlength⟩

structure Resumes (review review' : Review) : Prop where
  document : review'.document = review.document
  signal : review'.signal = review.signal
  color : review'.color = review.color

theorem Resumes.marker?_eq {review review' : Review} (h : review.Resumes review') :
    review'.marker? = review.marker? := by
  funext record
  rw [marker?, marker?, h.document, h.signal, h.color]

namespace ReadsOn

variable {review : Review} {ledger : Ledger} {read left : List Record} {a : Advanced}

theorem resumes (h : review.ReadsOn ledger read left a) : review.Resumes a.review := by
  rw [h.kept]
  exact ⟨rfl, rfl, rfl⟩

theorem rendered (h : review.ReadsOn ledger read left a) (id : String) :
    a.ledger.rendered id = ledger.rendered id ++
      if review.document.id = id then read.filterMap review.marker? else [] := by
  rw [h.marked, Ledger.rendered_addAll]

/-- After a wait, reading goes on with the records that are left. -/
theorem trans {read' left' : List Record} {b : Advanced}
    (h : review.ReadsOn ledger read left a) (hwaits : a.isOver = false)
    (h' : a.review.ReadsOn a.ledger read' left' b) :
    review.ReadsOn ledger (read ++ read') left' { b with events := a.events ++ b.events } := by
  have hcontinues := h.waiting hwaits
  have hresumes := h.resumes
  have hmarkers : (read ++ read').filterMap review.marker? =
      read.filterMap review.marker? ++ read'.filterMap a.review.marker? := by
    rw [hresumes.marker?_eq, List.filterMap_append]
  obtain ⟨hbefore, used, hpassed⟩ := h.paused hwaits
  have hflag := hcontinues.isCancelled.trans hbefore.symm
  refine ⟨?_, ?_, ?_, ?_, fun hover => ?_, fun hwaiting => ?_, fun hover => ?_,
    fun hwaiting => ?_⟩
  · rw [hcontinues.remaining, h'.remaining, List.append_assoc]
  · rw [h'.kept, h.kept, Tally.countAll, Tally.countAll, Tally.countAll, List.foldl_append]
  · rw [h'.marked, h.marked, hmarkers, hresumes.document, Ledger.addAll, Ledger.addAll,
      Ledger.addAll, List.foldl_append]
  · rw [h'.told, h.told, hmarkers, h.marked, hresumes.document, Ledger.rendered_addAll,
      if_pos rfl, HostEvent.announcements_append]
  · rw [← hcontinues.fires, ← hcontinues.stalls]
    exact h'.atEnd hover
  · have hlater := h'.waiting hwaiting
    refine ⟨?_, hlater.stalls.trans hcontinues.stalls, hlater.fires.trans hcontinues.fires,
      hlater.isCancelled⟩
    rw [hcontinues.remaining, hlater.remaining, List.append_assoc]
  · obtain ⟨used', last, hpassed', hsame, hnext⟩ := h'.ended hover
    exact ⟨_, last, hpassed.trans hpassed', hsame.trans hflag, hnext⟩
  · obtain ⟨-, used', hpassed'⟩ := h'.paused hwaiting
    exact ⟨hbefore, _, hpassed.trans hpassed'⟩

end ReadsOn

/-- Past its waits a review comes to the end of its reply, unless the reply stalls. -/
theorem exists_complete (review : Review) (ledger : Ledger) :
    ∃ read left, review.ReadsOn ledger read left (review.complete ledger) ∧
      ((review.complete ledger).isOver = false →
        (review.complete ledger).review.feed.IsStuck) := by
  induction hlength : review.feed.events.length using Nat.strongRecOn
    generalizing review ledger with
  | ind n ih =>
      obtain ⟨read, left, hread, hwait⟩ := exists_advance review ledger
      rw [complete]
      dsimp only
      split
      · next hgoesOn =>
          obtain ⟨hwaits, hlt⟩ := hgoesOn
          obtain ⟨read', left', hread', hstuck⟩ :=
            ih _ (hlength ▸ hlt) (review.advance ledger).review (review.advance ledger).ledger rfl
          exact ⟨read ++ read', left', hread.trans hwaits hread', hstuck⟩
      · next hstops =>
          refine ⟨read, left, hread, fun hwaits => ?_⟩
          exact (hwait hwaits).resolve_left fun hlt => hstops ⟨hwaits, hlt⟩

/-- A review that is not cancelled takes in all records that remain, even if its reply stalls. -/
theorem reads_remaining (review : Review) (ledger : Ledger) (hfires : review.feed.fires = false) :
    ∃ left, review.ReadsOn ledger review.feed.remaining left (review.complete ledger) ∧
      ((review.complete ledger).isOver = false → review.feed.stalls = true) := by
  obtain ⟨read, left, hread, hwaits⟩ := review.exists_complete ledger
  have hremaining : review.feed.remaining = read := by
    cases hover : (review.complete ledger).isOver with
    | true => rw [hread.remaining, ((hread.atEnd hover).2 hfires).1, List.append_nil]
    | false => rw [(hread.waiting hover).remaining, (hwaits hover).remaining, List.append_nil]
  rw [hremaining]
  refine ⟨left, hread, fun hover => ?_⟩
  exact (hread.waiting hover).stalls.symm.trans (hwaits hover).stalls

/-! ## Whole reviews -/

section

variable (r : Reviewer) (fileContext : List Message) (color : String) (signal : Signal)
  (token : Model.Token) (isCancelled : Bool) (x : Model.Exchange)

theorem start_of_no_document :
    start r none fileContext color signal token isCancelled x = (.error .noActiveDocument, x) :=
  rfl

variable {r} (d : Document)

theorem start_of_no_model (hmodel : r.model? = none) :
    start r (some d) fileContext color signal token isCancelled x =
      (.error .noModelAvailable, x) := by
  rw [start, hmodel]

theorem start_of_model {model : Nat} (hmodel : r.model? = some model)
    {origin x : Model.Exchange} {made : List Model.Request} (hsince : origin.Since x made) :
    ∃ x', origin.Since x' (made ++ [⟨model, r.messages d fileContext, token⟩]) ∧
      x'.cancelled = x.cancelled ∧
      start r (some d) fileContext color signal token isCancelled x =
        (match origin.answer made.length with
          | .refused failure => .error (.ofModel failure)
          | .stream events =>
              .ok { document := d, signal, color, feed := { events, isCancelled } }, x') := by
  obtain ⟨hreply, hsent⟩ := hsince.send ⟨model, r.messages d fileContext, token⟩
  refine ⟨_, hsent, x.cancelled_send _, ?_⟩
  rw [start, hmodel, ← hreply]
  dsimp only
  cases x.send ⟨model, r.messages d fileContext, token⟩ with
  | mk reply sent =>
      cases reply with
      | refused failure => rfl
      | stream events => rfl

end

section

variable {r : Reviewer} {document : Option Document} {fileContext : List Message}
  {color : String} {signal : Signal} {isCancelled : Bool} {x x' : Model.Exchange}

theorem run_of_failure {failure : ReviewFailure} (ledger : Ledger)
    (h : start r document fileContext color signal x.fresh isCancelled x.issue.2 =
      (.error failure, x')) :
    Review.run r document ledger fileContext color signal isCancelled x =
      { outcome := .error failure, ledger, events := []
        exchange := x'.cancelIf x.fresh isCancelled } := by
  rw [Review.run]
  dsimp only [Model.Exchange.issue] at h ⊢
  rw [h]

theorem run_of_review {review : Review} (ledger : Ledger)
    (h : start r document fileContext color signal x.fresh isCancelled x.issue.2 =
      (.ok review, x')) :
    Review.run r document ledger fileContext color signal isCancelled x =
      let a := review.complete ledger
      { outcome := a.review.outcome, ledger := a.ledger, events := a.events
        exchange := x'.cancelIf x.fresh a.review.feed.isCancelled, isOver := a.isOver } := by
  rw [Review.run]
  dsimp only [Model.Exchange.issue] at h ⊢
  rw [h]

end

structure Run.Fails (run : Run) (failure : ReviewFailure) (ledger : Ledger) : Prop where
  outcome : run.outcome = .error failure
  isOver : run.isOver = true
  ledger : run.ledger = ledger
  events : run.events = []

/-- A review that counted these records and made these markers on a document. -/
structure Run.Completes (run : Run) (records : List Record) (markers : List Marker)
    (d : Document) (ledger : Ledger) : Prop where
  outcome : ∃ tally, run.outcome = .ok tally ∧ ∀ severity,
    tally.get severity = records.countP fun record => record.severity = .known severity
  isOver : run.isOver = true
  rendered : run.ledger.rendered d.id = ledger.rendered d.id ++ markers
  events : run.events = HostEvent.announcements d.id (ledger.rendered d.id) markers

theorem completes_of_review {review : Review} (ledger : Ledger) (exchange : Model.Exchange)
    (htally : review.tally = {}) (hfires : review.feed.fires = false)
    (hstalls : review.feed.stalls = false)
    (hsmall : ∀ record ∈ review.feed.remaining, record.IsSmall) :
    let a := review.complete ledger
    Run.Completes ⟨a.review.outcome, a.ledger, a.events, exchange, a.isOver⟩
      review.feed.remaining
      (review.document.markersFor review.signal review.color review.feed.remaining)
      review.document ledger := by
  obtain ⟨left, hread, hwaits⟩ := review.reads_remaining ledger hfires
  have hover : (review.complete ledger).isOver = true := by
    cases h : (review.complete ledger).isOver with
    | true => rfl
    | false => exact absurd (hwaits h) (by simp [hstalls])
  obtain ⟨hcancelled, -⟩ := hread.atEnd hover
  rw [← filterMap_marker? review hsmall]
  refine ⟨⟨review.tally.countAll review.feed.remaining, ?_, fun severity => ?_⟩, hover, ?_,
    hread.told⟩
  · dsimp only
    rw [Review.outcome, hcancelled, hfires, hread.kept]
    rfl
  · rw [Tally.get_countAll, htally]
    cases severity with
    | _ => exact Nat.zero_add _
  · dsimp only
    rw [hread.rendered, if_pos rfl]

/-- What a review leaves alone whose request is not cancelled. -/
theorem keeps_of_review (review : Review) (ledger : Ledger) (hfires : review.feed.fires = false) :
    let a := review.complete ledger
    a.review.feed.isCancelled = false ∧ (review.feed.stalls = true → a.isOver = false) ∧
      (∀ id, review.document.id ≠ id → a.ledger.shelf? id = ledger.shelf? id) ∧
        (review.signal = .initialLoad → a.ledger = ledger ∧ a.events = []) := by
  intro a
  obtain ⟨read, left, hread, -⟩ := review.exists_complete ledger
  refine ⟨?_, fun hstalls => ?_, fun id hid => ?_, fun hsignal => ?_⟩
  · cases hover : a.isOver with
    | true => exact (hread.atEnd hover).1.trans hfires
    | false => exact (hread.waiting hover).isCancelled
  · cases hover : a.isOver with
    | true => exact absurd ((hread.atEnd hover).2 hfires).2 (by simp [hstalls])
    | false => rfl
  · rw [show a.ledger = _ from hread.marked]
    exact ledger.shelf?_addAll_of_ne hid _
  · have hnone : read.filterMap review.marker? = [] :=
      List.filterMap_eq_nil_iff.mpr fun record _ => marker?_of_initialLoad hsignal record
    rw [show a.ledger = _ from hread.marked, show a.events = _ from hread.told, hnone]
    exact ⟨rfl, rfl⟩

/--
A review without a document, and then one without a model, fails without a request; one of
which the request is refused fails with the reason.  All leave markers and host as they were.
Any other one that is not cancelled comes to an end unless its reply stalls, with the tally
of all records up to the first failure of the reply, and has made the markers that the signal
selects among them, told one by one; other documents keep their markers.
-/
theorem run_outcome (r : Reviewer) (document : Option Document) (ledger : Ledger)
    (fileContext : List Message) (color : String) (signal : Signal) (x : Model.Exchange) :
    let run := Review.run r document ledger fileContext color signal false x
    (document = none →
      run.Fails .noActiveDocument ledger ∧ run.exchange.requests = x.requests) ∧
    (∀ d, document = some d → r.model? = none →
      run.Fails .noModelAvailable ledger ∧ run.exchange.requests = x.requests) ∧
    ∀ d model, document = some d → r.model? = some model →
      run.exchange.requests = x.requests ++ [⟨model, r.messages d fileContext, x.fresh⟩] ∧
      (∀ failure, x.answer 0 = .refused failure →
        run.Fails (if failure = .cancelled then .cancelled else .model failure) ledger) ∧
      ∀ events, x.answer 0 = .stream events → Model.fires events = false →
        let records := Record.ofEvents events
        (Model.stalls events = false →
          run.Completes records (d.markersFor signal color records) d ledger) ∧
        (Model.stalls events = true → run.isOver = false) ∧
        (∀ id, d.id ≠ id → run.ledger.shelf? id = ledger.shelf? id) ∧
        (signal = .initialLoad → run.ledger = ledger ∧ run.events = []) ∧
        run.exchange.isCancelled x.fresh = x.isCancelled x.fresh := by
  intro run
  refine ⟨?_, ?_, ?_⟩
  · rintro rfl
    exact ⟨⟨rfl, rfl, rfl, rfl⟩, rfl⟩
  · rintro d rfl hmodel
    have hstart := start_of_no_model fileContext color signal x.fresh false x.issue.2 d hmodel
    rw [show run = _ from run_of_failure ledger hstart]
    exact ⟨⟨rfl, rfl, rfl, rfl⟩, rfl⟩
  · rintro d model rfl hmodel
    obtain ⟨x', hsince, hcancelled, hstart⟩ := start_of_model fileContext color signal x.fresh
      false d hmodel (Model.Exchange.Since.refl x).issue
    rw [List.length_nil] at hstart
    cases hanswer : x.answer 0 with
    | refused failure =>
        rw [hanswer] at hstart
        rw [show run = _ from run_of_failure ledger hstart]
        refine ⟨(hsince.cancelIf x.fresh false).requests, fun failure' hfailure => ?_, nofun⟩
        cases hfailure
        refine ⟨?_, rfl, rfl, rfl⟩
        cases failure with
        | _ => rfl
    | stream events =>
        rw [hanswer] at hstart
        rw [show run = _ from run_of_review ledger hstart]
        refine ⟨(hsince.cancelIf x.fresh _).requests, nofun, fun events' hevents hfires => ?_⟩
        cases hevents
        obtain ⟨hquiet, hwaits, hothers, hload⟩ :=
          keeps_of_review { document := d, signal, color, feed := { events } } ledger hfires
        refine ⟨fun hstalls => ?_, hwaits, hothers, hload, ?_⟩
        · exact completes_of_review ledger _ rfl hfires hstalls
            fun record hrecord => Record.Decoder.isSmall_of_mem_pushAll hrecord
        · dsimp only
          rw [hquiet]
          exact congrArg (List.contains · x.fresh) hcancelled

/-- A reply with a record outside the document, one of another severity and one after a failure. -/
def brokenReply : List Model.Event :=
  [.fragment "[\x7b\"line\":2,\"severity\":\"red\",\"suggestion\":\"a\"\x7d,\x7b\"line\":9,\"seve",
    .pause, .fragment "rity\":\"red\",\"suggestion\":\"b\"\x7d,\x7b\"line\":1,\"severity\":\"green",
    .fragment "\",\"suggestion\":\"c\"\x7d", .failure (.stream "lost"),
    .fragment "\x7b\"line\":1,\"severity\":\"red\",\"suggestion\":\"d\"\x7d"]

theorem run_brokenReply :
    let d : Document := { id := "main.rs", lines := ["fn main()", "  run();"] }
    let run := Review.run { catalog := ⟨[⟨"test", "scripted"⟩]⟩ } (some d) {} [] "red"
      (.display .red) false { replies := [.stream brokenReply] }
    Model.fires brokenReply = false ∧ Model.stalls brokenReply = false ∧ run.isOver = true ∧
      (∃ tally, run.outcome = .ok tally ∧ tally.get .red = 2 ∧ tally.get .green = 1) ∧
        run.ledger.rendered "main.rs" = [⟨.red, "a", "red", ⟨2, 2, 8⟩⟩] := by
  intro d run
  have hfires : Model.fires brokenReply = false := by decide
  have hstalls : Model.stalls brokenReply = false := by decide
  have hmodel : Reviewer.model? { catalog := ⟨[⟨"test", "scripted"⟩]⟩ } = some 0 := by
    decide +kernel
  have hrecords : ((Record.ofEvents brokenReply).countP fun r => r.severity = .known .red) = 2 ∧
      ((Record.ofEvents brokenReply).countP fun r => r.severity = .known .green) = 1 := by
    decide +kernel
  have hmarkers : d.markersFor (.display .red) "red" (Record.ofEvents brokenReply) =
      [⟨.red, "a", "red", ⟨2, 2, 8⟩⟩] := by
    decide +kernel
  have hreviewed := ((run_outcome _ (some d) {} [] "red" (.display .red)
    { replies := [.stream brokenReply] }).2.2 d 0 rfl hmodel).2.2 brokenReply rfl hfires
  have hcompletes := hreviewed.1 hstalls
  obtain ⟨tally, houtcome, htally⟩ := hcompletes.outcome
  refine ⟨hfires, hstalls, hcompletes.isOver, ⟨tally, houtcome, ?_, ?_⟩, ?_⟩
  · rw [htally, hrecords.1]
  · rw [htally, hrecords.2]
  · rw [show run.ledger.rendered "main.rs" = _ from hcompletes.rendered, hmarkers]
    rfl

end Review

end Marginalia
