import Marginalia.Proofs.Filter.Outcome

/-!
# What a pass publishes

Besides markers, a pass tells the host nothing until it is over.  Then one that is complete
publishes the tally of its review, one that failed says so and publishes zero, and one that
was cancelled stays silent.  A filter that became inactive repeats its tally.
-/

namespace Marginalia

def HostEvent.isDisplay : HostEvent → Bool
  | .setMarkers _ _ => true
  | .clearMarkers _ => true
  | .warning _ => false
  | .counts _ _ => false

theorem Ledger.isDisplay_of_mem_clearEach {l : Ledger} {documents : List String}
    {event : HostEvent} (h : event ∈ (l.clearEach documents).2) : event.isDisplay = true := by
  induction documents generalizing l with
  | nil => cases h
  | cons document documents ih =>
      simp only [clearEach, List.mem_append] at h
      rcases h with hfirst | hlater
      · rw [clear] at hfirst
        split at hfirst
        · cases hfirst
        · rw [List.mem_singleton.mp hfirst]
          rfl
      · exact ih hlater

theorem HostEvent.isDisplay_of_mem_announcements {document : String} {shown markers : List Marker}
    {event : HostEvent} (h : event ∈ announcements document shown markers) :
    event.isDisplay = true := by
  induction markers generalizing shown with
  | nil => cases h
  | cons m markers ih =>
      rw [announcements, List.mem_cons] at h
      rcases h with rfl | hlater
      · rfl
      · exact ih hlater

namespace Session

/-- Whether the host was told of markers since another session, and of these events then. -/
def Told (s s' : Session) (last : List HostEvent) : Prop :=
  ∃ shown, s'.events = s.events ++ shown ++ last ∧ ∀ event ∈ shown, event.isDisplay = true

structure Silent (s s' : Session) : Prop where
  tally : s'.filter.tally = s.filter.tally
  told : s.Told s' []

variable {s s' s'' : Session} {events : List HostEvent}

theorem Silent.refl (s : Session) : s.Silent s :=
  ⟨rfl, [], by simp, nofun⟩

theorem Silent.show (h : s.Silent s') (htally : s''.filter.tally = s'.filter.tally)
    (hevents : s''.events = s'.events ++ events) (hdisplay : ∀ e ∈ events, e.isDisplay = true) :
    s.Silent s'' := by
  obtain ⟨shown, hshown, hall⟩ := h.told
  refine ⟨htally.trans h.tally, shown ++ events, ?_, fun e he => ?_⟩
  · simp [hevents, hshown]
  · rcases List.mem_append.mp he with hmem | hmem
    · exact hall e hmem
    · exact hdisplay e hmem

theorem Silent.of_eq (h : s.Silent s') (htally : s''.filter.tally = s'.filter.tally)
    (hevents : s''.events = s'.events) : s.Silent s'' := by
  have hnone : s''.events = s'.events ++ [] := by rw [hevents, List.append_nil]
  exact h.show htally hnone nofun

theorem Silent.told_last (h : s.Silent s') {last : List HostEvent}
    (hevents : s''.events = s'.events ++ last) : s.Told s'' last := by
  obtain ⟨shown, hshown, hall⟩ := h.told
  exact ⟨shown, by simp [hevents, hshown], hall⟩

end Session

namespace FileChoice

/-- Whether a choice was cancelled by the time that it came to this, or will be by its reply. -/
def Collected.fires : Collected → Bool
  | .complete _ isCancelled => isCancelled
  | .abandoned isCancelled => isCancelled
  | .waiting _ events => Model.fires events

theorem fires_collect (reply : String) (isCancelled : Bool) (events : List Model.Event) :
    (collect reply isCancelled events).fires = (isCancelled || Model.fires events) := by
  induction events generalizing reply isCancelled with
  | nil => simp [collect, Collected.fires, Model.fires]
  | cons event events ih =>
      cases event with
      | failure failure => simp [collect, Collected.fires, Model.fires]
      | cancellation => simp [collect, ih, Model.fires]
      | fragment text =>
          cases isCancelled with
          | true => rfl
          | false => exact ih (reply ++ text) false
      | _ =>
          cases isCancelled with
          | true => rfl
          | false => rfl

theorem fires_advance (choice : FileChoice) :
    choice.advance.fires = (choice.isCancelled || Model.fires choice.events) := by
  rw [advance]
  split
  · next hcancelled => rw [hcancelled, Bool.true_or, Collected.fires]
  · next hquiet => rw [fires_collect, Bool.eq_false_iff.mpr hquiet]

end FileChoice

/-- Whether the last of the requests made since has the given token, and its reply fires it. -/
def Model.Exchange.Fired (origin x : Exchange) (token : Token) : Prop :=
  ∃ made request events, origin.Since x (made ++ [request]) ∧ request.token = token ∧
    origin.answer made.length = .stream events ∧ fires events = true

theorem Model.Exchange.Fired.cancelIf {origin x : Exchange} {token : Token}
    (h : origin.Fired x token) (other : Token) (condition : Bool) :
    origin.Fired (x.cancelIf other condition) token := by
  obtain ⟨made, request, events, hsince, hlast⟩ := h
  exact ⟨made, request, events, hsince.cancelIf other condition, hlast⟩

/-- Why a pass fails that asked for its review behind some other requests, or could not ask. -/
inductive Pass.Fails (setup : FilterSetup) (origin : Model.Exchange) (document : Option Document)
    (x : Model.Exchange) (token : Model.Token) : ReviewFailure → Prop where
  | noDocument (hdocument : document = none) : Fails setup origin document x token .noActiveDocument
  | noModel (hmodel : setup.reviewer.model? = none) :
      Fails setup origin document x token .noModelAvailable
  | refused {made : List Model.Request} {request : Model.Request} {failure : Model.Failure}
      (hsince : origin.Since x (made ++ [request])) (htoken : request.token = token)
      (hanswer : origin.answer made.length = .refused failure) :
      Fails setup origin document x token (.ofModel failure)

/-- Whether a review was asked for behind some other requests, and this is the reply. -/
structure Pass.Asks (setup : FilterSetup) (origin x : Model.Exchange) (token : Model.Token)
    (events : List Model.Event) : Prop where
  since : ∃ made model document fileContext, setup.reviewer.model? = some model ∧
    origin.Since x (made ++ [⟨model, setup.reviewer.messages document fileContext, token⟩]) ∧
      origin.answer made.length = .stream events

theorem Pass.Asks.fired {setup : FilterSetup} {origin x : Model.Exchange} {token : Model.Token}
    {events : List Model.Event} (h : Asks setup origin x token events)
    (hfires : Model.fires events = true) : origin.Fired x token := by
  obtain ⟨made, model, document, fileContext, -, hsince, hanswer⟩ := h.since
  exact ⟨made, _, events, hsince, rfl, hanswer, hfires⟩

/--
What a command has published that was applied in one session and led to another one, by the
pass that it opened.
-/
inductive Publication (setup : FilterSetup) (s s' : Session) : Option Pass → Prop where
  /-- The filter became inactive. -/
  | deactivated (hexchange : s'.exchange = s.exchange)
      (htally : s'.filter.tally = s.filter.tally) (hstate : s'.filter.state = .inactive)
      (htold : s.Told s' [.counts s.filter.tally .inactive]) : Publication setup s s' none
  /-- The pass is under way. -/
  | waiting {p : Pass} (hover : p.isOver = false) (hsilent : s.Silent s') :
      Publication setup s s' (some p)
  | completed {p : Pass} {events : List Model.Event} (hover : p.isOver = true)
      (hquiet : p.isCancelled = false)
      (hasks : Pass.Asks setup s.exchange s'.exchange p.token events)
      (hfires : Model.fires events = false)
      (htally : s'.filter.tally = Tally.countAll {} (Record.ofEvents events))
      (htold : s.Told s' [.counts s'.filter.tally s'.filter.state]) :
      Publication setup s s' (some p)
  | failed {p : Pass} {failure : ReviewFailure} (hover : p.isOver = true)
      (hquiet : p.isCancelled = false)
      (hfails : Pass.Fails setup s.exchange s'.document s'.exchange p.token failure)
      (hfailure : failure ≠ .cancelled) (htally : s'.filter.tally = {})
      (htold : s.Told s' [.warning failure.warning, .counts {} s'.filter.state]) :
      Publication setup s s' (some p)
  | cancelled {p : Pass} (hover : p.isOver = true)
      (hcancelled : p.isCancelled = true ∨
        Pass.Fails setup s.exchange s'.document s'.exchange p.token .cancelled)
      (hsilent : s.Silent s') : Publication setup s s' (some p)

namespace Pass

/-- A session in which the pass that a command opened is not over. -/
inductive UnderWay (setup : FilterSetup) (s s' : Session) (p : Pass) : Prop where
  | preparing {made : List Model.Request}
      (hphase : p.phase = .opening ∨ ∃ choice, p.phase = .choosing choice ∧
        choice.isCancelled = p.isCancelled ∧
          (Model.fires choice.events = true → s.exchange.Fired s'.exchange p.token))
      (hsince : s.exchange.Since s'.exchange made) (hsilent : s.Silent s')
  | reviewing {review : Review} {events : List Model.Event} (hphase : p.phase = .reviewing review)
      (hcancelled : p.isCancelled = true → review.feed.isCancelled = true)
      (hasks : Asks setup s.exchange s'.exchange p.token events)
      (hfires : review.feed.fires = (p.isCancelled || Model.fires events))
      (htally : review.feed.fires = false → review.tally.countAll review.feed.remaining =
        Tally.countAll {} (Record.ofEvents events))
      (hsilent : s.Silent s')

/--
What a step of a pass comes to: one that was cancelled stays so, and one that is over was not
cancelled by the step itself, unless the reply did it.
-/
structure Comes (setup : FilterSetup) (s : Session) (p : Pass) (next : Session × Pass) : Prop where
  cancelled : p.isCancelled = true → next.2.isCancelled = true
  waits : next.2.isOver = false → next.2.isCancelled = p.isCancelled
  fired : next.2.isCancelled = true →
    p.isCancelled = true ∨ s.exchange.Fired next.1.exchange next.2.token
  underWay : next.2.isOver = false → UnderWay setup s next.1 next.2
  published : next.2.isOver = true → Publication setup s next.1 (some next.2)

section

variable {setup : FilterSetup} {s s' : Session} {p : Pass} {made : List Model.Request}

theorem UnderWay.silent (h : UnderWay setup s s' p) : s.Silent s' := by
  cases h with
  | preparing _ _ hsilent => exact hsilent
  | reviewing _ _ _ _ _ hsilent => exact hsilent

theorem UnderWay.isOver (h : UnderWay setup s s' p) : p.isOver = false := by
  cases h with
  | preparing hphase _ _ =>
      rcases hphase with hopening | ⟨choice, hchoosing, -⟩
      · rw [Pass.isOver, hopening]
      · rw [Pass.isOver, hchoosing]
  | reviewing hphase _ _ _ _ _ => rw [Pass.isOver, hphase]

theorem Comes.of_underWay {next : Session × Pass} (h : UnderWay setup s next.1 next.2)
    (hsame : next.2.isCancelled = p.isCancelled) : Comes setup s p next := by
  refine ⟨hsame.trans, fun _ => hsame, fun hp => .inl (hsame.symm.trans hp), fun _ => h,
    fun hover => ?_⟩
  rw [h.isOver] at hover
  cases hover

theorem Comes.of_over {next : Session × Pass} (hover : next.2.isOver = true)
    (h : Publication setup s next.1 (some next.2))
    (hcancelled : p.isCancelled = true → next.2.isCancelled = true)
    (hfired : next.2.isCancelled = true →
      p.isCancelled = true ∨ s.exchange.Fired next.1.exchange next.2.token) :
    Comes setup s p next := by
  refine ⟨hcancelled, fun hnot => ?_, hfired, fun hnot => ?_, fun _ => h⟩
  · rw [hover] at hnot
    cases hnot
  · rw [hover] at hnot
    cases hnot

theorem comes_of_failure {failure : ReviewFailure} {x : Model.Exchange} (hsilent : s.Silent s')
    (hquiet : p.isCancelled = false)
    (hstart : Review.start setup.reviewer s'.document s'.filter.fileContext
      (setup.palette.colorFor p.signal) p.signal p.token false s'.exchange = (.error failure, x))
    (hfails : Fails setup s.exchange s'.document x p.token failure) :
    Comes setup s p (Pass.openReview setup s' p false) := by
  rw [openReview_of_failure hstart]
  refine .of_over rfl ?_ (fun hcancelled => absurd hcancelled (by simp [hquiet])) nofun
  by_cases hfailure : failure = .cancelled
  · cases hfailure
    exact .cancelled rfl (.inr hfails) (hsilent.of_eq rfl rfl)
  · obtain ⟨hdocument, hexchange, -, -⟩ :=
      close_conclude { s' with exchange := x } p (.error failure)
    have hfailed : Fails setup s.exchange
        (close (conclude { s' with exchange := x } (.error failure)) p false).1.document
        (close (conclude { s' with exchange := x } (.error failure)) p false).1.exchange
        p.token failure := by
      rw [hdocument, hexchange]
      exact hfails
    cases failure with
    | cancelled => exact absurd rfl hfailure
    | _ =>
        exact .failed rfl rfl hfailed hfailure rfl
          (hsilent.told_last (List.append_assoc _ _ _))

theorem comes_openReview (hsince : s.exchange.Since s'.exchange made) (hsilent : s.Silent s')
    (p : Pass) {isCancelled : Bool} (hcancelled : p.isCancelled = true → isCancelled = true)
    (hfired : isCancelled = true →
      p.isCancelled = true ∨ s.exchange.Fired s'.exchange p.token) :
    Comes setup s p (Pass.openReview setup s' p isCancelled) := by
  cases isCancelled with
  | true =>
      rw [Pass.openReview, if_pos rfl]
      refine .of_over rfl (.cancelled rfl (.inl rfl) (hsilent.of_eq rfl rfl)) (fun _ => rfl)
        fun _ => ?_
      exact (hfired rfl).imp_right fun hlast => hlast.cancelIf p.token true
  | false =>
      have hquiet : p.isCancelled = false := by
        cases hp : p.isCancelled with
        | false => rfl
        | true => cases hcancelled hp
      cases hdocument : s'.document with
      | none =>
          have hstart := Review.start_of_no_document setup.reviewer s'.filter.fileContext
            (setup.palette.colorFor p.signal) p.signal p.token false s'.exchange
          rw [← hdocument] at hstart
          exact comes_of_failure hsilent hquiet hstart (.noDocument hdocument)
      | some document =>
          cases hmodel : setup.reviewer.model? with
          | none =>
              have hstart := Review.start_of_no_model s'.filter.fileContext
                (setup.palette.colorFor p.signal) p.signal p.token false s'.exchange document hmodel
              rw [← hdocument] at hstart
              exact comes_of_failure hsilent hquiet hstart (.noModel hmodel)
          | some model =>
              obtain ⟨x, hsent, -, hstart⟩ := Review.start_of_model s'.filter.fileContext
                (setup.palette.colorFor p.signal) p.signal p.token false document hmodel hsince
              rw [← hdocument] at hstart
              cases hanswer : s.exchange.answer made.length with
              | refused failure =>
                  rw [hanswer] at hstart
                  exact comes_of_failure hsilent hquiet hstart (.refused hsent rfl hanswer)
              | stream events =>
                  rw [hanswer] at hstart
                  rw [openReview_of_review hstart]
                  have hasks : Asks setup s.exchange x p.token events :=
                    ⟨made, model, document, s'.filter.fileContext, hmodel, hsent, hanswer⟩
                  refine .of_underWay (.reviewing rfl ?_ hasks ?_ (fun _ => rfl)
                    (hsilent.of_eq rfl rfl)) rfl
                  · exact fun hp => absurd hp (by simp [hquiet])
                  · simp [Record.Feed.fires, hquiet]

theorem comes_openReview_withFileContext (hsince : s.exchange.Since s'.exchange made)
    (hsilent : s.Silent s') (messages : List Message) (p : Pass) {isCancelled : Bool}
    (hcancelled : p.isCancelled = true → isCancelled = true)
    (hfired : isCancelled = true →
      p.isCancelled = true ∨ s.exchange.Fired s'.exchange p.token) :
    Comes setup s p (Pass.openReview setup (withFileContext s' messages) p isCancelled) := by
  have hsince' : s.exchange.Since (withFileContext s' messages).exchange made := hsince
  have hsilent' : s.Silent (withFileContext s' messages) := hsilent.of_eq rfl rfl
  exact comes_openReview hsince' hsilent' p hcancelled hfired

theorem comes_continueChoice (hsince : s.exchange.Since s'.exchange made) (hsilent : s.Silent s')
    (library : Library) {choice : FileChoice} (hcancelled : choice.isCancelled = p.isCancelled)
    (hfires : Model.fires choice.events = true → s.exchange.Fired s'.exchange p.token) :
    Comes setup s p (Pass.continueChoice setup library s' p choice) := by
  have habandoned : p.isCancelled = true → choice.advance = .abandoned true := by
    intro hp
    rw [FileChoice.advance, if_pos (hcancelled.trans hp)]
  have hadvanced := choice.fires_advance
  rw [hcancelled] at hadvanced
  have hfired : choice.advance.fires = true →
      p.isCancelled = true ∨ s.exchange.Fired s'.exchange p.token := by
    rw [hadvanced, Bool.or_eq_true]
    exact .imp_right hfires
  unfold Pass.continueChoice
  split
  · next reply isCancelled hadvance =>
      rw [hadvance] at hfired
      refine comes_openReview_withFileContext hsince hsilent _ p (fun hp => ?_) hfired
      rw [habandoned hp] at hadvance
      cases hadvance
  · next isCancelled hadvance =>
      rw [hadvance] at hfired
      refine comes_openReview_withFileContext hsince hsilent _ p (fun hp => ?_) hfired
      rw [habandoned hp] at hadvance
      cases hadvance
      rfl
  · next reply events hadvance =>
      have hquiet : ¬ p.isCancelled = true := by
        intro hp
        rw [habandoned hp] at hadvance
        cases hadvance
      rw [hadvance] at hfired
      exact .of_underWay (.preparing (.inr ⟨_, rfl, hcancelled, fun hevents =>
        (hfired hevents).resolve_left hquiet⟩) hsince hsilent) rfl

theorem comes_begin (hsince : s.exchange.Since s'.exchange made) (hsilent : s.Silent s')
    (p : Pass) : Comes setup s p (Pass.begin setup s' p) := by
  unfold Pass.begin
  split
  · next library document _ _ =>
      obtain ⟨made', hsince', -, hchoice⟩ := FileChoice.start_since setup.reviewer library document
        p.token p.isCancelled hsince
      split
      · next x hstart =>
          rw [hstart] at hsince'
          let asked := { s' with exchange := x }
          have hasked : s.Silent asked := hsilent.of_eq rfl rfl
          have hsince'' : s.exchange.Since asked.exchange made' := hsince'
          exact comes_openReview_withFileContext hsince'' hasked [] p id .inl
      · next choice x hstart =>
          rw [hstart] at hsince' hchoice
          let asked := { s' with exchange := x }
          have hasked : s.Silent asked := hsilent.of_eq rfl rfl
          have hsince'' : s.exchange.Since asked.exchange made' := hsince'
          obtain ⟨hcancelled, request, hmade, htoken, hanswer⟩ := hchoice choice rfl
          rw [hmade] at hsince'
          exact comes_continueChoice hsince'' hasked library hcancelled fun hfires =>
            ⟨made, request, choice.events, hsince', htoken, hanswer, hfires⟩
  · exact comes_openReview hsince hsilent p id .inl

theorem UnderWay.prepare (h : UnderWay setup s s' p) : Comes setup s p (p.prepare setup s') := by
  unfold Pass.prepare
  cases h with
  | @preparing made hphase hsince hsilent =>
      rcases hphase with hopening | ⟨choice, hchoosing, hcancelled, hfires⟩
      · rw [hopening]
        exact comes_begin hsince hsilent p
      · rw [hchoosing]
        dsimp only
        split
        · next library _ => exact comes_continueChoice hsince hsilent library hcancelled hfires
        · exact comes_openReview hsince hsilent p id .inl
  | reviewing hphase hcancelled hasks hfires htally hsilent =>
      rw [hphase]
      exact .of_underWay (.reviewing hphase hcancelled hasks hfires htally hsilent) rfl

/-! ## Reading the reply -/

theorem UnderWay.read {s'' : Session} {p' : Pass} (h : UnderWay setup s s' p)
    (hread : p.readRecord s' = some (s'', p')) : Comes setup s p (s'', p') := by
  obtain ⟨review, record, feed, hphase, hnext, rfl, rfl⟩ := readRecord_eq_some hread
  cases h with
  | preparing hpreparing _ _ =>
      rcases hpreparing with hopening | ⟨choice, hchoosing, -⟩
      · rw [hopening] at hphase
        cases hphase
      · rw [hchoosing] at hphase
        cases hphase
  | reviewing hreviewing hcancelled hasks hfires htally hsilent =>
      cases Phase.reviewing.inj (hreviewing.symm.trans hphase)
      have hcontinues := Record.Feed.continues_of_next_record hnext
      have hquiet : p.isCancelled = true → feed.isCancelled = true := by
        intro hp
        rw [Record.Feed.next_of_isCancelled (hcancelled hp)] at hnext
        cases hnext
      have hall : review.tally.countAll review.feed.remaining =
          (review.tally.count record.severity).countAll feed.remaining := by
        rw [hcontinues.remaining]
        rfl
      rw [← hcontinues.fires, hall] at htally
      rw [← hcontinues.fires] at hfires
      rw [Review.take_eq]
      refine .of_underWay (.reviewing rfl hquiet hasks hfires htally ?_) rfl
      refine hsilent.show rfl rfl fun event hevent => ?_
      exact HostEvent.isDisplay_of_mem_announcements hevent

theorem UnderWay.settle (h : UnderWay setup s s' p) (hread : p.readRecord s' = none) :
    Comes setup s p (p.readOn s') := by
  rw [readOn_eq_settle hread]
  unfold Pass.settle
  cases h with
  | preparing hphase hsince hsilent =>
      have hunderWay : UnderWay setup s s' p := .preparing hphase hsince hsilent
      rcases hphase with hopening | ⟨choice, hchoosing, -⟩
      · rw [hopening]
        exact .of_underWay hunderWay rfl
      · rw [hchoosing]
        exact .of_underWay hunderWay rfl
  | @reviewing review events hphase hcancelled hasks hfires htally hsilent =>
      rw [hphase]
      dsimp only
      split
      · next feed hnext =>
          have hends := Record.Feed.ends_of_next_over hnext
          have hquiet : s.Silent (s'.tell []) := hsilent.of_eq rfl (List.append_nil _)
          cases hfired : review.feed.fires with
          | true =>
              have hfeed : feed.isCancelled = true := hends.fires.trans hfired
              have houtcome : ({ review with feed } : Review).outcome = .error .cancelled := by
                rw [Review.outcome, if_pos hfeed]
              rw [houtcome, hfeed]
              refine .of_over rfl (.cancelled rfl (.inl rfl) (hquiet.of_eq rfl rfl))
                (fun _ => rfl) fun _ => ?_
              rw [hfires, Bool.or_eq_true] at hfired
              exact hfired.imp_right fun hevents => (hasks.fired hevents).cancelIf p.token true
          | false =>
              have hfeed : feed.isCancelled = false := hends.fires.trans hfired
              have houtcome : ({ review with feed } : Review).outcome = .ok review.tally := by
                rw [Review.outcome, if_neg (by simp [hfeed])]
              have hcomplete := htally hfired
              rw [hends.remaining hfired] at hcomplete
              rw [houtcome, hfeed]
              rw [hfires, Bool.or_eq_false_iff] at hfired
              refine .of_over rfl (.completed rfl rfl hasks hfired.2 hcomplete
                (hquiet.told_last rfl)) (fun hp => ?_) fun hnot => ?_
              · cases hfired.1.symm.trans hp
              · cases hnot
      · next feed hnext =>
          obtain ⟨hcontinues, -⟩ := Record.Feed.continues_of_next_waiting hnext
          rw [← hcontinues.fires, hcontinues.remaining, List.nil_append] at htally
          rw [← hcontinues.fires] at hfires
          refine .of_underWay (.reviewing rfl ?_ hasks hfires htally ?_) rfl
          · intro hp
            rw [Record.Feed.next_of_isCancelled (hcancelled hp)] at hnext
            cases hnext
          · exact hsilent.of_eq rfl (List.append_nil _)
      · exact .of_underWay (.reviewing hphase hcancelled hasks hfires htally hsilent) rfl

/-- A pass that is cancelled from outside goes on until it notices. -/
theorem UnderWay.cancel (h : UnderWay setup s s' p) :
    UnderWay setup s { s' with exchange := s'.exchange.cancel p.token } p.cancel := by
  cases h with
  | preparing hphase hsince hsilent =>
      refine .preparing ?_ (hsince.cancel p.token) (hsilent.of_eq rfl rfl)
      rcases hphase with hopening | ⟨choice, hchoosing, -, hfires⟩
      · exact .inl (by rw [Pass.cancel, hopening])
      · refine .inr ⟨_, by rw [Pass.cancel, hchoosing], rfl, fun hevents => ?_⟩
        exact (hfires hevents).cancelIf p.token true
  | @reviewing review events hphase hcancelled hasks hfires htally hsilent =>
      obtain ⟨made, model, document, fileContext, hmodel, hsince, hanswer⟩ := hasks.since
      have hasks' : Asks setup s.exchange (s'.exchange.cancel p.token) p.token events :=
        ⟨made, model, document, fileContext, hmodel, hsince.cancel p.token, hanswer⟩
      have hfired : review.feed.cancel.fires = true := rfl
      refine .reviewing (by rw [Pass.cancel, hphase]) (fun _ => rfl) hasks' ?_ ?_
        (hsilent.of_eq rfl rfl)
      · exact hfired
      · simp [hfired]

theorem phase_of_isOver (hover : p.isOver = true) : p.phase = .over := by
  unfold Pass.isOver at hover
  split at hover
  · assumption
  · cases hover

theorem readOn_of_isOver (hover : p.isOver = true) (s : Session) : p.readOn s = (s, p) := by
  rw [readOn, phase_of_isOver hover]

theorem Comes.trans {next next' : Session × Pass} (h : Comes setup s p next)
    (hunderWay : UnderWay setup s next.1 next.2 → Comes setup s next.2 next')
    (hover : next.2.isOver = true → next' = next) : Comes setup s p next' := by
  cases hnext : next.2.isOver with
  | true =>
      rw [hover hnext]
      exact h
  | false =>
      have hlater := hunderWay (h.underWay hnext)
      have hsame := h.waits hnext
      exact ⟨fun hp => hlater.cancelled (hsame.trans hp),
        fun hnot => (hlater.waits hnot).trans hsame,
        fun hp => (hlater.fired hp).imp_left hsame.symm.trans, hlater.underWay, hlater.published⟩

/-- A pass that reads on publishes what its review comes to, once it is over. -/
theorem UnderWay.readOn {s' : Session} {p : Pass} (h : UnderWay setup s s' p) :
    Comes setup s p (p.readOn s') := by
  cases hread : p.readRecord s' with
  | none => exact h.settle hread
  | some next =>
      rw [readOn_of_readRecord hread]
      exact (h.read hread).trans (fun hnext => hnext.readOn) fun hover => readOn_of_isOver hover _
termination_by p.unread
decreasing_by
  show Prod.Lex _ _ next.2.unread p.unread
  exact readRecord_lt hread

theorem UnderWay.advance (h : UnderWay setup s s' p) : Comes setup s p (p.advance setup s') :=
  h.prepare.trans (fun hprepared => hprepared.readOn) fun hover => readOn_of_isOver hover _

theorem UnderWay.turn (h : UnderWay setup s s' p) (document : Option Document) :
    UnderWay setup s { s' with document } p := by
  cases h with
  | preparing hphase hsince hsilent => exact .preparing hphase hsince (hsilent.of_eq rfl rfl)
  | reviewing hphase hcancelled hasks hfires htally hsilent =>
      exact .reviewing hphase hcancelled hasks hfires htally (hsilent.of_eq rfl rfl)

/--
What a small step that applies no command does to a pass under way, if it keeps it: the pass is
cancelled from outside, or goes on.
-/
theorem UnderWay.moved {s'' : Session} {p' : Pass} {p? p?' : Option Pass}
    {commands : List FilterCommand} {log : List (Document × Marker)} (h : UnderWay setup s s' p)
    (hmoved : Moved setup s' p? commands log s'' p?') (hnone : commands = []) (hp : p? = some p)
    (hp' : p?' = some p') :
    p' = p.cancel ∧ UnderWay setup s s'' p' ∨ Comes setup s p (s'', p') := by
  cases hmoved with
  | turned _ document =>
      cases hp.symm.trans hp'
      exact .inr (.of_underWay (h.turn document) rfl)
  | began _ command isCancelled => cases hnone
  | prepared _ =>
      cases hp
      cases hp'
      exact .inr h.prepare
  | read hread =>
      cases hp
      cases hp'
      exact .inr (h.read hread)
  | settled hread =>
      cases hp
      cases hp'
      exact .inr (h.settle hread)
  | cancelled _ =>
      cases hp
      cases hp'
      exact .inl ⟨rfl, h.cancel⟩
  | superseded _ => cases hp'
  | dropped => cases hp'

end

end Pass

namespace Session

/-- A command that opens no pass made the filter inactive. -/
theorem publication_begin (setup : FilterSetup) (s : Session) (command : FilterCommand)
    (isCancelled : Bool) :
    let opened := s.begin command isCancelled
    (opened.2 = none → Publication setup s opened.1 none) ∧
      ∀ p, opened.2 = some p →
        p.isCancelled = isCancelled ∧ Pass.UnderWay setup s opened.1 p := by
  have hdisplay : ∀ event ∈ s.filter.ledger.clearAll.2, event.isDisplay = true :=
    fun event => Ledger.isDisplay_of_mem_clearEach
  cases command with
  | initialLoad =>
      refine ⟨fun h => absurd h (Option.some_ne_none _), fun p hp => ?_⟩
      cases hp
      have hsilent : s.Silent (s.begin .initialLoad isCancelled).1 := (Silent.refl s).of_eq rfl rfl
      exact ⟨rfl, .preparing (.inl rfl) ((Model.Exchange.Since.refl _).issue.cancelIf _ _) hsilent⟩
  | toggle severity =>
      simp only [begin, start, applyToggle]
      cases Transition.plan s.filter.state severity with
      | deactivate target =>
          refine ⟨fun _ => ?_, fun p hp => absurd hp.symm (Option.some_ne_none p)⟩
          exact .deactivated rfl rfl rfl ⟨_, rfl, hdisplay⟩
      | _ =>
          refine ⟨fun h => absurd h (Option.some_ne_none _), fun p hp => ?_⟩
          cases hp
          exact ⟨rfl, .preparing (.inl rfl) ((Model.Exchange.Since.refl _).issue.cancelIf _ _)
            ((Silent.refl s).show rfl rfl hdisplay)⟩

end Session

/-- Nothing is published of a pass that was cancelled. -/
theorem Publication.silent {setup : FilterSetup} {s s' : Session} {p : Pass}
    (h : Publication setup s s' (some p)) (hcancelled : p.isCancelled = true) : s.Silent s' := by
  cases h with
  | waiting _ hsilent => exact hsilent
  | cancelled _ _ hsilent => exact hsilent
  | completed _ hquiet _ _ _ _ =>
      rw [hquiet] at hcancelled
      cases hcancelled
  | failed _ hquiet _ _ _ _ =>
      rw [hquiet] at hcancelled
      cases hcancelled

end Marginalia
