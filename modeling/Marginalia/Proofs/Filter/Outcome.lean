import Marginalia.Proofs.Filter.Shown

/-!
# What a pass comes to

A pass that starts without markers and is not cancelled makes the markers of the reply to its
review, and no others.  While it is under way, those made and those of the records that
remain are together the markers of the whole reply.
-/

namespace Marginalia

def Document.markersOfReply (d : Document) (signal : Signal) (color : String) :
    Model.Reply → List Marker
  | .refused _ => []
  | .stream events => d.markersFor signal color (Record.ofEvents events)

/-- Asking for a choice of files makes a request only when there is a model. -/
theorem FileChoice.start_since (r : Reviewer) (library : Library) (d : Document)
    (token : Model.Token) (isCancelled : Bool) {origin x : Model.Exchange}
    {made : List Model.Request} (h : origin.Since x made) :
    ∃ made', origin.Since (start r library d token isCancelled x).2 made' ∧
      (r.model? = none → made' = made) ∧
        ∀ choice, (start r library d token isCancelled x).1 = .reading choice →
          choice.isCancelled = isCancelled ∧
            ∃ request, made' = made ++ [request] ∧ request.token = token ∧
              origin.answer made.length = .stream choice.events := by
  unfold start
  dsimp only
  split
  · exact ⟨made, h, fun _ => rfl, nofun⟩
  · cases hmodel : r.model? with
    | none => exact ⟨made, h, fun _ => rfl, nofun⟩
    | some model =>
        let request : Model.Request :=
          ⟨model, messages r d (library.files.filter (· != d.id)), token⟩
        obtain ⟨hreply, hsent⟩ := h.send request
        dsimp only
        cases hsend : x.send request with
        | mk reply x' =>
            rw [hsend] at hreply hsent
            cases reply with
            | refused failure => exact ⟨_, hsent, nofun, nofun⟩
            | stream events =>
                refine ⟨_, hsent, nofun, fun choice hchoice => ?_⟩
                cases hchoice
                exact ⟨rfl, request, rfl, rfl, hreply.symm⟩

namespace Pass

/-- A session in which a pass has not asked for its review: nothing is marked. -/
structure Unasked (setup : FilterSetup) (opened s : Session) (made : List Model.Request) :
    Prop where
  document : s.document = opened.document
  since : opened.exchange.Since s.exchange made
  made : opened.document = none ∨ setup.reviewer.model? = none → made = []
  rendered : ∀ id, s.filter.ledger.rendered id = []

/-- A session in which a pass has asked for the review of a document, behind other requests. -/
structure Asked (setup : FilterSetup) (opened s : Session) (p : Pass) (d : Document)
    (made : List Model.Request) : Prop where
  document : opened.document = some d
  since : ∃ model, setup.reviewer.model? = some model ∧ opened.exchange.Since s.exchange
    (made ++ [⟨model, setup.reviewer.messages d s.filter.fileContext, p.token⟩])

def expected (setup : FilterSetup) (opened : Session) (signal : Signal) (d : Document)
    (count : Nat) (id : String) : List Marker :=
  if d.id = id then
    d.markersOfReply signal (setup.palette.colorFor signal) (opened.exchange.answer count)
  else []

/-- What a session holds when a pass is over that was not cancelled. -/
inductive Concludes (setup : FilterSetup) (opened s : Session) (p : Pass) : Prop where
  | unasked (hunasked : Unasked setup opened s [])
      (hnone : opened.document = none ∨ setup.reviewer.model? = none)
  | asked {d : Document} {made : List Model.Request} (hasked : Asked setup opened s p d made)
      (hrendered : ∀ id,
        s.filter.ledger.rendered id = expected setup opened p.signal d made.length id)

theorem Concludes.of_continues {setup : FilterSetup} {opened s : Session} {p p' : Pass}
    (hcontinues : p.Continues p') (h : p'.Concludes setup opened s) :
    p.Concludes setup opened s := by
  cases h with
  | unasked hunasked hnone => exact .unasked hunasked hnone
  | asked hasked hrendered =>
      obtain ⟨model, hmodel, hsince⟩ := hasked.since
      rw [hcontinues.token] at hsince
      rw [hcontinues.signal] at hrendered
      exact .asked ⟨hasked.document, model, hmodel, hsince⟩ hrendered

/-- Where a pass stands that was opened without markers, and is not cancelled. -/
inductive Stands (setup : FilterSetup) (opened s : Session) (p : Pass) : Prop where
  | preparing {made : List Model.Request} (hunasked : Unasked setup opened s made)
      (hcancelled : p.isCancelled = false)
      (hphase : p.phase = .opening ∨
        ∃ choice, p.phase = .choosing choice ∧ choice.isCancelled = false)
  | reviewing {review : Review} {d : Document} {made : List Model.Request}
      (hphase : p.phase = .reviewing review) (hasked : Asked setup opened s p d made)
      (hdocument : review.document = d)
      (hrendered : ∀ id, s.filter.ledger.rendered id ++
        (if d.id = id then review.feed.remaining.filterMap review.marker? else []) =
          expected setup opened p.signal d made.length id)
  | concluded (hphase : p.phase = .over) (hconcludes : Concludes setup opened s p)

/-! ## Asking for the review -/

section

variable {setup : FilterSetup} {opened s : Session} {p : Pass} {made : List Model.Request}

theorem openReview_of_failure {failure : ReviewFailure} {x : Model.Exchange}
    (hstart : Review.start setup.reviewer s.document s.filter.fileContext
      (setup.palette.colorFor p.signal) p.signal p.token false s.exchange = (.error failure, x)) :
    Pass.openReview setup s p false =
      close (conclude { s with exchange := x } (.error failure)) p false := by
  rw [Pass.openReview, if_neg Bool.false_ne_true, hstart]

theorem openReview_of_review {review : Review} {x : Model.Exchange}
    (hstart : Review.start setup.reviewer s.document s.filter.fileContext
      (setup.palette.colorFor p.signal) p.signal p.token false s.exchange = (.ok review, x)) :
    Pass.openReview setup s p false =
      ({ s with exchange := x }, { p with phase := .reviewing review }) := by
  rw [Pass.openReview, if_neg Bool.false_ne_true, hstart]

/-- What publishing an outcome and ending the pass leave alone. -/
theorem close_conclude (s : Session) (p : Pass) (outcome : Except ReviewFailure Tally) :
    let s' := (close (conclude s outcome) p false).1
    s'.document = s.document ∧ s'.exchange = s.exchange ∧
      s'.filter.fileContext = s.filter.fileContext ∧ s'.filter.ledger = s.filter.ledger := by
  obtain ⟨hexchange, hcontext⟩ := conclude_keeps s outcome
  have hagrees := conclude_agrees s outcome
  exact ⟨hagrees.document, hexchange, hcontext, hagrees.ledger⟩

theorem Unasked.fails (h : Unasked setup opened s made) {failure : ReviewFailure}
    (hnone : opened.document = none ∨ setup.reviewer.model? = none)
    (hstart : Review.start setup.reviewer s.document s.filter.fileContext
      (setup.palette.colorFor p.signal) p.signal p.token false s.exchange =
        (.error failure, s.exchange)) :
    (Pass.openReview setup s p false).2.Stands setup opened
      (Pass.openReview setup s p false).1 := by
  obtain ⟨hdocument, hexchange, -, hledger⟩ := close_conclude s p (.error failure)
  rw [openReview_of_failure hstart]
  cases h.made hnone
  refine .concluded rfl
    (.unasked ⟨hdocument.trans h.document, ?_, fun _ => rfl, fun id => ?_⟩ hnone)
  · rw [hexchange]
    exact h.since
  · rw [hledger]
    exact h.rendered id

/-- A pass is over when all markers are made that the reply leads to. -/
theorem Asked.close {d : Document} (h : Asked setup opened s p d made)
    (outcome : Except ReviewFailure Tally)
    (hrendered : ∀ id,
      s.filter.ledger.rendered id = expected setup opened p.signal d made.length id) :
    (Pass.close (conclude s outcome) p false).2.Stands setup opened
      (Pass.close (conclude s outcome) p false).1 := by
  let closed := Pass.close (conclude s outcome) p false
  obtain ⟨-, hexchange, hcontext, hledger⟩ := close_conclude s p outcome
  have hclosed : Asked setup opened closed.1 closed.2 d made := by
    obtain ⟨model, hmodel, hsince⟩ := h.since
    refine ⟨h.document, model, hmodel, ?_⟩
    rw [hexchange, hcontext]
    exact hsince
  refine .concluded rfl (.asked hclosed fun id => ?_)
  rw [hledger]
  exact hrendered id

theorem Unasked.asks (h : Unasked setup opened s made) (p : Pass) {d : Document} {model : Nat}
    (hdocument : opened.document = some d) (hmodel : setup.reviewer.model? = some model) :
    (Pass.openReview setup s p false).2.Stands setup opened
      (Pass.openReview setup s p false).1 := by
  obtain ⟨x, hsince, -, hstart⟩ := Review.start_of_model s.filter.fileContext
    (setup.palette.colorFor p.signal) p.signal p.token false d hmodel h.since
  rw [← hdocument, ← h.document] at hstart
  have hasked : Asked setup opened { s with exchange := x } p d made :=
    ⟨hdocument, model, hmodel, hsince⟩
  cases hanswer : opened.exchange.answer made.length with
  | refused failure =>
      rw [hanswer] at hstart
      rw [openReview_of_failure hstart]
      refine hasked.close _ fun id => ?_
      show s.filter.ledger.rendered id = _
      rw [h.rendered id, expected, hanswer]
      exact (ite_self []).symm
  | stream events =>
      rw [hanswer] at hstart
      rw [openReview_of_review hstart]
      let review : Review :=
        { document := d, signal := p.signal
          color := setup.palette.colorFor p.signal, feed := { events } }
      have hmarkers : review.feed.remaining.filterMap review.marker? =
          d.markersOfReply p.signal (setup.palette.colorFor p.signal) (.stream events) :=
        review.filterMap_marker? fun record hrecord =>
          Record.Decoder.isSmall_of_mem_pushAll hrecord
      refine .reviewing rfl ⟨hdocument, model, hmodel, hsince⟩ rfl fun id => ?_
      rw [expected, hanswer, ← hmarkers]
      show s.filter.ledger.rendered id ++ _ = _
      rw [h.rendered id, List.nil_append]

theorem Unasked.openReview (h : Unasked setup opened s made) (p : Pass) :
    (Pass.openReview setup s p false).2.Stands setup opened
      (Pass.openReview setup s p false).1 := by
  cases hdocument : opened.document with
  | none =>
      have hstart := Review.start_of_no_document setup.reviewer s.filter.fileContext
        (setup.palette.colorFor p.signal) p.signal p.token false s.exchange
      rw [← hdocument, ← h.document] at hstart
      exact h.fails (.inl hdocument) hstart
  | some d =>
      cases hmodel : setup.reviewer.model? with
      | none =>
          have hstart := Review.start_of_no_model s.filter.fileContext
            (setup.palette.colorFor p.signal) p.signal p.token false s.exchange d hmodel
          rw [← hdocument, ← h.document] at hstart
          exact h.fails (.inr hmodel) hstart
      | some model => exact h.asks p hdocument hmodel

/-- Whether a pass that was opened in a session is cancelled, or stands as one that is not. -/
def Goes (setup : FilterSetup) (opened s : Session) (p : Pass) : Prop :=
  p.token ∈ s.exchange.cancelled ∨ p.Stands setup opened s

theorem Unasked.review (h : Unasked setup opened s made) (p : Pass) (isCancelled : Bool) :
    (Pass.openReview setup s p isCancelled).2.Goes setup opened
      (Pass.openReview setup s p isCancelled).1 := by
  cases isCancelled with
  | true => exact .inl List.mem_cons_self
  | false => exact .inr (h.openReview p)

theorem Unasked.withFileContext (h : Unasked setup opened s made) (messages : List Message) :
    Unasked setup opened (Pass.withFileContext s messages) made :=
  ⟨h.document, h.since, h.made, h.rendered⟩

/-! ## On the way to the review -/

theorem Unasked.continueChoice (h : Unasked setup opened s made) (library : Library)
    (hcancelled : p.isCancelled = false) {choice : FileChoice}
    (hchoice : choice.isCancelled = false) :
    (Pass.continueChoice setup library s p choice).2.Goes setup opened
      (Pass.continueChoice setup library s p choice).1 := by
  unfold Pass.continueChoice
  split
  · exact (h.withFileContext _).review p _
  · exact (h.withFileContext []).review p _
  · exact .inr (.preparing h hcancelled (.inr ⟨_, rfl, hchoice⟩))

theorem Unasked.begin (h : Unasked setup opened s made) (hcancelled : p.isCancelled = false) :
    (Pass.begin setup s p).2.Goes setup opened (Pass.begin setup s p).1 := by
  unfold Pass.begin
  split
  · next library d hlibrary hdocument =>
      obtain ⟨made', hsince, hmade, hchoice⟩ := FileChoice.start_since setup.reviewer library d
        p.token p.isCancelled h.since
      have hmade' : opened.document = none ∨ setup.reviewer.model? = none → made' = [] := by
        rintro (hnone | hnone)
        · rw [← h.document, hdocument] at hnone
          cases hnone
        · exact (hmade hnone).trans (h.made (.inr hnone))
      split
      · next exchange hstart =>
          rw [hstart] at hsince
          have hunasked : Unasked setup opened { s with exchange } made' :=
            ⟨h.document, hsince, hmade', h.rendered⟩
          exact (hunasked.withFileContext []).review p _
      · next choice exchange hstart =>
          rw [hstart] at hsince hchoice
          have hunasked : Unasked setup opened { s with exchange } made' :=
            ⟨h.document, hsince, hmade', h.rendered⟩
          exact hunasked.continueChoice library hcancelled
            ((hchoice choice rfl).1.trans hcancelled)
  · exact h.review p p.isCancelled

theorem Stands.prepare (h : p.Stands setup opened s) :
    (p.prepare setup s).2.Goes setup opened (p.prepare setup s).1 := by
  unfold Pass.prepare
  cases h with
  | @preparing made hunasked hcancelled hphase =>
      rcases hphase with hopening | ⟨choice, hchoosing, hchoice⟩
      · rw [hopening]
        exact hunasked.begin hcancelled
      · rw [hchoosing]
        dsimp only
        split
        · next library _ => exact hunasked.continueChoice library hcancelled hchoice
        · exact hunasked.review p p.isCancelled
  | reviewing hphase hasked hdocument hrendered =>
      rw [hphase]
      exact .inr (.reviewing hphase hasked hdocument hrendered)
  | concluded hphase hconcludes =>
      rw [hphase]
      exact .inr (.concluded hphase hconcludes)

/-! ## Reading the reply -/

theorem Asked.continueReview {d : Document} (hasked : Asked setup opened s p d made)
    {review : Review} (hdocument : review.document = d)
    (hrendered : ∀ id, s.filter.ledger.rendered id ++
      (if d.id = id then review.feed.remaining.filterMap review.marker? else []) =
        expected setup opened p.signal d made.length id) :
    (Pass.continueReview s p review).2.Goes setup opened (Pass.continueReview s p review).1 := by
  obtain ⟨read, left, hread, -⟩ := review.exists_advance s.filter.ledger
  unfold Pass.continueReview
  dsimp only
  generalize review.advance s.filter.ledger = a at hread
  let marked := { s with filter := { s.filter with ledger := a.ledger } }.tell a.events
  have hmarked : ∀ id, marked.filter.ledger.rendered id = s.filter.ledger.rendered id ++
      if d.id = id then read.filterMap review.marker? else [] := by
    rw [← hdocument]
    exact hread.rendered
  split
  · next hover =>
      obtain ⟨hcancelled, hall⟩ := hread.atEnd hover
      rw [hcancelled]
      cases hfires : review.feed.fires with
      | true => exact .inl List.mem_cons_self
      | false =>
          have hremaining : review.feed.remaining = read := by
            rw [hread.remaining, (hall hfires).1, List.append_nil]
          have hmarking : Asked setup opened marked p d made := ⟨hasked.document, hasked.since⟩
          refine .inr (hmarking.close _ fun id => ?_)
          rw [hmarked id, ← hremaining]
          exact hrendered id
  · next hwaits =>
      have hcontinues := hread.waiting (Bool.not_eq_true _ ▸ hwaits)
      have hresumes := hread.resumes
      have hmarking : Asked setup opened marked { p with phase := .reviewing a.review } d made :=
        ⟨hasked.document, hasked.since⟩
      refine .inr (.reviewing rfl hmarking (hresumes.document.trans hdocument) fun id => ?_)
      rw [← hrendered id, hmarked id, hresumes.marker?_eq, hcontinues.remaining,
        List.append_assoc]
      congr 1
      by_cases hid : d.id = id
      · rw [if_pos hid, if_pos hid, if_pos hid, List.filterMap_append]
      · rw [if_neg hid, if_neg hid, if_neg hid, List.append_nil]

theorem Stands.readOn (h : p.Stands setup opened s) :
    (p.readOn s).2.Goes setup opened (p.readOn s).1 := by
  unfold Pass.readOn
  cases h with
  | preparing hunasked hcancelled hphase =>
      rcases hphase with hopening | ⟨choice, hchoosing, hchoice⟩
      · rw [hopening]
        exact .inr (.preparing hunasked hcancelled (.inl hopening))
      · rw [hchoosing]
        exact .inr (.preparing hunasked hcancelled (.inr ⟨choice, hchoosing, hchoice⟩))
  | @reviewing review d made hphase hasked hdocument hrendered =>
      rw [hphase]
      exact hasked.continueReview hdocument hrendered
  | concluded hphase hconcludes =>
      rw [hphase]
      exact .inr (.concluded hphase hconcludes)

theorem Goes.advance (h : p.Goes setup opened s) :
    (p.advance setup s).2.Goes setup opened (p.advance setup s).1 := by
  have hprepared : (p.prepare setup s).2.Goes setup opened (p.prepare setup s).1 := by
    rcases h with hcancelled | hstands
    · have hquiet := p.prepare_quiet setup s
      exact .inl (hquiet.continues.token ▸ hquiet.cancelled hcancelled)
    · exact hstands.prepare
  rw [Pass.advance]
  dsimp only
  rcases hprepared with hcancelled | hstands
  · have htoken := ((p.prepare setup s).2.readOn_continues (p.prepare setup s).1).token
    have hkept := (p.prepare setup s).2.subset_cancelled_readOn (p.prepare setup s).1
    exact .inl (htoken ▸ hkept hcancelled)
  · exact hstands.readOn

theorem Stands.concludes (h : p.Stands setup opened s) (hover : p.isOver = true) :
    p.Concludes setup opened s := by
  cases h with
  | preparing _ _ hphase =>
      rcases hphase with hopening | ⟨choice, hchoosing, -⟩
      · rw [isOver, hopening] at hover
        cases hover
      · rw [isOver, hchoosing] at hover
        cases hover
  | reviewing hphase _ _ _ =>
      rw [isOver, hphase] at hover
      cases hover
  | concluded _ hconcludes => exact hconcludes

theorem stands_of_toggle {severity : Severity} {isCancelled : Bool}
    (hcancelled : p.isCancelled = false) (hphase : p.phase = .opening) :
    p.Stands setup (s.begin (.toggle severity) isCancelled).1
      (s.begin (.toggle severity) isCancelled).1 := by
  have hunasked : Unasked setup (s.begin (.toggle severity) isCancelled).1
      (s.begin (.toggle severity) isCancelled).1 [] :=
    ⟨rfl, .refl _, fun _ => rfl, s.rendered_begin_toggle severity isCancelled⟩
  exact .preparing hunasked hcancelled (.inl hphase)

end

end Pass

end Marginalia
