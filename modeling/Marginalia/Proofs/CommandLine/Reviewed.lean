import Marginalia.CommandLine.Program
import Marginalia.Proofs.Filter.Outcome
import Marginalia.Proofs.Filter.Requests

/-!
# What a run asks for

A run that reviews a document asks for one review of it, perhaps behind a choice of files.  It
asks for none only when the reply to that choice falls silent.
-/

namespace Marginalia

/-- Whether a reply comes to its end without being waited for, and cancels nothing. -/
def Model.Reply.isHeard : Model.Reply → Bool
  | .refused _ => true
  | .stream events =>
      events.all fun
        | .fragment _ => true
        | .failure _ => true
        | _ => false

namespace FileChoice

/-- Whether the review can be asked for after this. -/
def Collected.leadsOn : Collected → Bool
  | .complete _ isCancelled => !isCancelled
  | .abandoned isCancelled => !isCancelled
  | .waiting _ _ => false

theorem leadsOn_collect {events : List Model.Event} (reply : String)
    (h : (Model.Reply.stream events).isHeard = true) :
    (collect reply false events).leadsOn = true := by
  induction events generalizing reply with
  | nil => rfl
  | cons event events ih =>
      simp only [Model.Reply.isHeard, List.all_cons, Bool.and_eq_true] at h ih
      cases event with
      | fragment text => exact ih (reply ++ text) h.2
      | failure failure => rfl
      | _ => exact absurd h.1 Bool.false_ne_true

theorem start_reads {r : Reviewer} {library : Library} {d : Document} {token : Model.Token}
    {isCancelled : Bool} {x x' : Model.Exchange} {choice : FileChoice}
    (h : start r library d token isCancelled x = (.reading choice, x')) :
    choice.isCancelled = isCancelled ∧ x.answer 0 = .stream choice.events := by
  simp only [start, Model.Exchange.send_eq] at h
  split at h
  · cases h
  · cases hmodel : r.model? with
    | none =>
        rw [hmodel] at h
        cases h
    | some model =>
        rw [hmodel] at h
        cases hanswer : x.answer 0 with
        | refused failure =>
            rw [hanswer] at h
            cases h
        | stream events =>
            rw [hanswer] at h
            cases h
            exact ⟨rfl, rfl⟩

end FileChoice

namespace Pass

variable {setup : FilterSetup} {d : Document} {model : Nat}

/--
What is asked for one review of a document: perhaps something that is no review, and then the
review.  It is left out only if something may be chosen and the reply that is due to that is
not heard to its end.
-/
structure Requested (setup : FilterSetup) (d : Document) (due : Model.Reply)
    (choices reviews : List Model.Request) : Prop where
  others : ∀ r ∈ choices, r.asksForReview = false
  shown : ∀ r ∈ reviews, ∃ fileContext, r.messages = setup.reviewer.messages d fileContext
  single : reviews.length ≤ 1
  heard : setup.library = none ∨ due.isHeard = true → reviews.length = 1

theorem requests_openReview {s : Session} (hdocument : s.document = some d)
    (hmodel : setup.reviewer.model? = some model) (p : Pass) :
    let next := openReview setup s p false
    next.2.phase ≠ .opening ∧ next.1.exchange.requests = s.exchange.requests ++
      [⟨model, setup.reviewer.messages d s.filter.fileContext, p.token⟩] := by
  obtain ⟨x, hsince, -, hstart⟩ := Review.start_of_model s.filter.fileContext
    (setup.palette.colorFor p.signal) p.signal p.token false d hmodel (.refl s.exchange)
  rw [← hdocument] at hstart
  cases hanswer : s.exchange.answer 0 with
  | refused failure =>
      rw [List.length_nil, hanswer] at hstart
      rw [openReview_of_failure hstart]
      refine ⟨nofun, ?_⟩
      rw [(close_sends ..).1, (conclude_keeps _ _).1]
      exact hsince.requests
  | stream events =>
      rw [List.length_nil, hanswer] at hstart
      rw [openReview_of_review hstart]
      exact ⟨nofun, hsince.requests⟩

section

variable {s : Session} {p : Pass} {x : Model.Exchange} {choices : List Model.Request}

/-- A pass that was opened with an exchange, after it has sent what it had to send. -/
def Sends (setup : FilterSetup) (d : Document) (x : Model.Exchange) (next : Session × Pass) :
    Prop :=
  next.2.phase ≠ .opening ∧ ∃ choices reviews,
    next.1.exchange.requests = x.requests ++ (choices ++ reviews) ∧
      Requested setup d (x.answer 0) choices reviews

theorem sends_nothing {next : Session × Pass} (hphase : next.2.phase ≠ .opening)
    (hrequests : next.1.exchange.requests = x.requests ++ choices)
    (hchoices : ∀ r ∈ choices, r.asksForReview = false)
    (hsilent : ¬(setup.library = none ∨ (x.answer 0).isHeard = true)) : Sends setup d x next := by
  refine ⟨hphase, choices, [], ?_, hchoices, nofun, Nat.zero_le 1, fun h => absurd h hsilent⟩
  rw [hrequests, List.append_nil]

theorem sends_openReview (hdocument : s.document = some d)
    (hmodel : setup.reviewer.model? = some model)
    (hrequests : s.exchange.requests = x.requests ++ choices)
    (hchoices : ∀ r ∈ choices, r.asksForReview = false) {isCancelled : Bool}
    (hcancelled : isCancelled = true → ¬(setup.library = none ∨ (x.answer 0).isHeard = true)) :
    Sends setup d x (openReview setup s p isCancelled) := by
  cases isCancelled with
  | true =>
      exact sends_nothing nofun ((close_sends s p true).1.trans hrequests) hchoices
        (hcancelled rfl)
  | false =>
      obtain ⟨hphase, hasked⟩ := requests_openReview hdocument hmodel p
      rw [hrequests, List.append_assoc] at hasked
      refine ⟨hphase, choices, [_], hasked, hchoices, fun r hr => ?_, Nat.le_refl 1, fun _ => rfl⟩
      rw [List.mem_singleton.mp hr]
      exact ⟨_, rfl⟩

theorem sends_continueChoice {library : Library} (hlibrary : setup.library = some library)
    (hdocument : s.document = some d) (hmodel : setup.reviewer.model? = some model)
    (hrequests : s.exchange.requests = x.requests ++ choices)
    (hchoices : ∀ r ∈ choices, r.asksForReview = false) {choice : FileChoice}
    (hcancelled : choice.isCancelled = false) (hanswer : x.answer 0 = .stream choice.events) :
    Sends setup d x (continueChoice setup library s p choice) := by
  have hleads : setup.library = none ∨ (x.answer 0).isHeard = true →
      choice.advance.leadsOn = true := by
    rintro (hnone | hheard)
    · rw [hlibrary] at hnone
      cases hnone
    · rw [hanswer] at hheard
      rw [FileChoice.advance, hcancelled, if_neg Bool.false_ne_true]
      exact FileChoice.leadsOn_collect choice.reply hheard
  unfold continueChoice
  cases hadvance : choice.advance with
  | complete reply isCancelled =>
      let messages := (FileChoice.conclude setup.reviewer library choice.offered reply).1
      refine sends_openReview (s := withFileContext s messages) hdocument hmodel hrequests
        hchoices fun htrue h => ?_
      have hgoes := hleads h
      rw [hadvance, htrue] at hgoes
      cases hgoes
  | abandoned isCancelled =>
      refine sends_openReview (s := withFileContext s []) hdocument hmodel hrequests hchoices
        fun htrue h => ?_
      have hgoes := hleads h
      rw [hadvance, htrue] at hgoes
      cases hgoes
  | waiting reply events =>
      refine sends_nothing nofun hrequests hchoices fun h => ?_
      have hgoes := hleads h
      rw [hadvance] at hgoes
      cases hgoes

theorem sends_begin (hdocument : s.document = some d)
    (hmodel : setup.reviewer.model? = some model) (hcancelled : p.isCancelled = false) :
    Sends setup d s.exchange (begin setup s p) := by
  have hnotCancelled : p.isCancelled = true →
      ¬(setup.library = none ∨ (s.exchange.answer 0).isHeard = true) := by
    rw [hcancelled]
    exact fun h => absurd h Bool.false_ne_true
  unfold begin
  split
  · next library d' hlibrary hdocument' =>
      cases hdocument.symm.trans hdocument'
      obtain ⟨-, made, hmade, -, hchoices⟩ := FileChoice.start_requests setup.reviewer library d
        p.token p.isCancelled s.exchange
      split
      · next exchange hstart =>
          rw [hstart] at hmade
          exact sends_openReview (s := withFileContext { s with exchange } []) hdocument hmodel
            hmade hchoices hnotCancelled
      · next choice exchange hstart =>
          rw [hstart] at hmade
          obtain ⟨hchoice, hanswer⟩ := FileChoice.start_reads hstart
          exact sends_continueChoice (s := { s with exchange }) hlibrary hdocument hmodel hmade
            hchoices (hchoice.trans hcancelled) hanswer
  · exact sends_openReview hdocument hmodel (List.append_nil _).symm nofun hnotCancelled

theorem begun_readOn (s : Session) {p : Pass} (hphase : p.phase ≠ .opening) :
    (p.readOn s).2.phase ≠ .opening := by
  unfold readOn
  cases hp : p.phase with
  | opening => exact absurd hp hphase
  | reviewing review =>
      simp only [continueReview]
      split
      · simp [close]
      · simp
  | _ => simp [hp]

/-- What is cancelled after it has sent its requests sends no more. -/
theorem requests_advance_cancel (setup : FilterSetup) (s : Session) {p : Pass}
    (hphase : p.phase ≠ .opening) :
    (p.cancel.advance setup s).1.exchange.requests = s.exchange.requests := by
  have hprepare : (p.cancel.prepare setup s).1.exchange.requests = s.exchange.requests := by
    unfold prepare cancel
    cases hp : p.phase with
    | opening => exact absurd hp hphase
    | choosing choice =>
        cases setup.library with
        | none => exact (close_sends s _ true).1
        | some library => exact (close_sends (withFileContext s []) _ true).1
    | _ => rfl
  rw [advance]
  exact (readOn_sends ..).1.trans hprepare

theorem sends_run (hdocument : s.document = some d)
    (hmodel : setup.reviewer.model? = some model) (signal : Signal) :
    Sends setup d s.exchange (run setup s signal false) := by
  let created := create s signal false
  obtain ⟨hbegun, choices, reviews, hrequests, hrequested⟩ :=
    sends_begin (s := created.1) (p := created.2) hdocument hmodel rfl
  let begun := begin setup created.1 created.2
  exact ⟨begun_readOn begun.1 hbegun, choices, reviews,
    (readOn_sends begun.1 begun.2).1.trans hrequests, hrequested⟩

end

end Pass

namespace CommandLine

/-- The requests of a run that reviews a document. -/
theorem Desk.review_requested (d : Desk) {model : Nat}
    (hmodel : d.setup.reviewer.model? = some model) (severity : Option Severity) :
    ∃ choices reviews, (d.review severity).1.exchange.requests =
        d.exchange.requests ++ (choices ++ reviews) ∧
      Pass.Requested d.setup d.document (d.exchange.answer 0) choices reviews := by
  have hawait : ∀ next : Session × Pass, next.2.phase ≠ .opening →
      (d.await next.1 next.2).1.exchange.requests = next.1.exchange.requests := by
    intro next hphase
    unfold await
    split
    · rfl
    · exact Pass.requests_advance_cancel d.setup next.1 hphase
  cases severity with
  | none =>
      obtain ⟨hphase, choices, reviews, hrequests, hrequested⟩ :=
        Pass.sends_run (s := { d.session with filter := { state := .inactive } }) rfl hmodel
          .initialLoad
      exact ⟨choices, reviews, (hawait _ hphase).trans hrequests, hrequested⟩
  | some severity =>
      obtain ⟨hphase, choices, reviews, hrequests, hrequested⟩ :=
        Pass.sends_run (s := (d.session.applyToggle severity).1) rfl hmodel (.display severity)
      exact ⟨choices, reviews, (hawait _ hphase).trans hrequests, hrequested⟩

end CommandLine

end Marginalia
