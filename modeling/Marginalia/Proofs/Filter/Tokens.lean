import Marginalia.Filter.Session
import Marginalia.Proofs.Exchange

/-!
# Tokens do not matter

A token only tells which requests are cancelled together.  Nothing that a filter does depends
on which tokens it was given: sessions that are the same but for their tokens stay so, whatever
command they carry out.
-/

namespace Marginalia

namespace Model

def Request.forgetToken (r : Request) : Request :=
  { r with token := 0 }

def Exchange.forgetTokens (x : Exchange) : Exchange :=
  { x with requests := x.requests.map Request.forgetToken, cancelled := [], fresh := 0 }

namespace Exchange

@[simp] theorem forgetTokens_forgetTokens (x : Exchange) :
    x.forgetTokens.forgetTokens = x.forgetTokens := by
  simp [forgetTokens, Request.forgetToken, Function.comp_def]

@[simp] theorem forgetTokens_issue (x : Exchange) : x.issue.2.forgetTokens = x.forgetTokens := rfl

@[simp] theorem forgetTokens_cancel (x : Exchange) (token : Token) :
    (x.cancel token).forgetTokens = x.forgetTokens := rfl

@[simp] theorem forgetTokens_cancelIf (x : Exchange) (token : Token) (condition : Bool) :
    (x.cancelIf token condition).forgetTokens = x.forgetTokens := by
  rw [cancelIf]
  split
  · rfl
  · rfl

theorem answer_forgetTokens (x : Exchange) (count : Nat) :
    x.forgetTokens.answer count = x.answer count := rfl

/-- A request is added to those made and takes the first of the replies to come. -/
theorem send_eq (x : Exchange) (request : Request) :
    x.send request = (x.answer 0,
      { x with requests := x.requests ++ [request], replies := x.replies.drop 1 }) := by
  obtain ⟨replies, further, requests, cancelled, fresh⟩ := x
  cases replies with
  | nil => rfl
  | cons reply replies => rfl

end Exchange

end Model

theorem Review.start_forgetTokens (r : Reviewer) (document : Option Document)
    (fileContext : List Message) (color : String) (signal : Signal) (token : Model.Token)
    (isCancelled : Bool) (x : Model.Exchange) :
    let forgotten := start r document fileContext color signal 0 isCancelled x.forgetTokens
    let started := start r document fileContext color signal token isCancelled x
    forgotten.1 = started.1 ∧ forgotten.2.forgetTokens = started.2.forgetTokens := by
  simp only [start, Model.Exchange.send_eq, Model.Exchange.answer_forgetTokens]
  cases document with
  | none => simp
  | some d =>
      cases r.model? with
      | none => simp
      | some model =>
          cases x.answer 0 with
          | _ => simp [Model.Exchange.forgetTokens, Model.Request.forgetToken, Function.comp_def]

theorem FileChoice.start_forgetTokens (r : Reviewer) (library : Library) (d : Document)
    (token : Model.Token) (isCancelled : Bool) (x : Model.Exchange) :
    let forgotten := start r library d 0 isCancelled x.forgetTokens
    let started := start r library d token isCancelled x
    forgotten.1 = started.1 ∧ forgotten.2.forgetTokens = started.2.forgetTokens := by
  simp only [start, Model.Exchange.send_eq, Model.Exchange.answer_forgetTokens]
  split
  · simp
  · cases r.model? with
    | none => simp
    | some model =>
        cases x.answer 0 with
        | _ => simp [Model.Exchange.forgetTokens, Model.Request.forgetToken, Function.comp_def]

def Session.forgetTokens (s : Session) : Session :=
  { s with exchange := s.exchange.forgetTokens }

@[simp] theorem Session.forgetTokens_forgetTokens (s : Session) :
    s.forgetTokens.forgetTokens = s.forgetTokens := by
  simp [forgetTokens]

namespace Pass

def forgetToken (p : Pass) : Pass :=
  { p with token := 0 }

def forgotten (next : Session × Pass) : Session × Pass :=
  (next.1.forgetTokens, next.2.forgetToken)

theorem forgetTokens_create (s : Session) (signal : Signal) (isCancelled : Bool) :
    (create s signal isCancelled).1.forgetTokens = s.forgetTokens := by
  simp [create, Session.forgetTokens]

theorem forgotten_close (s : Session) (p : Pass) (isCancelled : Bool) :
    forgotten (close s.forgetTokens p.forgetToken isCancelled) =
      forgotten (close s p isCancelled) := by
  simp [forgotten, close, Session.forgetTokens, forgetToken]

theorem conclude_forgetTokens (s : Session) (outcome : Except ReviewFailure Tally) :
    conclude s.forgetTokens outcome = (conclude s outcome).forgetTokens := by
  cases outcome with
  | ok tally => rfl
  | error failure =>
      cases failure with
      | _ => rfl

theorem forgotten_openReview (setup : FilterSetup) (s : Session) (p : Pass) (isCancelled : Bool) :
    forgotten (openReview setup s.forgetTokens p.forgetToken isCancelled) =
      forgotten (openReview setup s p isCancelled) := by
  unfold openReview
  split
  · exact forgotten_close s p true
  · have hstart := Review.start_forgetTokens setup.reviewer s.document s.filter.fileContext
      (setup.palette.colorFor p.signal) p.signal p.token false s.exchange
    simp only [Session.forgetTokens, forgetToken]
    generalize Review.start setup.reviewer s.document s.filter.fileContext
      (setup.palette.colorFor p.signal) p.signal p.token false s.exchange = started at hstart ⊢
    generalize Review.start setup.reviewer s.document s.filter.fileContext
      (setup.palette.colorFor p.signal) p.signal 0 false s.exchange.forgetTokens = other
        at hstart ⊢
    obtain ⟨outcome, x⟩ := started
    obtain ⟨outcome', x'⟩ := other
    obtain ⟨houtcome, hexchange⟩ := hstart
    dsimp only at houtcome hexchange
    have hsession : ({ s with exchange := x' } : Session).forgetTokens =
        ({ s with exchange := x } : Session).forgetTokens := by
      simp [Session.forgetTokens, hexchange]
    subst houtcome
    cases outcome' with
    | error failure =>
        dsimp only
        rw [← forgotten_close, ← conclude_forgetTokens, hsession, conclude_forgetTokens]
        exact forgotten_close _ p false
    | ok review => simp [forgotten, hsession, forgetToken]

theorem forgotten_openReview_congr (setup : FilterSetup) {s s' : Session} {p p' : Pass}
    (hs : s.forgetTokens = s'.forgetTokens) (hp : p.forgetToken = p'.forgetToken)
    (isCancelled : Bool) :
    forgotten (openReview setup s p isCancelled) =
      forgotten (openReview setup s' p' isCancelled) := by
  rw [← forgotten_openReview, hs, hp, forgotten_openReview]

theorem forgotten_continueChoice (setup : FilterSetup) (library : Library) (s : Session) (p : Pass)
    (choice : FileChoice) :
    forgotten (continueChoice setup library s.forgetTokens p.forgetToken choice) =
      forgotten (continueChoice setup library s p choice) := by
  unfold continueChoice
  cases choice.advance with
  | complete reply isCancelled =>
      let messages := (FileChoice.conclude setup.reviewer library choice.offered reply).1
      exact forgotten_openReview setup (withFileContext s messages) p isCancelled
  | abandoned isCancelled =>
      exact forgotten_openReview setup (withFileContext s []) p isCancelled
  | waiting reply events => simp [forgotten, Session.forgetTokens, forgetToken]

theorem forgotten_continueChoice_congr (setup : FilterSetup) (library : Library)
    {s s' : Session} {p p' : Pass} (hs : s.forgetTokens = s'.forgetTokens)
    (hp : p.forgetToken = p'.forgetToken) (choice : FileChoice) :
    forgotten (continueChoice setup library s p choice) =
      forgotten (continueChoice setup library s' p' choice) := by
  rw [← forgotten_continueChoice, hs, hp, forgotten_continueChoice]

theorem forgotten_begin (setup : FilterSetup) (s : Session) (p : Pass) :
    forgotten (begin setup s.forgetTokens p.forgetToken) = forgotten (begin setup s p) := by
  unfold begin
  simp only [show s.forgetTokens.document = s.document from rfl]
  split
  · next library d _ _ =>
      have hstart := FileChoice.start_forgetTokens setup.reviewer library d p.token p.isCancelled
        s.exchange
      simp only [Session.forgetTokens, forgetToken]
      generalize FileChoice.start setup.reviewer library d p.token p.isCancelled s.exchange =
        started at hstart ⊢
      generalize FileChoice.start setup.reviewer library d 0 p.isCancelled
        s.exchange.forgetTokens = other at hstart ⊢
      obtain ⟨start, x⟩ := started
      obtain ⟨start', x'⟩ := other
      obtain ⟨hsame, hexchange⟩ := hstart
      dsimp only at hsame hexchange
      have hsession : ({ s with exchange := x' } : Session).forgetTokens =
          ({ s with exchange := x } : Session).forgetTokens := by
        simp [Session.forgetTokens, hexchange]
      subst hsame
      cases start' with
      | nothing =>
          have hcontext := congrArg (withFileContext · []) hsession
          refine forgotten_openReview_congr setup ?_ ?_ p.isCancelled
          · exact hcontext
          · rfl
      | reading choice =>
          refine forgotten_continueChoice_congr setup library ?_ ?_ choice
          · exact hsession
          · rfl
  · exact forgotten_openReview setup s p p.isCancelled

theorem forgotten_prepare (setup : FilterSetup) (s : Session) (p : Pass) :
    forgotten (p.forgetToken.prepare setup s.forgetTokens) = forgotten (p.prepare setup s) := by
  unfold prepare
  simp only [show p.forgetToken.phase = p.phase from rfl]
  cases p.phase with
  | opening => exact forgotten_begin setup s p
  | choosing choice =>
      cases setup.library with
      | none => exact forgotten_openReview setup s p p.isCancelled
      | some library => exact forgotten_continueChoice setup library s p choice
  | _ => simp [forgotten, Session.forgetTokens, forgetToken]

theorem forgotten_readOn (s : Session) (p : Pass) :
    forgotten (p.forgetToken.readOn s.forgetTokens) = forgotten (p.readOn s) := by
  unfold readOn
  simp only [show p.forgetToken.phase = p.phase from rfl]
  cases p.phase with
  | reviewing review =>
      simp only [continueReview, show s.forgetTokens.filter = s.filter from rfl]
      generalize review.advance s.filter.ledger = a
      split
      · let marked := { s with filter := { s.filter with ledger := a.ledger } }.tell a.events
        have hmarked : ({ s.forgetTokens with
            filter := { s.filter with ledger := a.ledger } } : Session).tell a.events =
          marked.forgetTokens := rfl
        rw [hmarked, conclude_forgetTokens]
        exact forgotten_close _ p _
      · simp [forgotten, Session.forgetTokens, forgetToken, Session.tell]
  | _ => simp [forgotten, Session.forgetTokens, forgetToken]

theorem forgotten_advance (setup : FilterSetup) (s : Session) (p : Pass) :
    forgotten (p.forgetToken.advance setup s.forgetTokens) = forgotten (p.advance setup s) := by
  have hprepare := forgotten_prepare setup s p
  simp only [forgotten, Prod.mk.injEq] at hprepare
  rw [advance, ← forgotten_readOn, hprepare.1, hprepare.2]
  exact forgotten_readOn _ _

theorem forgotten_advance_congr {s s' : Session} {p p' : Pass} (setup : FilterSetup)
    (hs : s.forgetTokens = s'.forgetTokens) (hp : p.forgetToken = p'.forgetToken) :
    forgotten (p.advance setup s) = forgotten (p'.advance setup s') := by
  rw [← forgotten_advance, hs, hp, forgotten_advance]

end Pass

namespace Session

theorem start_forgetTokens (s : Session) (command : FilterCommand) :
    s.forgetTokens.start command = ((s.start command).1.forgetTokens, (s.start command).2) := by
  cases command with
  | initialLoad => rfl
  | toggle severity =>
      simp only [start, applyToggle, show s.forgetTokens.filter = s.filter from rfl]
      cases Transition.plan s.filter.state severity with
      | _ => rfl

/-- The same command leads to the same, whatever the tokens are. -/
theorem handle_forgetTokens (setup : FilterSetup) (s : Session) (command : FilterCommand)
    (isCancelled : Bool) :
    let forgotten := s.forgetTokens.handle setup command isCancelled
    let handled := s.handle setup command isCancelled
    forgotten.1.forgetTokens = handled.1.forgetTokens ∧
      forgotten.2.map Pass.forgetToken = handled.2.map Pass.forgetToken := by
  simp only [handle, begin, start_forgetTokens]
  cases hstart : s.start command with
  | mk s' signal? =>
      cases signal? with
      | none => simp [forgetTokens]
      | some signal =>
          have hcreated : (Pass.create s'.forgetTokens signal isCancelled).1.forgetTokens =
              (Pass.create s' signal isCancelled).1.forgetTokens := by
            simp [Pass.forgetTokens_create]
          have hsame : (Pass.create s'.forgetTokens signal isCancelled).2.forgetToken =
              (Pass.create s' signal isCancelled).2.forgetToken := rfl
          have hadvance := Pass.forgotten_advance_congr setup hcreated hsame
          simp only [Pass.forgotten, Prod.mk.injEq] at hadvance
          exact ⟨hadvance.1, congrArg some hadvance.2⟩

end Session

end Marginalia
