import Marginalia.Model.Catalog
import Marginalia.Prompt
import Marginalia.Record.Feed
import Marginalia.Requirements

/-!
# Reviews

One review of the active document: the request is built, its reply is read for
records, every record is counted, and those the signal selects are marked in the
ledger.  A record on a line that the document does not have is counted and goes
unmarked.
-/

namespace Marginalia

inductive Scope where
  | document
  /-- The visible part, or the whole document when none is marked. -/
  | visible
  deriving DecidableEq, Repr, Inhabited

structure ReviewSettings where
  criteria : Model.Criteria := {}
  budget : Text.Budget := .default
  scope : Scope := .document
  deriving DecidableEq, Inhabited

inductive ReviewFailure where
  | noActiveDocument
  | noModelAvailable
  | model (failure : Model.Failure)
  | cancelled
  deriving DecidableEq, Repr

namespace ReviewFailure

/-- A failure of the model as a failure of the review; cancelling the one cancels the other. -/
def ofModel : Model.Failure → ReviewFailure
  | .cancelled => cancelled
  | failure => model failure

def message : ReviewFailure → String
  | noActiveDocument => "no active document"
  | noModelAvailable => "no language model available"
  | model failure => failure.message
  | cancelled => "annotation pass cancelled"

def causes : ReviewFailure → List String
  | model failure => failure.causes
  | _ => []

end ReviewFailure

def Scope.rangeOf (scope : Scope) (d : Document) : Nat × Nat :=
  match scope with
  | .document => d.fullRange
  | .visible => d.visible.getD d.fullRange

def Document.rows (d : Document) (scope : Scope) : String :=
  let range := scope.rangeOf d
  Text.numberLines ((d.linesIn range).map (·.2)) range.1

def Document.messages (d : Document) (scope : Scope) (budget : Text.Budget) : List Message :=
  Message.chunked (d.rows scope) budget

def Requirements.messages (r : Requirements) (budget : Text.Budget) : List Message :=
  match r.payload? with
  | none => []
  | some payload => Message.chunked payload budget

structure Reviewer where
  catalog : Model.Catalog
  requirements : Requirements := {}
  settings : ReviewSettings := {}
  deriving Inhabited

namespace Reviewer

def model? (r : Reviewer) : Option Nat :=
  r.catalog.select? r.settings.criteria

/-- Instructions, requirements, file context, then the document. -/
def messages (r : Reviewer) (d : Document) (fileContext : List Message) : List Message :=
  (Message.system? Prompt.review).toList ++ r.requirements.messages r.settings.budget ++
    fileContext ++ d.messages r.settings.scope r.settings.budget

end Reviewer

structure Review where
  document : Document
  signal : Signal
  color : String
  feed : Record.Feed
  tally : Tally := {}
  deriving DecidableEq

namespace Review

/-- Asks a model for a review; the exchange is untouched when there is nobody to ask. -/
def start (r : Reviewer) (document : Option Document) (fileContext : List Message)
    (color : String) (signal : Signal) (token : Model.Token) (isCancelled : Bool)
    (x : Model.Exchange) : Except ReviewFailure Review × Model.Exchange :=
  match document with
  | none => (.error .noActiveDocument, x)
  | some document =>
      match r.model? with
      | none => (.error .noModelAvailable, x)
      | some model =>
          match x.send ⟨model, r.messages document fileContext, token⟩ with
          | (.refused failure, x) => (.error (.ofModel failure), x)
          | (.stream events, x) =>
              (.ok { document, signal, color, feed := { events, isCancelled } }, x)

structure Progress where
  tally : Tally
  ledger : Ledger
  events : List HostEvent := []

/-- Takes in a record: counts it, and marks its line when the signal selects it. -/
def take (review : Review) (p : Progress) (record : Record) : Progress :=
  let p := { p with tally := p.tally.count record.severity }
  if review.signal.renders record.severity then
    match record.severity.severity? with
    | none => p
    | some severity =>
        match p.ledger.apply review.document record.line record.suggestion.text severity
            review.color with
        | .error _ => p
        | .ok applied =>
            { p with ledger := applied.ledger, events := p.events ++ applied.events }
  else p

structure Advanced where
  review : Review
  ledger : Ledger
  events : List HostEvent
  isOver : Bool

def advance (review : Review) (ledger : Ledger) : Advanced :=
  let take (p : Progress) (record : Record) := (review.take p record, false)
  match review.feed.fold take { tally := review.tally, ledger } with
  | (p, .over feed) => ⟨{ review with feed, tally := p.tally }, p.ledger, p.events, true⟩
  | (p, .waiting feed) => ⟨{ review with feed, tally := p.tally }, p.ledger, p.events, false⟩

/-- Reads on past every wait that ends by itself. -/
def complete (review : Review) (ledger : Ledger) : Advanced :=
  let a := review.advance ledger
  if _h : a.isOver = false ∧ a.review.feed.events.length < review.feed.events.length then
    let b := a.review.complete a.ledger
    { b with events := a.events ++ b.events }
  else a
termination_by review.feed.events.length
decreasing_by exact _h.2

/-- The outcome of a review that is over: its tally, unless it was cancelled. -/
def outcome (review : Review) : Except ReviewFailure Tally :=
  if review.feed.isCancelled then .error .cancelled else .ok review.tally

structure Run where
  outcome : Except ReviewFailure Tally
  ledger : Ledger
  events : List HostEvent
  exchange : Model.Exchange
  /-- Whether it comes to an end; a reply that stalls for good keeps it waiting. -/
  isOver : Bool := true

def run (r : Reviewer) (document : Option Document) (ledger : Ledger)
    (fileContext : List Message) (color : String) (signal : Signal) (isCancelled : Bool)
    (x : Model.Exchange) : Run :=
  let (token, x) := x.issue
  match start r document fileContext color signal token isCancelled x with
  | (.error failure, x) =>
      { outcome := .error failure, ledger, events := [], exchange := x.cancelIf token isCancelled }
  | (.ok review, x) =>
      let a := review.complete ledger
      { outcome := a.review.outcome
        ledger := a.ledger
        events := a.events
        exchange := x.cancelIf token a.review.feed.isCancelled
        isOver := a.isOver }

end Review

end Marginalia
