import Marginalia.FileContext
import Marginalia.Filter.Transition

/-!
# The filter at work

Activating a severity clears the ledger and starts a pass: files may be chosen, then
the document is reviewed and the records of that severity are marked.  Deactivating
clears the ledger and starts nothing.  The initial load counts without marking.

A pass that completes publishes its tally; one that fails says so and publishes a
zero tally; one that is cancelled does neither.
-/

namespace Marginalia

structure Palette where
  red : String := "rgb(255, 114, 114)"
  yellow : String := "rgb(249, 255, 85)"
  green : String := "rgb(54, 255, 108)"
  deriving DecidableEq, Repr, Inhabited

def Palette.color (p : Palette) : Severity → String
  | .red => p.red
  | .yellow => p.yellow
  | .green => p.green

def Palette.colorFor (p : Palette) : Signal → String
  | .display severity => p.color severity
  | .initialLoad => ""

structure FilterSetup where
  reviewer : Reviewer
  palette : Palette := {}
  library : Option Library := none

structure Filter where
  state : FilterState := .inactive
  tally : Tally := {}
  ledger : Ledger := {}
  fileContext : List Message := []
  deriving DecidableEq, Inhabited

structure Session where
  filter : Filter := {}
  document : Option Document := none
  exchange : Model.Exchange := {}
  events : List HostEvent := []
  deriving DecidableEq, Inhabited

def ReviewFailure.warning : ReviewFailure → String
  | .noActiveDocument => "No active open file found"
  | .noModelAvailable =>
      "No language model available. Check the [model] section of your config."
  | failure => "Annotation request failed: " ++ failure.message

namespace Session

def tell (s : Session) (events : List HostEvent) : Session :=
  { s with events := s.events ++ events }

def publish (s : Session) : Session :=
  s.tell [.counts s.filter.tally s.filter.state]

/-- Takes away all markers and sets the state that a toggle leads to. -/
def applyToggle (s : Session) (severity : Severity) : Session × Transition :=
  let transition := Transition.plan s.filter.state severity
  let (ledger, events) := s.filter.ledger.clearAll
  let s := { s with filter := { s.filter with ledger, state := transition.target } }.tell events
  match transition with
  | .deactivate _ => (s.publish, transition)
  | _ => (s, transition)

/-- The state change of a command, and the review that it starts. -/
def start (s : Session) : FilterCommand → Session × Option Signal
  | .initialLoad =>
      ({ s with filter := { s.filter with state := .inactive } }, some .initialLoad)
  | .toggle severity =>
      let (s, transition) := s.applyToggle severity
      (s, transition.signal?)

end Session

inductive Phase where
  | opening
  | choosing (choice : FileChoice)
  | reviewing (review : Review)
  | over
  deriving DecidableEq

structure Pass where
  token : Model.Token
  signal : Signal
  isCancelled : Bool := false
  phase : Phase := .opening
  deriving DecidableEq

namespace Pass

def create (s : Session) (signal : Signal) (isCancelled : Bool) : Session × Pass :=
  let (token, exchange) := s.exchange.issue
  ({ s with exchange := exchange.cancelIf token isCancelled }, { token, signal, isCancelled })

def cancel (p : Pass) : Pass :=
  let phase :=
    match p.phase with
    | .choosing choice => .choosing { choice with isCancelled := true }
    | .reviewing review => .reviewing { review with feed := review.feed.cancel }
    | phase => phase
  { p with isCancelled := true, phase }

def isOver (p : Pass) : Bool :=
  match p.phase with
  | .over => true
  | _ => false

/-- Ends a pass and notes whether its requests were cancelled. -/
def close (s : Session) (p : Pass) (isCancelled : Bool) : Session × Pass :=
  ({ s with exchange := s.exchange.cancelIf p.token isCancelled },
    { p with isCancelled, phase := .over })

def conclude (s : Session) : Except ReviewFailure Tally → Session
  | .ok tally => { s with filter := { s.filter with tally } }.publish
  | .error .cancelled => s
  | .error failure =>
      ({ s with filter := { s.filter with tally := {} } }.tell [.warning failure.warning]).publish

def continueReview (s : Session) (p : Pass) (review : Review) : Session × Pass :=
  let a := review.advance s.filter.ledger
  let s := { s with filter := { s.filter with ledger := a.ledger } }.tell a.events
  if a.isOver then close (conclude s a.review.outcome) p a.review.feed.isCancelled
  else (s, { p with phase := .reviewing a.review })

def openReview (setup : FilterSetup) (s : Session) (p : Pass) (isCancelled : Bool) :
    Session × Pass :=
  if isCancelled then close s p true
  else
    match Review.start setup.reviewer s.document s.filter.fileContext
        (setup.palette.colorFor p.signal) p.signal p.token false s.exchange with
    | (.error failure, exchange) => close (conclude { s with exchange } (.error failure)) p false
    | (.ok review, exchange) => ({ s with exchange }, { p with phase := .reviewing review })

def withFileContext (s : Session) (messages : List Message) : Session :=
  { s with filter := { s.filter with fileContext := messages } }

/-- Reads the choice of files as far as it has arrived; once it is made, the review is asked for. -/
def continueChoice (setup : FilterSetup) (library : Library) (s : Session) (p : Pass)
    (choice : FileChoice) : Session × Pass :=
  match choice.advance with
  | .complete reply isCancelled =>
      let (messages, _) := FileChoice.conclude setup.reviewer library choice.offered reply
      openReview setup (withFileContext s messages) p isCancelled
  | .abandoned isCancelled => openReview setup (withFileContext s []) p isCancelled
  | .waiting reply events => (s, { p with phase := .choosing { choice with reply, events } })

def begin (setup : FilterSetup) (s : Session) (p : Pass) : Session × Pass :=
  match setup.library, s.document with
  | some library, some document =>
      match FileChoice.start setup.reviewer library document p.token p.isCancelled s.exchange with
      | (.nothing, exchange) =>
          openReview setup (withFileContext { s with exchange } []) p p.isCancelled
      | (.reading choice, exchange) =>
          continueChoice setup library { s with exchange } p choice
  | _, _ => openReview setup s p p.isCancelled

def prepare (setup : FilterSetup) (s : Session) (p : Pass) : Session × Pass :=
  match p.phase with
  | .opening => begin setup s p
  | .choosing choice =>
      match setup.library with
      | some library => continueChoice setup library s p choice
      | none => openReview setup s p p.isCancelled
  | _ => (s, p)

def readOn (s : Session) (p : Pass) : Session × Pass :=
  match p.phase with
  | .reviewing review => continueReview s p review
  | _ => (s, p)

def advance (setup : FilterSetup) (s : Session) (p : Pass) : Session × Pass :=
  let (s, p) := p.prepare setup s
  p.readOn s

def run (setup : FilterSetup) (s : Session) (signal : Signal) (isCancelled : Bool) :
    Session × Pass :=
  let (s, p) := create s signal isCancelled
  p.advance setup s

end Pass

namespace Session

/-- The pass that counts without marking; the filter becomes inactive. -/
def initialLoad (setup : FilterSetup) (s : Session) (isCancelled : Bool) : Session × Pass :=
  Pass.run setup { s with filter := { s.filter with state := .inactive } } .initialLoad
    isCancelled

def toggle (setup : FilterSetup) (s : Session) (severity : Severity) (isCancelled : Bool) :
    Session × Transition × Option Pass :=
  let (s, transition) := s.applyToggle severity
  match transition.signal? with
  | none => (s, transition, none)
  | some signal =>
      let (s, p) := Pass.run setup s signal isCancelled
      (s, transition, some p)

def begin (s : Session) (command : FilterCommand) (isCancelled : Bool) : Session × Option Pass :=
  match s.start command with
  | (s, none) => (s, none)
  | (s, some signal) =>
      let (s, p) := Pass.create s signal isCancelled
      (s, some p)

def handle (setup : FilterSetup) (s : Session) (command : FilterCommand) (isCancelled : Bool) :
    Session × Option Pass :=
  match s.begin command isCancelled with
  | (s, none) => (s, none)
  | (s, some p) =>
      let (s, p) := p.advance setup s
      (s, some p)

end Session

end Marginalia
