import Marginalia.CommandLine.Command
import Marginalia.CommandLine.RunFault
import Marginalia.CommandLine.Usage
import Marginalia.Chat.Proxy
import Marginalia.Chat.Response
import Marginalia.FollowUp
import Marginalia.Log
import Marginalia.Workspace

/-!
# Running the program

A run takes the words of its command line, the disk and the environment as they are found,
and the responses that its requests meet with.  It leaves behind what is printed, the
requests that were posted, and the disk with a log on it.

A reply that falls silent is waited for until the person at the terminal interrupts the run.
-/

namespace Marginalia

namespace CommandLine

structure Surroundings where
  disk : Disk
  environment : Environment := {}
  /-- The responses to the first requests, in order. -/
  responses : List Chat.Response := []
  /-- The response to every further request; without one the service is out of reach. -/
  further : Option Chat.Response := none

structure Performance where
  out : String := ""
  err : String := ""
  posts : List Chat.Post := []
  fault : Option RunFault := none

structure Outcome where
  code : Nat := 0
  out : String := ""
  err : String := ""
  posts : List Chat.Post := []
  disk : Disk
  /-- The place of the log. -/
  log : Option (List String) := none

structure Desk where
  document : Document
  setup : FilterSetup
  service : Chat.Service
  endpoint : Url
  /-- Whether requests reach the service. -/
  isReached : Bool
  exchange : Model.Exchange

/-! ## Preparing a review -/

/-- The settings of a run: those of the file that was named, or of the file of the user. -/
def loadSettings (w : Surroundings) : Option String → Except SettingsFault Settings
  | some path => Settings.read w.disk path
  | none => (Settings.readUser w.disk w.environment).map (·.getD {})

def loadRequirements (d : Disk) : RequirementsSource → Except RunFault Requirements
  | .none => .ok {}
  | .text text => .ok ⟨text⟩
  | .file path =>
      match d.readText path with
      | .ok text => .ok ⟨text⟩
      | .error fault => .error (.requirements path fault)

def workspaceHere (d : Disk) : Workspace :=
  ⟨d.herePath⟩

/-- The document at a path, named by its place as it is seen from the workspace. -/
def openDocument (d : Disk) (path : String) : Except RunFault Document :=
  match d.locate path with
  | .error fault => .error (.opening path fault)
  | .ok place =>
      let full := Disk.pathTo place
      match d.readText full with
      | .error fault => .error (.reading full fault)
      | .ok text => .ok (.ofText (((workspaceHere d).relativePath? full).getD full) text)

def narrow (d : Document) : Option LineRange → Document
  | none => d
  | some range => d.withVisible range.first range.last

/-- Whether a run takes its requests to a proxy; none is spoken with. -/
def isDiverted (w : Surroundings) (endpoint : Url) : Bool :=
  Chat.Proxy.isUsed w.environment endpoint

def exchangeWith (w : Surroundings) (service : Chat.Service) (endpoint : Url) :
    Model.Exchange :=
  let unreachable : Model.Reply := .refused (Chat.Service.unreachable endpoint)
  match service.refusal? endpoint with
  | some cause => { further := .refused (.transport cause) }
  | none =>
      if isDiverted w endpoint then { further := unreachable }
      else
        { replies := w.responses.map (·.toReply)
          further := (w.further.map (·.toReply)).getD unreachable }

def prepare (w : Surroundings) (settings : Settings) (file : String)
    (visible : Option LineRange) (source : RequirementsSource) : Except RunFault Desk := do
  let requirements ← loadRequirements w.disk source
  let document ← openDocument w.disk file
  let service ← (settings.service w.environment).mapError .settings
  let endpoint ← service.endpoint.mapError .client
  let library := (workspaceHere w.disk).library w.disk w.environment
  return {
    document := narrow document visible
    setup :=
      { reviewer :=
          { catalog := ⟨[service.identity]⟩, requirements, settings := settings.reviewSettings }
        palette := settings.palette
        library := if settings.choosesFiles then some library else none }
    service
    endpoint
    isReached := (service.refusal? endpoint).isNone && !isDiverted w endpoint
    exchange := exchangeWith w service endpoint }

namespace Desk

/-- The requests of an exchange as they were posted; none was to a service out of reach. -/
def posts (d : Desk) (x : Model.Exchange) : List Chat.Post :=
  if d.isReached then x.requests.map fun r => d.service.post d.endpoint r.messages else []

def session (d : Desk) : Session :=
  { document := some d.document, exchange := d.exchange }

/-- Waits for a pass; one that falls silent is interrupted.  Tells whether it was. -/
def await (d : Desk) (s : Session) (p : Pass) : Session × Bool :=
  if p.isOver then (s, false) else ((p.cancel.advance d.setup s).1, true)

/-- Reviews the document with the markers of a severity shown, or none. -/
def review (d : Desk) : Option Severity → Session × Bool
  | none =>
      let (s, p) := d.session.initialLoad d.setup false
      d.await s p
  | some severity =>
      match d.session.toggle d.setup severity false with
      | (s, _, none) => (s, false)
      | (s, _, some p) => d.await s p

/-- What the events of a session print on standard error. -/
def complaints (s : Session) : String :=
  String.join (s.events.map Terminal.complaint)

/-! ## The commands -/

def annotate (d : Desk) (severity : Option Severity) : Performance :=
  let (s, _) := d.review severity
  let display := ({} : Display).replay s.events
  { out := String.join (s.events.map (Terminal.output false)) ++
      Terminal.markers d.document display
    err := complaints s
    posts := d.posts s.exchange }

/-- What is printed of a reply, which ends in a new line, and how the reply failed. -/
def printReply : List Model.Event → String × Option Model.Failure
  | .fragment text :: events =>
      let (out, failure) := printReply events
      (text ++ out, failure)
  | .pause :: events => printReply events
  | .failure failure :: _ => ("\n", some failure)
  | _ => ("\n", none)

def headline (a : Annotation) : String :=
  "Line " ++ toString a.line ++ ": [" ++ a.severity.label ++ "] " ++ a.suggestion ++ "\n"

/-- The question for a conversation; when there are no words for it, more detail is asked for. -/
def questionText (words : List String) (a : Annotation) : String :=
  if words.isEmpty then Prompt.openingQuestion a else String.intercalate " " words

def converse (d : Desk) (s : Session) (a : Annotation) (words : List String) : Performance :=
  let before : Performance :=
    { out := headline a, err := complaints s, posts := d.posts s.exchange }
  match NonBlank.ofString? (questionText words a) with
  | none => { before with fault := some .blankQuestion }
  | some question =>
      let (token, x) := s.exchange.issue
      let conversation := FollowUp.turnTo {} a
      match conversation.ask d.setup.reviewer question s.filter.fileContext s.document token x with
      | (.error failure, x) =>
          { before with posts := d.posts x, fault := some (.question failure) }
      | (.ok events, x) =>
          let (reply, failure) := printReply events
          { before with
            out := before.out ++ reply
            posts := d.posts x
            fault := failure.map .reply }

/-- Reviews the document and asks about the marker on a line, unless it is interrupted. -/
def ask (d : Desk) (severity : Severity) (line : Nat) (words : List String) : Performance :=
  let (s, isInterrupted) := d.review (some severity)
  let quiet : Performance := { err := complaints s, posts := d.posts s.exchange }
  if isInterrupted then quiet
  else
    match Annotation.at? s.filter.ledger d.document.id line with
    | none => { quiet with fault := some (.noMarker severity line d.document.id) }
    | some a => d.converse s a words

end Desk

def listFiles (w : Surroundings) (directory : Option String) : Performance :=
  let root := directory.getD w.disk.herePath
  let files := (Workspace.mk root).files w.disk w.environment
  { out := String.join (files.map (· ++ "\n")) }

/-- What a command comes to that ends in a fault, or is carried out. -/
def orFault : Except RunFault Performance → Performance
  | .ok performance => performance
  | .error fault => { fault := some fault }

def carryOut (w : Surroundings) (invocation : Invocation) : Performance :=
  match invocation.command with
  | .files directory => listFiles w directory
  | .annotate file severity visible source =>
      orFault do
        let settings ← (loadSettings w invocation.config).mapError .settings
        let desk ← prepare w settings file visible source
        return desk.annotate severity
  | .ask file severity line words source =>
      orFault do
        let settings ← (loadSettings w invocation.config).mapError .settings
        let desk ← prepare w settings file none source
        return desk.ask severity line words

/-! ## A whole run -/

def faultCode : Nat := 1

def usageCode : Nat := 2

def halt (w : Surroundings) : Halt → Outcome
  | .help level => { out := Usage.help level, disk := w.disk }
  | .nothingGiven => { code := usageCode, err := Usage.help .program, disk := w.disk }
  | .fault fault =>
      { code := usageCode
        err := Usage.complaint (Usage.hasColors w.environment) fault
        disk := w.disk }

/-- Runs the program.  The log is there before the command is carried out. -/
def run (w : Surroundings) (words : List String) : Outcome :=
  match parse words with
  | .error reason => halt w reason
  | .ok invocation =>
      let (disk, log) := Log.start w.disk w.environment
      let p := carryOut { w with disk } invocation
      { code := if p.fault.isSome then faultCode else 0
        out := p.out
        err := p.err ++ (p.fault.map RunFault.report).getD ""
        posts := p.posts
        disk
        log }

end CommandLine

end Marginalia
