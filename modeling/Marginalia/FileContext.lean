import Marginalia.Json.Expect
import Marginalia.Review

/-!
# File context

Before a review the model may choose files of the workspace that help to understand
the document; their contents then go along with the review.  Nothing here fails:
whatever goes wrong leaves fewer messages.
-/

namespace Marginalia

structure Library where
  files : List String
  read : String → Option String

/-- A choice of files that is being made: what was offered, and the reply so far. -/
structure FileChoice where
  offered : List String
  reply : String := ""
  events : List Model.Event
  isCancelled : Bool := false
  deriving DecidableEq

namespace FileChoice

/-- Instructions, the whole document, the mark after it, then the paths on offer. -/
def messages (r : Reviewer) (d : Document) (offered : List String) : List Message :=
  (Message.system? Prompt.fileChoice).toList ++ d.messages .document r.settings.budget ++
    (Message.user? Prompt.endOfCode).toList ++
    Message.chunked (String.intercalate "\n" offered) r.settings.budget

inductive Start where
  | nothing
  | reading (choice : FileChoice)

/-- Asks a model to choose among the files other than the document itself. -/
def start (r : Reviewer) (library : Library) (d : Document) (token : Model.Token)
    (isCancelled : Bool) (x : Model.Exchange) : Start × Model.Exchange :=
  let offered := library.files.filter (· != d.id)
  if offered.isEmpty then (.nothing, x)
  else
    match r.model? with
    | none => (.nothing, x)
    | some model =>
        match x.send ⟨model, messages r d offered, token⟩ with
        | (.refused _, x) => (.nothing, x)
        | (.stream events, x) => (.reading { offered, events, isCancelled }, x)

inductive Collected where
  | complete (reply : String) (isCancelled : Bool)
  | abandoned (isCancelled : Bool)
  | waiting (reply : String) (events : List Model.Event)
  deriving DecidableEq

/--
Reads fragments to the end of the reply.  Cancellation is looked at between polls
only: when it happens in the poll that ends the reply, the reply is complete.
-/
def collect (reply : String) : Bool → List Model.Event → Collected
  | isCancelled, [] => .complete reply isCancelled
  | true, .fragment _ :: _ => .abandoned true
  | false, .fragment text :: events => collect (reply ++ text) false events
  | isCancelled, .failure _ :: _ => .abandoned isCancelled
  | _, .cancellation :: events => collect reply true events
  | true, .pause :: _ => .abandoned true
  | false, .pause :: events => .waiting reply events
  | true, .stall :: _ => .abandoned true
  | false, .stall :: events => .waiting reply (.stall :: events)

/-- Reads a choice on; one that is cancelled before is abandoned. -/
def advance (choice : FileChoice) : Collected :=
  if choice.isCancelled then .abandoned true else collect choice.reply false choice.events

/-- A choice as it is written: an object whose member `paths` lists paths. -/
def pathList (fuel : Nat) : Json.Reader (List String) :=
  let field : Json.Expect.Field (Option (List String)) :=
    { key := "paths"
      isRead := Option.isSome
      read := fun _ cs => do
        let (paths, rest) ← Json.Expect.list fuel Json.Expect.string cs
        return (some paths, rest) }
  Json.Expect.record fuel [field] none id

/-- The paths in the object at the first opening brace where one is written. -/
def firstPathList? (fuel : Nat) : List Char → Option (List String)
  | [] => none
  | c :: cs =>
      if c = '\x7b' then
        match pathList fuel (c :: cs) with
        | .ok (paths, _) => some paths
        | .error _ => firstPathList? fuel cs
      else firstPathList? fuel cs

def distinct : List String → List String → List String
  | _, [] => []
  | seen, s :: rest =>
      if seen.contains s then distinct seen rest else s :: distinct (s :: seen) rest

/-- The paths a reply asks for: those that were offered, each once, in its order. -/
def select (reply : String) (offered : List String) : List String :=
  let cs := reply.toList
  let wanted := (firstPathList? (Json.fuelFor cs) cs).getD []
  distinct [] (wanted.filter offered.contains)

/-- A file as an object with its path for a key and its text in a list. -/
def payload (path text : String) : String :=
  (Json.object [(path, .array [.string text])]).compact

/-- The files at the given paths as messages; those that cannot be read are left out. -/
def fileMessages (library : Library) (budget : Text.Budget) (paths : List String) :
    List Message :=
  paths.flatMap fun path =>
    match library.read path with
    | none => []
    | some text => Message.chunked (payload path text) budget

structure Run where
  messages : List Message
  reads : List String
  isCancelled : Bool
  exchange : Model.Exchange

def conclude (r : Reviewer) (library : Library) (offered : List String) (reply : String) :
    List Message × List String :=
  let paths := select reply offered
  (fileMessages library r.settings.budget paths, paths)

def run (r : Reviewer) (library : Library) (d : Document) (isCancelled : Bool)
    (x : Model.Exchange) : Run :=
  let (token, x) := x.issue
  match start r library d token isCancelled x with
  | (.nothing, x) => ⟨[], [], isCancelled, x.cancelIf token isCancelled⟩
  | (.reading choice, x) =>
      match choice.advance with
      | .complete reply isCancelled =>
          let (messages, reads) := conclude r library choice.offered reply
          ⟨messages, reads, isCancelled, x.cancelIf token isCancelled⟩
      | .abandoned isCancelled => ⟨[], [], isCancelled, x.cancelIf token isCancelled⟩
      | .waiting _ _ => ⟨[], [], isCancelled, x.cancelIf token isCancelled⟩

end FileChoice

end Marginalia
