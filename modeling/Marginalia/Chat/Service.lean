import Marginalia.Json.Writer
import Marginalia.Message
import Marginalia.Model.Catalog
import Marginalia.Model.Failure
import Marginalia.Text.Quoted
import Marginalia.Url.Parser
import Marginalia.Url.Strict

/-!
# Chat services

A service is asked for a reply by posting the messages to one address below its base.
Services on this machine may be spoken to in the clear; every other one has to be
reached by `https`.
-/

namespace Marginalia

namespace Chat

def defaultIdleSeconds : Nat := 60

structure Service where
  base : Url
  key : Option String := none
  model : String
  vendor : String := "openai"
  /-- How long a stream may be silent before the request is given up. -/
  idleSeconds : Nat := defaultIdleSeconds
  deriving DecidableEq, Repr

namespace Service

def identity (s : Service) : Model.Identity :=
  ⟨s.vendor, s.model⟩

def endpoint (s : Service) : Except Model.Failure Url :=
  match s.base.withTrailingSlash.join "chat/completions" with
  | .ok url => .ok url
  | .error fault => .error (.stream ("invalid base URL: " ++ fault.message))

def isLocal (s : Service) : Bool :=
  match s.base.host? with
  | some host => ["localhost", "127.0.0.1", "[::1]", "::1"].contains host
  | none => false

def allowsScheme (s : Service) (scheme : String) : Bool :=
  scheme == "https" || (scheme == "http" && s.isLocal)

def authorization? (s : Service) : Option String :=
  s.key.map ("Bearer " ++ ·)

def isHeadText (text : String) : Bool :=
  text.toList.all fun c => (c.toNat ≥ 0x20 && c.toNat != 0x7F) || c == '\t'

/-- What keeps a request to an endpoint from being sent at all. -/
def refusal? (s : Service) (endpoint : Url) : Option Model.Transport :=
  let url := endpoint.withoutCredentials.render
  if (endpoint.host?.getD "").isEmpty then some (.refused url)
  else if !(s.authorization?.all isHeadText) then some .unwritable
  else if !s.allowsScheme (String.ofList endpoint.scheme) then some (.refused url)
  else if (Url.Strict.parts? url).isNone then some (.refused url)
  else none

/-- The service for a person to read; the key is not shown. -/
def describe (s : Service) : String :=
  let key := if s.key.isSome then "[REDACTED]" else "None"
  String.join
    ["OpenAiConfig \x7b base_url: ", Text.quote s.base.render, ", api_key: ", Text.quote key,
      ", model: ", Text.quote s.model, ", vendor: ", Text.quote s.vendor, ", .. \x7d"]

def requestBody (s : Service) (messages : List Message) : Json :=
  .sorted (.object
    [("model", .string s.model), ("stream", .bool true),
      ("messages", .array (messages.map (·.toJson.sorted)))])

end Service

structure Post where
  url : Url
  authorization : Option String
  body : Json
  /-- How many seconds the response may be silent. -/
  idleSeconds : Nat

def Post.path (p : Post) : String :=
  String.ofList p.url.path.render

/-- A request for a reply to messages.  Blanks at the end of a head line are lost. -/
def Service.post (s : Service) (endpoint : Url) (messages : List Message) : Post :=
  let isEdge (c : Char) : Bool := c == ' ' || c == '\t'
  { url := endpoint
    authorization := s.authorization?.map fun text =>
      String.ofList (text.toList.reverse.dropWhile isEdge).reverse
    body := s.requestBody messages
    idleSeconds := s.idleSeconds }

end Chat

end Marginalia
