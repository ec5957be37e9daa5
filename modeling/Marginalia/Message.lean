import Marginalia.Json.Basic
import Marginalia.NonBlank
import Marginalia.Text.Chunk

/-!
# Messages to a model

An ordered request is a list of messages, each with a role and a content that is
never the empty text.
-/

namespace Marginalia

inductive Role where
  | system
  | user
  | assistant
  deriving DecidableEq, Repr

namespace Role

def label : Role → String
  | system => "system"
  | user => "user"
  | assistant => "assistant"

def ofLabel? (s : String) : Option Role :=
  if s = "system" then some system
  else if s = "user" then some user
  else if s = "assistant" then some assistant
  else none

theorem ofLabel?_label (r : Role) : ofLabel? r.label = some r := by
  cases r <;> rfl

end Role

structure Message where
  role : Role
  content : String
  nonempty : content ≠ ""
  deriving DecidableEq

namespace Message

def ofNonBlank (role : Role) (content : NonBlank) : Message :=
  ⟨role, content.text, content.text_ne_empty⟩

/-- A user message with this text as it stands, blanks included; none for the empty text. -/
def user? (content : String) : Option Message :=
  if h : content ≠ "" then some ⟨.user, content, h⟩ else none

def system? (content : String) : Option Message :=
  (NonBlank.ofString? content).map (ofNonBlank .system)

def toJson (m : Message) : Json :=
  .object [("role", .string m.role.label), ("content", .string m.content)]

def chunked (text : String) (budget : Text.Budget) : List Message :=
  (Text.chunk text budget).filterMap user?

end Message

end Marginalia
