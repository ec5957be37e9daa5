import Marginalia.Json.Writer
import Marginalia.Text.Blank

/-!
# Project requirements

Free text in which a person says what the project under review must do.
-/

namespace Marginalia

/-- What the project must do, in the words of the person who asks for a review. -/
structure Requirements where
  text : String := ""
  deriving DecidableEq, Repr, Inhabited

namespace Requirements

def isBlank (r : Requirements) : Bool :=
  Text.isBlankText r.text

/-- The object that carries the requirements to a model; none when they are blank. -/
def payload? (r : Requirements) : Option String :=
  if r.isBlank then none
  else some (Json.object [("projectRequirements", .string r.text)]).compact

end Requirements

end Marginalia
