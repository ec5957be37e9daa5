/-!
# Failures of a model request

What can go wrong between sending a request and the end of its reply, and how it
is told to a person.
-/

namespace Marginalia

namespace Model

inductive Transport where
  /-- The address may not be used; nothing was sent. -/
  | refused (url : String)
  /-- The request cannot be written; nothing was sent. -/
  | unwritable
  /-- No connection could be made. -/
  | unreachable (url : String)
  /-- The reply broke off inside its body. -/
  | brokenBody
  /-- The exchange failed in another way. -/
  | failed (url : String)
  deriving DecidableEq, Repr

namespace Transport

def message : Transport → String
  | refused url => "builder error for url (" ++ url ++ ")"
  | unwritable => "builder error"
  | unreachable url => "error sending request for url (" ++ url ++ ")"
  | brokenBody => "error decoding response body"
  | failed url => "error sending request for url (" ++ url ++ ")"

def causes : Transport → List String
  | brokenBody =>
      ["error decoding response body", "error reading a body from connection",
        "unexpected EOF during chunk size line"]
  | _ => []

end Transport

inductive Failure where
  | transport (cause : Transport)
  /-- The service answered with a status other than success. -/
  | api (status : Nat) (body : String)
  /-- The reply does not make sense. -/
  | stream (detail : String)
  | cancelled
  deriving DecidableEq, Repr

namespace Failure

def message : Failure → String
  | transport cause => "request failed: " ++ cause.message
  | api status body => "API error " ++ toString status ++ ": " ++ body
  | stream detail => "stream error: " ++ detail
  | cancelled => "request cancelled"

def causes : Failure → List String
  | transport cause => cause.causes
  | _ => []

end Failure

end Model

end Marginalia
