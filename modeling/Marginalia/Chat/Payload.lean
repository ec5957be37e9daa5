import Marginalia.Json.Basic

/-!
# Payloads of a streamed chat reply

Each payload holds some choices with a piece of text and perhaps the reason why the reply
is finished, or an error.  A payload of another shape says nothing.  Records may be
written as objects or as lists of their fields.
-/

namespace Marginalia

namespace Chat

structure Choice where
  content : Option String := none
  refusal : Option String := none
  finishReason : Option String := none
  deriving DecidableEq, Repr

structure Payload where
  choices : List Choice := []
  error : Option String := none
  deriving DecidableEq, Repr

namespace Payload

/--
The fields of a record.  In an object any of them may be missing; a list is as long as the
fields that may not be missing ask for, and not longer than all of them.
-/
def fields? (names : List String) (required : Nat) : Json → Option (List (Option Json))
  | .object members => some (names.map (Json.lookup? members))
  | .array items =>
      if required ≤ items.length ∧ items.length ≤ names.length then
        some ((List.range names.length).map (items[·]?))
      else none
  | _ => none

/-- A text that may be missing or null. -/
def optionalText? : Option Json → Option (Option String)
  | none => some none
  | some .null => some none
  | some (.string s) => some (some s)
  | some _ => none

/-- The texts of a piece of the reply: content and refusal. -/
def delta? : Option Json → Option (Option String × Option String)
  | none => some (none, none)
  | some j => do
      let [content, refusal] ← fields? ["content", "refusal"] 2 j | none
      return (← optionalText? content, ← optionalText? refusal)

def choice? (j : Json) : Option Choice := do
  let [delta, finishReason] ← fields? ["delta", "finish_reason"] 2 j | none
  let (content, refusal) ← delta? delta
  return ⟨content, refusal, ← optionalText? finishReason⟩

/-- The choices of a payload, which has none when they are missing. -/
def choices? : Option Json → Option (List Choice)
  | none => some []
  | some (.array items) => items.mapM choice?
  | some _ => none

/-- The message of an error, empty when it is missing. -/
def errorMessage? (j : Json) : Option String := do
  let [message] ← fields? ["message"] 0 j | none
  match message with
  | none => some ""
  | some (.string s) => some s
  | some _ => none

def error? : Option Json → Option (Option String)
  | none => some none
  | some .null => some none
  | some j => (errorMessage? j).map some

def ofJson? (j : Json) : Option Payload := do
  let [choices, error] ← fields? ["choices", "error"] 2 j | none
  return ⟨← choices? choices, ← error? error⟩

end Payload

/-- The text of a choice: its content, or else its refusal, unless that is empty. -/
def Choice.text? (c : Choice) : Option String :=
  match c.content.or c.refusal with
  | none => none
  | some text => if text = "" then none else some text

def Payload.fragments (p : Payload) : List String :=
  p.choices.filterMap Choice.text?

def Payload.finishes (p : Payload) : Bool :=
  p.choices.any fun c => c.finishReason.isSome

end Chat

end Marginalia
