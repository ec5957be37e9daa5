import Marginalia.NonBlank
import Marginalia.Settings
import Marginalia.Terminal
import Marginalia.Text.Parts

/-!
# Faults of a run

Why a command could not be carried out, and the report of it.  A report names the fault and
then what lies behind it, outermost first; several such causes are counted from zero.
-/

namespace Marginalia

namespace CommandLine

inductive RunFault where
  | settings (fault : SettingsFault)
  | requirements (path : String) (fault : DiskFault)
  /-- The document cannot be found. -/
  | opening (path : String) (fault : DiskFault)
  /-- The document was found and cannot be read. -/
  | reading (path : String) (fault : DiskFault)
  | client (failure : Model.Failure)
  | noMarker (severity : Severity) (line : Nat) (document : String)
  | blankQuestion
  | question (failure : ReviewFailure)
  | reply (failure : Model.Failure)
  deriving DecidableEq, Repr

namespace RunFault

def message : RunFault → String
  | settings fault => fault.message
  | requirements path _ => "reading requirements from " ++ path
  | opening path _ => "opening " ++ path
  | reading path _ => "reading " ++ path
  | client _ => "building the chat completions client"
  | noMarker severity line document =>
      "no " ++ severity.label ++ " annotation on line " ++ toString line ++ " of " ++ document
  | blankQuestion => NonBlank.refusal
  | question failure => failure.message
  | reply failure => failure.message

/-- What lies behind the fault, outermost first. -/
def causes : RunFault → List String
  | settings fault => fault.causes
  | requirements _ fault => [fault.message]
  | opening _ fault => [fault.message]
  | reading _ fault => [fault.message]
  | client failure => failure.message :: failure.causes
  | noMarker _ _ _ => []
  | blankQuestion => []
  | question failure => failure.causes
  | reply failure => failure.causes

/-- A text with a margin before each line but the first. -/
def indent (margin : String) (text : String) : String :=
  String.intercalate ("\n" ++ margin) ((Text.partsAt '\n' text.toList).map String.ofList)

/-- Causes one below the other; a single one is not counted. -/
def causeRows : List String → List String
  | [] => []
  | [cause] => ["    " ++ indent "    " cause]
  | causes =>
      causes.zipIdx.map fun (cause, n) =>
        Terminal.alignRight 5 (toString n) ++ ": " ++ indent "       " cause

def report (f : RunFault) : String :=
  let rows := causeRows f.causes
  let behind := if rows.isEmpty then "" else "\n\nCaused by:\n" ++ String.intercalate "\n" rows
  "Error: " ++ f.message ++ behind ++ "\n"

end RunFault

end CommandLine

end Marginalia
