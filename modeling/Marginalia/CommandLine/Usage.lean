import Marginalia.CommandLine.Reading
import Marginalia.Settings.Environment
import Marginalia.Text.ControlSequences

/-!
# Help

How the program is used, in the words that a person is shown.
-/

namespace Marginalia

namespace CommandLine

namespace Argument

def purpose : Argument → String
  | config => "Settings file to use instead of ~/.tutor/config.toml"
  | severity => "Severity of the markers: red, yellow or green"
  | visible => "Review only lines START:END, counted from one, both included"
  | requirements => "Requirements of the project, sent with every review"
  | requirementsFile => "Read the requirements of the project from a file"
  | line => "Line of the marker, counted from one"
  | file => "Source file"
  | question => "Question to ask; more detail is asked for when there is none"
  | directory => "Directory to list instead of the current one"

/-- An option as it is written, its letter first. -/
def form (a : Argument) : String :=
  match a.letter? with
  | some letter => "-" ++ String.singleton letter ++ ", " ++ a.label
  | none => a.label

end Argument

namespace Level

def title : Level → String
  | program => programName
  | annotate => programName ++ " annotate"
  | ask => programName ++ " ask"
  | files => programName ++ " files"

def purpose : Level → String
  | program => "Annotate source files with graded review suggestions"
  | annotate => "Review a file; print severity counts and the markers for one severity"
  | ask => "Ask a follow-up question about the marker on one line"
  | files => "List the workspace files offered to the model as context"

def pattern (level : Level) : String :=
  let required := (level.required.filter (level.options.contains ·)).map fun a => " " ++ a.label
  let places := level.places.map fun a => " " ++ a.label
  let command := if level == program then " <COMMAND>" else ""
  " [OPTIONS]" ++ String.join required ++ command ++ String.join places

end Level

namespace Usage

/-- Rows with what they are about on the left, under a heading. -/
def table (heading : String) (rows : List (String × String)) : String :=
  if rows.isEmpty then ""
  else
    "\n" ++ heading ++ ":\n" ++
      String.join (rows.map fun (name, purpose) =>
        "  " ++ name ++ "\n          " ++ purpose ++ "\n")

def commands : List (String × String) :=
  [Level.annotate, .ask, .files].map fun level => (level.title, level.purpose)

def help (level : Level) : String :=
  let describe (a : Argument) : String × String := (a.form, a.purpose)
  level.purpose ++ "\n\nUsage: " ++ level.title ++ level.pattern ++ "\n" ++
    (if level == .program then table "Commands" commands else "") ++
    table "Arguments" (level.places.map describe) ++
    table "Options" (level.options.map describe ++ [("-h, --help", "Print help")])

/-! ## Complaints -/

/-- Whether complaints are written in colors: one variable asks for it, and none forbids it. -/
def hasColors (e : Environment) : Bool :=
  let isGiven (name : String) : Bool := !((e.lookup? name).getD "").isEmpty
  isGiven "CLICOLOR_FORCE" && !isGiven "NO_COLOR"

/-- A text between the sequences of a terminal that turn something on and off. -/
def lit (codes : List String) (text : String) : String :=
  String.join (codes.map fun code => "\x1b[" ++ code ++ "m") ++ text ++ "\x1b[0m"

def colored : Piece → String
  | .words text => text
  | .wrong text => lit ["33"] text
  | .known text => lit ["1"] text
  | .wanted text => lit ["32"] text

/-- What a person is shown whose command line has a fault; in plain text without colors. -/
def complaint (isColored : Bool) (fault : UsageFault) : String :=
  let advice := "\n\nFor more information, try '--help'.\n"
  if isColored then
    lit ["1", "31"] "error:" ++ " " ++ String.join (fault.pieces.map colored) ++ advice
  else Text.ControlSequences.remove ("error: " ++ fault.message ++ advice)

end Usage

end CommandLine

end Marginalia
