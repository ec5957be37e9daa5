import Marginalia.Chat.Service
import Marginalia.Filter.Session
import Marginalia.Settings.Environment
import Marginalia.Settings.Sections
import Marginalia.Workspace.Disk

/-!
# Settings

What a settings file says, and what follows from it where it says nothing.  The address
and the key of the model may refer to variables of the environment.
-/

namespace Marginalia

structure Settings where
  model : Option Settings.ModelSection := none
  review : Option Settings.ReviewSection := none
  colors : Option Settings.ColorSection := none
  deriving DecidableEq, Repr

inductive SettingsFault where
  | unreadable (path : String) (fault : DiskFault)
  | malformed (path : String)
  | invalidBase (text : String) (fault : Url.Fault)
  deriving DecidableEq, Repr

namespace SettingsFault

def message : SettingsFault → String
  | unreadable path fault => "failed to read config at " ++ path ++ ": " ++ fault.message
  | malformed path => "failed to parse config at " ++ path
  | invalidBase text fault =>
      "invalid model base_url " ++ Text.quote text ++ ": " ++ fault.message

def causes : SettingsFault → List String
  | unreadable _ fault => [fault.message]
  | malformed _ => []
  | invalidBase _ fault => [fault.message]

end SettingsFault

namespace Settings

def defaultBase : String := "https://api.openai.com/v1"

def defaultModel : String := "gpt-4o"

def defaultVendor : String := "openai"

def keyVariable : String := "OPENAI_API_KEY"

/-! ## Reading -/

def parse? (text : String) : Option Settings := do
  let entries ← Toml.parse? text
  return {
    model := ← section? ModelSection.ofToml? (valueOf? entries "model")
    review := ← section? ReviewSection.ofToml? (valueOf? entries "annotate")
    colors := ← section? ColorSection.ofToml? (valueOf? entries "colors") }

def read (d : Disk) (path : String) : Except SettingsFault Settings :=
  match d.readText path with
  | .error fault => .error (.unreadable path fault)
  | .ok text =>
      match parse? text with
      | some settings => .ok settings
      | none => .error (.malformed path)

def directory? (e : Environment) : Option String :=
  match e.lookup? "HOME" with
  | none => none
  | some home => if home = "" then none else some (Path.join home ".tutor")

def userPath? (e : Environment) : Option String :=
  (directory? e).map (Path.join · "config.toml")

/-- Reads the settings file of the user; there need not be one. -/
def readUser (d : Disk) (e : Environment) : Except SettingsFault (Option Settings) :=
  match userPath? e with
  | none => .ok none
  | some path =>
      match d.find path with
      | .error _ => .ok none
      | .ok _ => (read d path).map some

/-! ## What follows -/

def vendor (s : Settings) : String :=
  (s.model.bind (·.vendor)).getD defaultVendor

def modelName (s : Settings) : String :=
  (s.model.bind (·.name)).getD defaultModel

def budget (s : Settings) : Text.Budget :=
  ((s.review.bind (·.chunkChars)).bind Text.Budget.ofNat?).getD .default

def reviewSettings (s : Settings) : ReviewSettings :=
  { criteria := { vendor := some s.vendor, family := some s.modelName }
    budget := s.budget
    scope := (s.review.map (·.scope)).getD .document }

def choosesFiles (s : Settings) : Bool :=
  (s.review.map (·.choosesFiles)).getD true

def palette (s : Settings) : Palette :=
  let standard : Palette := {}
  { red := (s.colors.bind (·.red)).getD standard.red
    yellow := (s.colors.bind (·.yellow)).getD standard.yellow
    green := (s.colors.bind (·.green)).getD standard.green }

/-- The key for the model: the one of the settings, or that of the environment; not a blank one. -/
def key? (s : Settings) (e : Environment) : Option String :=
  let key := ((s.model.bind (·.key)).map e.expand).or (e.lookup? keyVariable)
  key.filter fun key => !Text.isBlankText key

/-- How long a stream may be silent: at least a second. -/
def idleSeconds (s : Settings) : Nat :=
  match s.model.bind (·.idleSeconds) with
  | some n => max n 1
  | none => Chat.defaultIdleSeconds

def service (s : Settings) (e : Environment) : Except SettingsFault Chat.Service :=
  let text := ((s.model.bind (·.base)).map e.expand).getD defaultBase
  match Url.parse text with
  | .error fault => .error (.invalidBase text fault)
  | .ok base =>
      .ok
        { base, key := s.key? e, model := s.modelName, vendor := s.vendor
          idleSeconds := s.idleSeconds }

/-- The settings for a person to read; the key is not shown. -/
def describe (s : Settings) : String :=
  describeRecord "TutorConfig"
    [("model", describeOption ModelSection.describe s.model),
      ("annotate", describeOption ReviewSection.describe s.review),
      ("colors", describeOption ColorSection.describe s.colors)]

end Settings

end Marginalia
