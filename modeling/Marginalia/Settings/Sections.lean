import Marginalia.Review
import Marginalia.Text.Quoted
import Marginalia.Toml.Reader

/-!
# Sections of the settings file

What a settings file may say about the model, the reviews and the colors.  Every entry may
be missing, and entries of other names are passed over.  A section may also be written as
a list of its entries in order.
-/

namespace Marginalia

namespace Settings

structure ModelSection where
  base : Option String := none
  key : Option String := none
  name : Option String := none
  vendor : Option String := none
  idleSeconds : Option Nat := none
  deriving DecidableEq, Repr

structure ReviewSection where
  chunkChars : Option Nat := none
  scope : Scope := .document
  choosesFiles : Bool := true
  deriving DecidableEq, Repr

structure ColorSection where
  red : Option String := none
  yellow : Option String := none
  green : Option String := none
  deriving DecidableEq, Repr

/-! ## Reading -/

def valueOf? (entries : List (String × Toml)) (key : String) : Option Toml :=
  (entries.find? (·.1 == key)).map (·.2)

/--
The fields of a section by their names.  A list has to be as long as `required` says; a
date has no entries that matter.
-/
def fields? (names : List String) (required : Nat) : Toml → Option (List (Option Toml))
  | .table entries => some (names.map (valueOf? entries))
  | .moment _ => some (names.map fun _ => none)
  | .array items =>
      if required ≤ items.length then
        some ((List.range names.length).map (items[·]?))
      else none
  | _ => none

def text? : Option Toml → Option (Option String)
  | none => some none
  | some (.text s) => some (some s)
  | some _ => none

def natural? : Option Toml → Option (Option Nat)
  | none => some none
  | some (.integer (.ofNat n)) => some (some n)
  | some _ => none

def boolean? : Option Toml → Option (Option Bool)
  | none => some none
  | some (.boolean b) => some (some b)
  | some _ => none

def scopeOfWord? (word : String) : Option Scope :=
  if word = "document" then some .document
  else if word = "visible" then some .visible
  else none

def isEmptyValue : Toml → Bool
  | .table entries => entries.isEmpty
  | .array items => items.isEmpty
  | _ => false

/-- A scope that may be missing: a word, or a table with the word for its only key, and empty. -/
def scope? : Option Toml → Option (Option Scope)
  | none => some none
  | some (.text word) => (scopeOfWord? word).map some
  | some (.table [(word, inner)]) =>
      if isEmptyValue inner then (scopeOfWord? word).map some else none
  | some _ => none

def ModelSection.ofToml? (t : Toml) : Option ModelSection := do
  let [base, key, name, vendor, idle] ←
    fields? ["base_url", "api_key", "name", "vendor", "idle_timeout_secs"] 5 t | none
  return ⟨← text? base, ← text? key, ← text? name, ← text? vendor, ← natural? idle⟩

def ReviewSection.ofToml? (t : Toml) : Option ReviewSection := do
  let [chunkChars, scope, choosesFiles] ←
    fields? ["chunk_chars", "scope", "context_files"] 1 t | none
  return ⟨← natural? chunkChars, (← scope? scope).getD .document,
    (← boolean? choosesFiles).getD true⟩

def ColorSection.ofToml? (t : Toml) : Option ColorSection := do
  let [red, yellow, green] ← fields? ["red", "yellow", "green"] 3 t | none
  return ⟨← text? red, ← text? yellow, ← text? green⟩

def section? {α : Type} (read : Toml → Option α) : Option Toml → Option (Option α)
  | none => some none
  | some t => (read t).map some

/-! ## For a person to read -/

def describeOption {α : Type} (describe : α → String) : Option α → String
  | none => "None"
  | some a => "Some(" ++ describe a ++ ")"

def describeRecord (name : String) (fields : List (String × String)) : String :=
  name ++ " \x7b " ++ String.intercalate ", " (fields.map fun (k, v) => k ++ ": " ++ v) ++ " \x7d"

def describeText (s : Option String) : String :=
  describeOption Text.quote s

def ModelSection.describe (m : ModelSection) : String :=
  describeRecord "ModelConfig"
    [("base_url", describeText m.base),
      ("api_key", Text.quote (if m.key.isSome then "[REDACTED]" else "None")),
      ("name", describeText m.name), ("vendor", describeText m.vendor),
      ("idle_timeout_secs", describeOption toString m.idleSeconds)]

def describeScope : Scope → String
  | .document => "Document"
  | .visible => "Visible"

def ReviewSection.describe (r : ReviewSection) : String :=
  describeRecord "AnnotateConfig"
    [("chunk_chars", describeOption toString r.chunkChars), ("scope", describeScope r.scope),
      ("context_files", if r.choosesFiles then "true" else "false")]

def ColorSection.describe (c : ColorSection) : String :=
  describeRecord "ColorConfig"
    [("red", describeText c.red), ("yellow", describeText c.yellow),
      ("green", describeText c.green)]

end Settings

end Marginalia
