import Marginalia.Text.Ascii
import Marginalia.Text.Blank

/-!
# Severities and the filter

The three severities of an annotation, the wider set of words a model may put in
their place, and the filter that shows one severity at a time.
-/

namespace Marginalia

inductive Severity where
  | red
  | yellow
  | green
  deriving DecidableEq, Repr, Inhabited

namespace Severity

def label : Severity → String
  | red => "red"
  | yellow => "yellow"
  | green => "green"

def describe : Severity → String
  | red => "critical"
  | yellow => "moderate"
  | green => "minor"

def ofLabel? (s : String) : Option Severity :=
  if s = "red" then some red
  else if s = "yellow" then some yellow
  else if s = "green" then some green
  else none

structure Unknown where
  word : String
  deriving DecidableEq, Repr

def Unknown.message (u : Unknown) : String :=
  "unknown severity `" ++ u.word ++ "` (expected red, yellow or green)"

/-- Reads a severity as a person types it: case and blanks around it do not matter. -/
def parse (s : String) : Except Unknown Severity :=
  let word := Text.lowercaseAscii (Text.trim s)
  match ofLabel? word with
  | some severity => .ok severity
  | none => .error ⟨word⟩

theorem ofLabel?_label (s : Severity) : ofLabel? s.label = some s := by
  cases s <;> rfl

theorem label_of_ofLabel? {word : String} {s : Severity} (h : ofLabel? word = some s) :
    s.label = word := by
  unfold ofLabel? at h
  repeat' split at h
  all_goals cases h
  all_goals simp_all [label]

def all : List Severity := [red, yellow, green]

end Severity

/--
The severity a model wrote into a record.  Models share one set of words between
severities and the mark of the initial load, and may write anything else.
-/
inductive RecordSeverity where
  | known (severity : Severity)
  | initialLoad
  | unrecognized (word : String)
  deriving DecidableEq, Repr

namespace RecordSeverity

def initialLoadWord : String := "onLoad"

/-- Sorts a word into severities, the mark of the initial load, and the rest. -/
def ofWire (word : String) : RecordSeverity :=
  match Severity.ofLabel? word with
  | some severity => known severity
  | none => if word = initialLoadWord then initialLoad else unrecognized word

def toWire : RecordSeverity → String
  | known severity => severity.label
  | initialLoad => initialLoadWord
  | unrecognized word => word

def severity? : RecordSeverity → Option Severity
  | known severity => some severity
  | _ => none

theorem toWire_ofWire (word : String) : (ofWire word).toWire = word := by
  unfold ofWire
  split
  · next severity h => exact Severity.label_of_ofLabel? h
  · split
    · next h => exact h.symm
    · rfl

end RecordSeverity

/-- What a review pass does with the records it reads. -/
inductive Signal where
  /-- Show the records of one severity. -/
  | display (severity : Severity)
  /-- Count only, as is done when a session starts. -/
  | initialLoad
  deriving DecidableEq, Repr

/-- Whether a record of this severity is shown. -/
def Signal.renders : Signal → RecordSeverity → Bool
  | display active, severity => severity.severity? == some active
  | initialLoad, _ => false

inductive FilterState where
  | inactive
  | active (severity : Severity)
  deriving DecidableEq, Repr, Inhabited

namespace FilterState

def active? : FilterState → Option Severity
  | inactive => none
  | active severity => some severity

def isActive (state : FilterState) (severity : Severity) : Bool :=
  state == active severity

end FilterState

end Marginalia
