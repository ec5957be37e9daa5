import Marginalia.Annotation
import Marginalia.Json.Expect
import Marginalia.Json.Writer
import Marginalia.Message
import Marginalia.Requirements

/-!
# Serialised forms

How values of the domain are written as JSON and read back.  A form pairs a reader with
a writer; the reader takes more texts than the writer makes, such as records written as
lists, and unknown members.
-/

namespace Marginalia

structure Form (α : Type) where
  /-- Reads a value; the number bounds the items of a container. -/
  read : Nat → Json.Reader α
  write : α → Json

namespace Form

open Json

def parse {α : Type} (form : Form α) (text : String) : Except Fault α :=
  Expect.whole form.read text.toList

def render {α : Type} (form : Form α) (a : α) : String :=
  (form.write a).compact

/-- The greatest number that a count can have: that of sixty-four binary digits. -/
def maxCount : Nat := 18446744073709551615

def severity : Form Severity where
  read _ := Expect.word Severity.ofLabel?
  write s := .string s.label

def role : Form Role where
  read _ := Expect.word Role.ofLabel?
  write r := .string r.label

def text : Form String where
  read _ := Expect.string
  write s := .string s

def requirements : Form Requirements where
  read _ := Expect.checked Expect.string fun s => some ⟨s⟩
  write r := .string r.text

def nonBlank : Form NonBlank where
  read _ := Expect.checked Expect.string NonBlank.ofString?
  write t := .string t.text

def field {σ α : Type} (key : String) (reader : Reader α) (get : σ → Option α)
    (set : σ → α → σ) : Expect.Field σ where
  key := key
  isRead s := (get s).isSome
  read s cs := do
    let (a, rest) ← reader cs
    return (set s a, rest)

structure PartialTally where
  red : Option Nat := none
  yellow : Option Nat := none
  green : Option Nat := none

def PartialTally.complete? (p : PartialTally) : Option Tally := do
  return ⟨← p.red, ← p.yellow, ← p.green⟩

def tally : Form Tally where
  read fuel :=
    Expect.record fuel
      [ field "red" (Expect.natural maxCount) PartialTally.red fun p n => { p with red := n },
        field "yellow" (Expect.natural maxCount) PartialTally.yellow fun p n =>
          { p with yellow := n },
        field "green" (Expect.natural maxCount) PartialTally.green fun p n =>
          { p with green := n } ]
      {} PartialTally.complete?
  write t :=
    .object
      [("red", .number (.natural t.red)), ("yellow", .number (.natural t.yellow)),
        ("green", .number (.natural t.green))]

structure PartialAnnotation where
  line : Option Nat := none
  suggestion : Option String := none
  severity : Option Severity := none
  color : Option String := none

def PartialAnnotation.complete? (p : PartialAnnotation) : Option Annotation := do
  return ⟨← p.line, ← p.suggestion, ← p.severity, ← p.color⟩

def annotation : Form Annotation where
  read fuel :=
    Expect.record fuel
      [ field "line" (Expect.natural maxLine) PartialAnnotation.line fun p n =>
          { p with line := n },
        field "suggestion" Expect.string PartialAnnotation.suggestion fun p s =>
          { p with suggestion := s },
        field "severity" (severity.read fuel) PartialAnnotation.severity fun p s =>
          { p with severity := s },
        field "color" Expect.string PartialAnnotation.color fun p s => { p with color := s } ]
      {} PartialAnnotation.complete?
  write a := a.toJson

end Form

end Marginalia
