import Marginalia.CommandLine.UsageFault

/-!
# What has been given

The values that the words of a command line give to its arguments.  A value is checked when
it is accepted.
-/

namespace Marginalia

namespace CommandLine

structure Given where
  config : Option String := none
  severity : Option Severity := none
  visible : Option LineRange := none
  requirements : Option String := none
  requirementsFile : Option String := none
  line : Option Nat := none
  file : Option String := none
  question : List String := []
  directory : Option String := none
  /-- The arguments that were given, in the order in which their values were accepted. -/
  order : List Argument := []
  deriving DecidableEq, Repr

namespace Given

/-- Numbers that a line may be given by lie below this bound and not below its negative. -/
def lineBound : Nat := 9223372036854775808

/-- A path; an empty one is no value at all. -/
def readPath (a : Argument) (text : String) : Except UsageFault String :=
  if text = "" then .error (.missingValue a) else .ok text

def readSeverity (a : Argument) (text : String) : Except UsageFault Severity :=
  match Severity.parse text with
  | .ok severity => .ok severity
  | .error unknown => .error (.invalidValue a text (.severity unknown))

def readRange (a : Argument) (text : String) : Except UsageFault LineRange :=
  match LineRange.parse text with
  | .ok range => .ok range
  | .error fault => .error (.invalidValue a text (.range fault))

def readLine (a : Argument) (text : String) : Except UsageFault Nat :=
  match Text.Numeral.integer lineBound text with
  | .error fault => .error (.invalidValue a text (.numeral fault))
  | .ok n =>
      if 0 ≤ n ∧ n ≤ maxLine then .ok n.toNat
      else .error (.invalidValue a text (.outside n maxLine))

def set (g : Given) (a : Argument) (text : String) : Except UsageFault Given :=
  match a with
  | .config => (readPath a text).map fun path => { g with config := some path }
  | .severity => (readSeverity a text).map fun severity => { g with severity := some severity }
  | .visible => (readRange a text).map fun range => { g with visible := some range }
  | .requirements => .ok { g with requirements := some text }
  | .requirementsFile =>
      (readPath a text).map fun path => { g with requirementsFile := some path }
  | .line => (readLine a text).map fun n => { g with line := some n }
  | .file => (readPath a text).map fun path => { g with file := some path }
  | .question => .ok { g with question := g.question ++ [text] }
  | .directory => (readPath a text).map fun path => { g with directory := some path }

def has (g : Given) (a : Argument) : Bool :=
  g.order.contains a

/-- Accepts the values of an argument: one at least, and only once if it takes only one. -/
def accept (g : Given) (a : Argument) (texts : List String) : Except UsageFault Given :=
  if texts.isEmpty then .error (.missingValue a)
  else if g.has a && !a.isRepeatable then .error (.repeated a)
  else
    (texts.foldlM (set · a) g).map fun g =>
      if g.has a then g else { g with order := g.order ++ [a] }

/-- The requirements are either written out or in a file; the one given first is named first. -/
def conflict? (g : Given) : Option UsageFault :=
  match g.order.filter fun a => a == .requirements || a == .requirementsFile with
  | a :: other :: _ => some (.conflict a other)
  | _ => none

def missing (g : Given) (level : Level) : List Argument :=
  level.required.filter (!g.has ·)

def fault? (g : Given) (level : Level) : Option UsageFault :=
  g.conflict?.or <|
    let missing := g.missing level
    if missing.isEmpty then none else some (.missing missing)

end Given

end CommandLine

end Marginalia
