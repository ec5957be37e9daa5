import Marginalia.Severity

/-!
# Tallies

How many records of each severity one review pass has read.
-/

namespace Marginalia

structure Tally where
  red : Nat := 0
  yellow : Nat := 0
  green : Nat := 0
  deriving DecidableEq, Repr, Inhabited

namespace Tally

/-- The tally of a pass that has read nothing. -/
def zero : Tally := {}

def get (t : Tally) : Severity → Nat
  | .red => t.red
  | .yellow => t.yellow
  | .green => t.green

def bump (t : Tally) : Severity → Tally
  | .red => { t with red := t.red + 1 }
  | .yellow => { t with yellow := t.yellow + 1 }
  | .green => { t with green := t.green + 1 }

/-- Counts a record; one without a known severity counts nowhere. -/
def count (t : Tally) (severity : RecordSeverity) : Tally :=
  match severity.severity? with
  | some s => t.bump s
  | none => t

def total (t : Tally) : Nat :=
  t.red + t.yellow + t.green

def status (t : Tally) : String :=
  s!"R:{t.red} Y:{t.yellow} G:{t.green}"

theorem get_bump (t : Tally) (s s' : Severity) :
    (t.bump s).get s' = t.get s' + if s = s' then 1 else 0 := by
  cases s <;> cases s' <;> simp [bump, get]

theorem total_bump (t : Tally) (s : Severity) : (t.bump s).total = t.total + 1 := by
  cases s <;> simp only [bump, total] <;> omega

end Tally

end Marginalia
