import Marginalia.Severity

/-!
# Transitions of the filter

What toggling a severity does to the filter: from no severity to one, from one to
another, or from one to none.
-/

namespace Marginalia

inductive FilterCommand where
  | initialLoad
  | toggle (severity : Severity)
  deriving DecidableEq, Repr

inductive Transition where
  | activate (severity : Severity)
  | switch (source target : Severity)
  | deactivate (severity : Severity)
  deriving DecidableEq, Repr

namespace Transition

/-- Toggling the active severity deactivates it; any other one takes its place. -/
def plan (state : FilterState) (requested : Severity) : Transition :=
  match state with
  | .inactive => activate requested
  | .active current =>
      if current = requested then deactivate current else switch current requested

def target : Transition → FilterState
  | activate severity => .active severity
  | switch _ severity => .active severity
  | deactivate _ => .inactive

def signal? : Transition → Option Signal
  | activate severity => some (.display severity)
  | switch _ severity => some (.display severity)
  | deactivate _ => none

end Transition

def FilterState.after (state : FilterState) : FilterCommand → FilterState
  | .initialLoad => .inactive
  | .toggle severity => (Transition.plan state severity).target

end Marginalia
