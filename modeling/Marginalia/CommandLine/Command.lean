import Marginalia.CommandLine.Reading

/-!
# Commands

What the program is told to do: review a file, ask about one marker, or list the files of a
directory.
-/

namespace Marginalia

namespace CommandLine

inductive RequirementsSource where
  | none
  | text (text : String)
  | file (path : String)
  deriving DecidableEq, Repr

inductive Command where
  | annotate (file : String) (severity : Option Severity) (visible : Option LineRange)
      (requirements : RequirementsSource)
  | ask (file : String) (severity : Severity) (line : Nat) (question : List String)
      (requirements : RequirementsSource)
  | files (directory : Option String)
  deriving DecidableEq, Repr

structure Invocation where
  config : Option String := none
  command : Command
  deriving DecidableEq, Repr

/-- The requirements that were given; those written out go first. -/
def Given.source (g : Given) : RequirementsSource :=
  match g.requirements, g.requirementsFile with
  | some text, _ => .text text
  | none, some path => .file path
  | none, none => .none

/-- The command of a level, unless something is missing. -/
def Given.command? (g : Given) : Level → Option Command
  | .program => none
  | .annotate => g.file.map fun file => .annotate file g.severity g.visible g.source
  | .ask => do return .ask (← g.file) (← g.severity) (← g.line) g.question g.source
  | .files => some (.files g.directory)

def readCommand (level : Level) (texts : List String) : Except Halt (Given × Command) := do
  let (r, _) ← (Reading.start level).words texts
  let r ← r.settle
  match r.given.fault? level, r.given.command? level with
  | none, some command => return (r.given, command)
  | some fault, _ => throw (.fault fault)
  | none, none => throw (.fault (.missing (r.given.missing level)))

def helpFor : List String → Halt
  | [] => .help .program
  | [name] =>
      if name = Level.helpName then .help .program
      else
        match Level.ofName? name with
        | some level => .help level
        | none => .fault (.unknownCommand name)
  | name :: other :: _ =>
      if Level.isCommand .program name then .fault (.unknownCommand other)
      else .fault (.unknownCommand name)

/--
Reads a command line.  The settings file may be named on either level, and the level of the
command goes first.  A fault behind the command is found before one in front of it.
-/
def parse (texts : List String) : Except Halt Invocation := do
  let (outer, rest) ← (Reading.start .program).words texts
  match rest with
  | [] =>
      let outer ← outer.settle
      if outer.given.order.isEmpty then throw .nothingGiven else throw (.fault .missingCommand)
  | name :: rest =>
      match Level.ofName? name with
      | none => throw (helpFor rest)
      | some level =>
          let (inner, command) ← readCommand level rest
          let outer ← outer.settle
          return { config := inner.config.or outer.given.config, command }

end CommandLine

end Marginalia
