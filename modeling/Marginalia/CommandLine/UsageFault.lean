import Marginalia.CommandLine.Argument
import Marginalia.CommandLine.LineRange
import Marginalia.Severity

/-!
# Faults of usage

What can be wrong with the words of a command line.
-/

namespace Marginalia

namespace CommandLine

inductive ValueFault where
  | severity (unknown : Severity.Unknown)
  | range (fault : LineRange.Fault)
  | numeral (fault : Text.Numeral.Fault)
  /-- A number that is not among those from zero to the limit. -/
  | outside (n : Int) (limit : Nat)
  deriving DecidableEq, Repr

def ValueFault.message : ValueFault → String
  | severity unknown => unknown.message
  | range fault => fault.message
  | numeral fault => fault.message
  | outside n limit => toString n ++ " is not in 0..=" ++ toString limit

inductive UsageFault where
  | unexpected (word : String)
  | unknownCommand (word : String)
  | missingCommand
  | missingValue (argument : Argument)
  /-- The option for help takes no value. -/
  | unneededValue (value : String)
  | repeated (argument : Argument)
  | invalidValue (argument : Argument) (value : String) (fault : ValueFault)
  | conflict (argument other : Argument)
  | missing (arguments : List Argument)
  deriving DecidableEq, Repr

def programName : String := "tutor"

inductive Piece where
  | words (text : String)
  /-- What the command line has and should not have, or lacks. -/
  | wrong (text : String)
  /-- What the program knows by that spelling. -/
  | known (text : String)
  /-- What the command line should have. -/
  | wanted (text : String)
  deriving DecidableEq, Repr

def Piece.text : Piece → String
  | words text => text
  | wrong text => text
  | known text => text
  | wanted text => text

/-- The fault in words, piece by piece. -/
def UsageFault.pieces : UsageFault → List Piece
  | unexpected word => [.words "unexpected argument '", .wrong word, .words "' found"]
  | unknownCommand word => [.words "unrecognized subcommand '", .wrong word, .words "'"]
  | missingCommand =>
      [.words "'", .wrong programName,
        .words "' requires a subcommand but one was not provided"]
  | missingValue a =>
      [.words "a value is required for '", .wrong a.label, .words "' but none was supplied"]
  | unneededValue value =>
      [.words "unexpected value '", .wrong value, .words "' for '", .known "--help",
        .words "' found; no more were expected"]
  | repeated a =>
      [.words "the argument '", .wrong a.label, .words "' cannot be used multiple times"]
  | invalidValue a value fault =>
      [.words "invalid value '", .wrong value, .words "' for '", .known a.label, .words "': ",
        .words fault.message]
  | conflict a other =>
      [.words "the argument '", .wrong a.label, .words "' cannot be used with '",
        .wrong other.label, .words "'"]
  | missing arguments =>
      .words "the following required arguments were not provided:" ::
        arguments.flatMap fun a => [.words "\n  ", .wanted a.label]

def UsageFault.message (fault : UsageFault) : String :=
  String.join (fault.pieces.map Piece.text)

end CommandLine

end Marginalia
