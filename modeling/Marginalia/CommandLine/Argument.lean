/-!
# Arguments

What may stand on the command line.  The program has three commands; each of them, and the
program itself, is a level with options of its own and places for words without a name.
-/

namespace Marginalia

namespace CommandLine

inductive Argument where
  | config
  | severity
  | visible
  | requirements
  | requirementsFile
  | line
  | file
  | question
  | directory
  deriving DecidableEq, Repr

namespace Argument

/-- The long name of an option; the arguments without one go by their place. -/
def name? : Argument → Option String
  | config => some "config"
  | severity => some "severity"
  | visible => some "visible"
  | requirements => some "requirements"
  | requirementsFile => some "requirements-file"
  | line => some "line"
  | _ => none

def letter? : Argument → Option Char
  | severity => some 's'
  | line => some 'l'
  | _ => none

def label : Argument → String
  | config => "--config <CONFIG>"
  | severity => "--severity <SEVERITY>"
  | visible => "--visible <VISIBLE>"
  | requirements => "--requirements <REQUIREMENTS>"
  | requirementsFile => "--requirements-file <REQUIREMENTS_FILE>"
  | line => "--line <LINE>"
  | file => "<FILE>"
  | question => "[QUESTION]..."
  | directory => "[DIR]"

def isRepeatable (a : Argument) : Bool :=
  a == question

end Argument

/-- The program itself, or one of its commands. -/
inductive Level where
  | program
  | annotate
  | ask
  | files
  deriving DecidableEq, Repr

namespace Level

def options : Level → List Argument
  | program => [.config]
  | annotate => [.severity, .visible, .requirements, .requirementsFile, .config]
  | ask => [.severity, .line, .requirements, .requirementsFile, .config]
  | files => [.config]

def places : Level → List Argument
  | program => []
  | annotate => [.file]
  | ask => [.file, .question]
  | files => [.directory]

def required : Level → List Argument
  | annotate => [.file]
  | ask => [.file, .severity, .line]
  | _ => []

def ofName? : String → Option Level
  | "annotate" => some annotate
  | "ask" => some ask
  | "files" => some files
  | _ => none

/-- The word that asks for help in the place of a command. -/
def helpName : String := "help"

def isCommand (level : Level) (word : String) : Bool :=
  level == program && ((ofName? word).isSome || word == helpName)

def long? (level : Level) (name : String) : Option Argument :=
  level.options.find? fun a => a.name? == some name

def short? (level : Level) (letter : Char) : Option Argument :=
  level.options.find? fun a => a.letter? == some letter

end Level

end CommandLine

end Marginalia
