import Marginalia.Settings
import Marginalia.Workspace.Creation

/-!
# The log

The program keeps a log beside the settings of the user.  When no file can be had there, the
log is kept below the directory where one is, and when there is none to be had there either
the program goes without a log.
-/

namespace Marginalia

namespace Log

def directoryName : String := "logs"

def fileName : String := "tutor.log"

/-- The directory that the log is kept in when it cannot be kept beside the settings. -/
def fallback : String := ".tutor/logs"

def directories (e : Environment) : List String :=
  ((Settings.directory? e).map (Path.join · directoryName)).toList ++ [fallback]

def openFirst (d : Disk) : List String → Disk × Option (List String)
  | [] => (d, none)
  | directory :: directories =>
      match d.ensureFile directory fileName with
      | (d, .ok place) => (d, some place)
      | (d, .error _) => openFirst d directories

def start (d : Disk) (e : Environment) : Disk × Option (List String) :=
  openFirst d (directories e)

end Log

end Marginalia
