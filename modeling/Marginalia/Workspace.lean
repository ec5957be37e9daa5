import Marginalia.FileContext
import Marginalia.Workspace.Listing

/-!
# Workspaces

A workspace is a directory from which files may be offered to a model and read.  What is
read has to lie inside by the way its path is written, and must not be too large.
-/

namespace Marginalia

structure Workspace where
  root : String
  deriving DecidableEq, Repr

inductive WorkspaceFault where
  | outside (path : String)
  | tooLarge (path : String) (bytes : Nat)
  | disk (fault : DiskFault)
  deriving DecidableEq, Repr

def WorkspaceFault.message : WorkspaceFault → String
  | outside path => "path is outside the workspace: " ++ path
  | tooLarge path bytes =>
      "file too large for context (" ++ toString bytes ++ " bytes): " ++ path
  | disk fault => fault.message

def WorkspaceFault.kind : WorkspaceFault → FaultKind
  | outside _ => .invalidInput
  | tooLarge _ _ => .invalidData
  | disk fault => fault.kind

def maxListedFiles : Nat := 2000

namespace Workspace

def maxFileBytes : Nat := 512 * 1024

/-- The path of a file as seen from the root, with slashes between its parts; none outside of it. -/
def relativePath? (w : Workspace) (path : String) : Option String :=
  match Path.below? (Path.ofText w.root) (Path.ofText path) with
  | none => none
  | some [] => none
  | some cs => some (String.ofList (cs.map fun c => if c = '\\' then '/' else c))

/-- The files of the workspace in order; the walk stops once enough of them are found. -/
def files (w : Workspace) (d : Disk) (e : Environment) : List String :=
  let found := (Listing.walked d e w.root).filterMap fun names =>
    w.relativePath? (Path.join w.root (Listing.pathOf names))
  (found.take maxListedFiles).mergeSort fun a b => a ≤ b

def readText (w : Workspace) (d : Disk) (path : String) : Except WorkspaceFault String :=
  if !Path.isContained path then .error (.outside path)
  else
    let full := Path.join w.root path
    match d.find full with
    | .error fault => .error (.disk fault)
    | .ok (.file bytes) =>
        if bytes.size > maxFileBytes then .error (.tooLarge path bytes.size)
        else
          match d.readText full with
          | .ok text => .ok text
          | .error fault => .error (.disk fault)
    | .ok _ => .error (.disk .isADirectory)

def library (w : Workspace) (d : Disk) (e : Environment) : Library :=
  { files := w.files d e
    read := fun path => (w.readText d path).toOption }

end Workspace

end Marginalia
