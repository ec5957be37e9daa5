import Marginalia.Workspace.Disk

/-!
# Making files and directories

The disk as it is after directories or a file were made on it.  What is there already is
kept: a directory is made only where nothing stands, and so is a file.
-/

namespace Marginalia

namespace Tree

def entries : Tree → List (String × Tree)
  | directory entries => entries
  | _ => []

def setEntry (entries : List (String × Tree)) (name : String) (t : Tree) :
    List (String × Tree) :=
  if entries.any (·.1 == name) then
    entries.map fun e => if e.1 == name then (name, t) else e
  else entries ++ [(name, t)]

/-- The tree with another one put at a place, and with directories on the way there. -/
def put : Tree → List String → Tree → Tree
  | _, [], leaf => leaf
  | t, name :: names, leaf =>
      let inner := (child? t.entries name).getD (directory [])
      directory (setEntry t.entries name (inner.put names leaf))

end Tree

namespace Disk

/-- Whether nothing of this name stands at a place that is a directory. -/
def isVacant (root : Tree) (place : List String) (name : String) : Bool :=
  match root.at? place with
  | some (.directory entries) => (Tree.child? entries name).isNone
  | _ => false

/--
Makes the directories that steps lead through, as far as they are not there, and tells the
place of the last one.
-/
def makeDirectories (root : Tree) (place : List String) :
    List String → Tree × Except DiskFault (List String)
  | [] => (root, .ok place)
  | step :: steps =>
      match follow root false maxLinks place [step] with
      | .ok next =>
          match root.at? next with
          | some (.directory _) => makeDirectories root next steps
          | _ => (root, .error .notADirectory)
      | .error .notFound =>
          if isVacant root place step then
            let next := place ++ [step]
            makeDirectories (root.put next (.directory [])) next steps
          else (root, .error .notFound)
      | .error fault => (root, .error fault)

/-- Makes a file in a directory, unless there is one, and tells its place. -/
def makeFile (root : Tree) (place : List String) (name : String) :
    Tree × Except DiskFault (List String) :=
  match follow root true maxLinks place [name] with
  | .error fault => (root, .error fault)
  | .ok file =>
      match root.at? file with
      | none => (root.put file (.file ByteArray.empty), .ok file)
      | some (.file _) => (root, .ok file)
      | some _ => (root, .error .isADirectory)

/-- Makes a file of this name in a directory that is made too, unless they are there. -/
def ensureFile (d : Disk) (directory name : String) : Disk × Except DiskFault (List String) :=
  match makeDirectories d.root (d.startOf directory) (stepsOf directory) with
  | (root, .error fault) => ({ d with root }, .error fault)
  | (root, .ok place) =>
      let (root, result) := makeFile root place name
      ({ d with root }, result)

end Disk

end Marginalia
