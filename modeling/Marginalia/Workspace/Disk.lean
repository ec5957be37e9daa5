import Marginalia.Workspace.Path

/-!
# Files and directories

A disk as it is found at one moment: a tree of files, links and directories, and the
directory in which one is.  A path is followed step by step, through links too, up to a
number of them.
-/

namespace Marginalia

inductive Tree where
  | file (bytes : ByteArray)
  | link (target : String)
  | directory (entries : List (String × Tree))
  deriving Inhabited

namespace Tree

def child? (entries : List (String × Tree)) (name : String) : Option Tree :=
  (entries.find? (·.1 == name)).map (·.2)

/-- What stands at a place, which is told by names from the root; links are not followed. -/
def at? (t : Tree) : List String → Option Tree
  | [] => some t
  | name :: names =>
      match t with
      | directory entries =>
          match child? entries name with
          | some inner => inner.at? names
          | none => none
      | _ => none

def isDirectory : Tree → Bool
  | directory _ => true
  | _ => false

def isFile : Tree → Bool
  | file _ => true
  | _ => false

end Tree

inductive DiskFault where
  | notFound
  | notADirectory
  | isADirectory
  | tooManyLinks
  | nameTooLong
  /-- A path has a character in it that no name may have. -/
  | nullCharacter
  | notText
  deriving DecidableEq, Repr

def DiskFault.message : DiskFault → String
  | notFound => "No such file or directory (os error 2)"
  | notADirectory => "Not a directory (os error 20)"
  | isADirectory => "Is a directory (os error 21)"
  | tooManyLinks => "Too many levels of symbolic links (os error 40)"
  | nameTooLong => "File name too long (os error 36)"
  | nullCharacter => "file name contained an unexpected NUL byte"
  | notText => "stream did not contain valid UTF-8"

inductive FaultKind where
  | notFound
  | notADirectory
  | isADirectory
  | tooManyLinks
  | nameTooLong
  /-- What was asked for makes no sense. -/
  | invalidInput
  /-- What is there is not of the form that was asked for. -/
  | invalidData
  deriving DecidableEq, Repr

def DiskFault.kind : DiskFault → FaultKind
  | notFound => .notFound
  | notADirectory => .notADirectory
  | isADirectory => .isADirectory
  | tooManyLinks => .tooManyLinks
  | nameTooLong => .nameTooLong
  | nullCharacter => .invalidInput
  | notText => .invalidData

/-- A disk, and the directory in which one is, by the names that lead to it. -/
structure Disk where
  root : Tree
  here : List String := []
  deriving Inhabited

namespace Disk

/-- How many links may be followed on the way to one place. -/
def maxLinks : Nat := 40

def maxNameBytes : Nat := 255

def maxPathBytes : Nat := 4095

/-- The steps of a path; a slash at its end is one more step, to where it is. -/
def stepsOf (path : String) : List String :=
  let parts := Text.partsAt '/' path.toList
  let steps := (parts.filter (!·.isEmpty)).map String.ofList
  if parts.getLast? = some [] then steps ++ ["."] else steps

/--
Follows steps from a place to the place they lead to.  When `mayMiss` holds, nothing need
stand yet where the last step leads.
-/
def follow (root : Tree) (mayMiss : Bool) (links : Nat) (place steps : List String) :
    Except DiskFault (List String) :=
  match steps with
  | [] => .ok place
  | step :: steps =>
      match root.at? place with
      | some (.directory entries) =>
          if step = "." then follow root mayMiss links place steps
          else if step = ".." then follow root mayMiss links place.dropLast steps
          else if step.utf8ByteSize > maxNameBytes then .error .nameTooLong
          else
            match Tree.child? entries step with
            | none =>
                if mayMiss && steps.isEmpty then .ok (place ++ [step]) else .error .notFound
            | some (.link target) =>
                match links with
                | 0 => .error .tooManyLinks
                | links + 1 =>
                    let start := if target.startsWith "/" then [] else place
                    follow root mayMiss links start (stepsOf target ++ steps)
            | some _ => follow root mayMiss links (place ++ [step]) steps
      | _ => .error .notADirectory
termination_by (links, steps.length)

def startOf (d : Disk) (path : String) : List String :=
  if path.startsWith "/" then [] else d.here

def locate (d : Disk) (path : String) : Except DiskFault (List String) :=
  if path.toList.contains '\x00' then .error .nullCharacter
  else if path = "" then .error .notFound
  else if path.utf8ByteSize > maxPathBytes then .error .nameTooLong
  else follow d.root false maxLinks (d.startOf path) (stepsOf path)

def find (d : Disk) (path : String) : Except DiskFault Tree :=
  match d.locate path with
  | .error fault => .error fault
  | .ok place =>
      match d.root.at? place with
      | some t => .ok t
      | none => .error .notFound

def pathTo (place : List String) : String :=
  "/" ++ String.intercalate "/" place

def herePath (d : Disk) : String :=
  pathTo d.here

def readBytes (d : Disk) (path : String) : Except DiskFault ByteArray :=
  match d.find path with
  | .error fault => .error fault
  | .ok (.file bytes) => .ok bytes
  | .ok _ => .error .isADirectory

def readText (d : Disk) (path : String) : Except DiskFault String :=
  match d.readBytes path with
  | .error fault => .error fault
  | .ok bytes =>
      match String.fromUTF8? bytes with
      | some text => .ok text
      | none => .error .notText

end Disk

end Marginalia
