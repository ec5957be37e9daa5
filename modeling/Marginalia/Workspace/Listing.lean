import Marginalia.Workspace.GitSettings

/-!
# The files of a directory

The files below a directory that are worth showing.  Every directory from the root on may
have ignore files of three kinds; a kind is asked as a whole before the next one, the
nearest directory first, and the rules of the user come last.  The two kinds that belong to
git are not asked above the root of a repository.  What no rule keeps is left out when its
name begins with a dot.
-/

namespace Marginalia

namespace Listing

/-- Names that are never gone into and never listed. -/
def leftOutNames : List String :=
  [".git", "node_modules", "target", "__pycache__", ".venv", "venv"]

/-! ## Paths as rules see them -/

def behind (front path : List Char) : List Char :=
  if front.isPrefixOf path then path.drop front.length else path

/-- A path without a dot and a slash at its start. -/
def withoutDot (path : List Char) : List Char :=
  behind ['.', '/'] path

/-- Whether a path leads to where one is, and begins with a dot. -/
def isHere (path : List Char) : Bool :=
  let p := Path.ofText (String.ofList path)
  p.start == .here && p.steps.isEmpty

/-- A path as seen from the directory that rules are for: as the texts of both are written. -/
def seenFrom (root path : List Char) : List Char :=
  let path := withoutDot path
  if isHere root ∨ !path.contains '/' then path
  else if root.isPrefixOf path then behind ['/'] (path.drop root.length)
  else path

/-- A path as seen from the root of the disk; `base` stands for the place `top`. -/
def fromTop (top base path : List Char) : List Char :=
  let below :=
    if isHere base then path else behind ['/'] (behind (withoutDot base) path)
  (Path.join (String.ofList top) (String.ofList below)).toList

/-! ## The rules of directories -/

structure Level where
  /-- The path of the directory, without a dot and a slash at its start. -/
  root : List Char
  /-- Whether the directory is the root of a repository. -/
  isRepository : Bool
  plain : IgnoreRules
  git : IgnoreRules
  excluded : IgnoreRules

def rulesIn (d : Disk) (path : String) : IgnoreRules :=
  match d.readBytes path with
  | .ok bytes => IgnoreRules.ofBytes bytes
  | .error _ => {}

def firstLine? (d : Disk) (path : String) : Option String := do
  let bytes ← (d.readBytes path).toOption
  let line ← (IgnoreRules.endedLines bytes.toList).head?
  (Text.Utf8.decode? line).map String.ofList

/-- The directory of git that the file `.git` of a working tree leads to. -/
def sharedDirectory? (d : Disk) (link : String) : Option String := do
  let line ← firstLine? d link
  if line.startsWith "gitdir: " then
    let own := (line.drop "gitdir: ".length).toString
    let shared ← firstLine? d (Path.join own "commondir")
    return if shared.startsWith "." then Path.join own shared else shared
  else none

/-- The rules of a working tree that are kept in its directory of git. -/
def excludedIn (d : Disk) (directory : String) : IgnoreRules :=
  let link := Path.join directory ".git"
  match d.find link with
  | .ok (.file _) =>
      match sharedDirectory? d link with
      | some shared => rulesIn d (Path.join shared "info/exclude")
      | none => {}
  | _ => rulesIn d (Path.join link "info/exclude")

def isRepository (d : Disk) (directory : String) : Bool :=
  [".git", ".jj"].any fun name => (d.find (Path.join directory name)).toBool

/-- The rules of the directory at a place, which is known by a path. -/
def levelAt (d : Disk) (place : List String) (path : List Char) : Level :=
  let directory := Disk.pathTo place
  { root := withoutDot path
    isRepository := isRepository d directory
    plain := rulesIn d (Path.join directory ".ignore")
    git := rulesIn d (Path.join directory ".gitignore")
    excluded := excludedIn d directory }

/--
What a listing goes by: the disk, the rules of the user, the directory as it was named, the
path from the root of the disk to it, and the rules above it, the nearest ones first.
-/
structure Setup where
  disk : Disk
  userRules : IgnoreRules
  base : String
  top : List Char
  above : List Level

def pathOf (names : List String) : String :=
  String.intercalate "/" names

/-- What one kind of rules says about a path, the nearest directory first. -/
def verdictOf (kind : Level → IgnoreRules) (levels : List Level) (path : List Char)
    (isDirectory : Bool) : Verdict :=
  levels.foldr
    (fun level v =>
      let seen := Text.Utf8.encode (String.ofList (seenFrom level.root path))
      ((kind level).verdict seen isDirectory).or v)
    .unsaid

/-- The levels up to the first one that is the root of a repository. -/
def ofRepository : List Level → List Level
  | [] => []
  | level :: levels => if level.isRepository then [level] else level :: ofRepository levels

/-- Whether an entry is left out; `levels` are the rules on the way from the base to it. -/
def isLeftOut (s : Setup) (levels : List Level) (below : List String) (isDirectory : Bool) :
    Bool :=
  let name := (below.getLast?).getD ""
  if leftOutNames.contains name then true
  else
    let path := withoutDot (Path.join s.base (pathOf below)).toList
    let farPath := fromTop s.top s.base.toList path
    let said (kind : Level → IgnoreRules) (near far : List Level) : Verdict :=
      (verdictOf kind near path isDirectory).or (verdictOf kind far farPath isDirectory)
    let near := ofRepository levels
    let far := if levels.any Level.isRepository then [] else ofRepository s.above
    let seen := seenFrom s.disk.herePath.toList path
    let saidByUser := s.userRules.verdict (Text.Utf8.encode (String.ofList seen)) isDirectory
    let saidByGit := (said Level.git near far).or ((said Level.excluded near far).or saidByUser)
    match (said Level.plain levels s.above).or saidByGit with
    | .ignored => true
    | .kept => false
    | .unsaid => name.startsWith "."

mutual

/--
The files of a tree that stands at a place, by their names below the directory that is
listed.  `levels` are the rules on the way, the nearest ones first.
-/
def filesOf (s : Setup) (levels : List Level) (place below : List String) :
    Tree → List (List String)
  | .directory entries =>
      let path := if below.isEmpty then s.base else Path.join s.base (pathOf below)
      filesIn s (levelAt s.disk place path.toList :: levels) place below entries
  | _ => []

def filesIn (s : Setup) (levels : List Level) (place below : List String) :
    List (String × Tree) → List (List String)
  | [] => []
  | (name, inner) :: entries =>
      let names := below ++ [name]
      let files :=
        if isLeftOut s levels names inner.isDirectory then []
        else if inner.isFile then [names]
        else filesOf s levels (place ++ [name]) names inner
      files ++ filesIn s levels place below entries

end

/-- The rules of the directories above a place, the nearest ones first. -/
def levelsAbove (d : Disk) (place : List String) : List Level :=
  let above := (List.range place.length).map fun n =>
    levelAt d (place.take n) (Disk.pathTo (place.take n)).toList
  above.reverse

/-- What a listing of a directory, which stands at a place, goes by. -/
def setup (d : Disk) (e : Environment) (base : String) (place : List String) : Setup where
  disk := d
  userRules := GitSettings.ignoreRules d e
  base := base
  top := (Disk.pathTo place).toList
  above := levelsAbove d place

/-- The files below a directory as they are walked over, by the names that lead to each. -/
def walked (d : Disk) (e : Environment) (base : String) : List (List String) :=
  match d.locate base with
  | .error _ => []
  | .ok place =>
      match d.root.at? place with
      | none => []
      | some tree => filesOf (setup d e base place) [] place [] tree

end Listing

end Marginalia
