import Marginalia.CommandLine.Program

/-!
# Taking in what is there

The disk and the environment as a run finds them.  Of the disk only what a run may look at is
taken in: the directory where one is and what the words of the command line name, the ignore
files above those, and the files of the user.
-/

namespace Marginalia

namespace CommandLine

namespace Snapshot

def names (path : String) : List String :=
  (Disk.stepsOf path).filter (· != ".")

/-- The content of a file; one that is too large for a workspace stands for its size only. -/
def content (e : IO.FS.DirEntry) (isWhole : Bool) : IO Tree := do
  let size := (← e.path.metadata).byteSize.toNat
  if isWhole || size ≤ Workspace.maxFileBytes then return .file (← IO.FS.readBinFile e.path)
  else return .file ⟨Array.replicate (Workspace.maxFileBytes + 1) 0⟩

/-- An entry of a directory with everything in it that a listing may show. -/
partial def entry (e : IO.FS.DirEntry) : IO (Option Tree) := do
  try
    match (← e.path.symlinkMetadata).type with
    | .file => return some (← content e false)
    | .symlink => return some (.link (← IO.FS.realPath e.path).toString)
    | .dir =>
        if Listing.leftOutNames.contains e.fileName then return some (.directory [])
        let inner ← (← e.path.readDir).toList.filterMapM fun e => do
          return (← entry e).map (e.fileName, ·)
        return some (.directory inner)
    | .other => return none
  catch _ => return none

/-- Adds one entry of a directory, if it is there, with a link in its place when it is one. -/
def addEntry (root : Tree) (directory name : String) (isWhole : Bool) : IO Tree := do
  let e : IO.FS.DirEntry := { root := directory, fileName := name }
  try
    let real := (← IO.FS.realPath e.path).toString
    let here := names (Path.join directory name)
    let there := names real
    let found ←
      if isWhole && (← e.path.metadata).type == .file then pure (some (← content e true))
      else entry { root := real, fileName := "" }
    let root := (found.map (root.put there ·)).getD root
    return if here == there then root else root.put here (.link real)
  catch _ => return root

def ignoreFiles : List String :=
  [".ignore", ".gitignore", ".git/info/exclude"]

/-- Adds the ignore files of a directory and of those above it. -/
def addIgnoreFiles (root : Tree) (place : List String) : IO Tree := do
  let mut root := root
  for n in List.range (place.length + 1) do
    for file in ignoreFiles do
      root ← addEntry root (Disk.pathTo (place.take n)) file true
  return root

def homeFiles : List String :=
  [".tutor", ".gitconfig", ".config/git/config", ".config/git/ignore"]

def values (words : List String) : List String :=
  words.flatMap fun word =>
    match word.toList.dropWhile (· != '=') with
    | _ :: value => [word, String.ofList value]
    | [] => [word]

def environment : IO Environment := do
  try
    let block ← IO.FS.readBinFile "/proc/self/environ"
    -- each entry of the block ends in a byte that is zero
    let entries := (block.toList.splitBy fun byte _ => byte != 0).map (·.filter (· != 0))
    return ⟨entries.filter (· != [])⟩
  catch _ =>
    let known ← ["HOME", "XDG_CONFIG_HOME", Settings.keyVariable].filterMapM fun name => do
      return (← IO.getEnv name).map (name, ·)
    return .ofVariables known

/-- The disk as far as a run with these words may look at it. -/
def disk (e : Environment) (words : List String) : IO Disk := do
  let here := names (← IO.FS.realPath ".").toString
  let mut root ← addEntry (.directory []) (Disk.pathTo here) "" false
  root ← addIgnoreFiles root here
  for value in values words do
    let path := Path.join (Disk.pathTo here) value
    root ← addEntry root path "" true
    try
      root ← addIgnoreFiles root (names (← IO.FS.realPath path).toString)
    catch _ => pure ()
  if let some home := e.lookup? "HOME" then
    for file in homeFiles do
      root ← addEntry root home file true
  for file in GitSettings.settingsFiles e do
    root ← addEntry root (Path.join (Disk.pathTo here) file) "" true
  return { root, here }

end Snapshot

end CommandLine

end Marginalia
