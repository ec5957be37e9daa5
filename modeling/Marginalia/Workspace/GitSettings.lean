import Marginalia.Settings.Environment
import Marginalia.Text.Ascii
import Marginalia.Workspace.Disk
import Marginalia.Workspace.IgnoreRules

/-!
# The ignore file of a user

The settings of git may name an ignore file for all workspaces of a user; without a name
it has a usual place.  The settings are looked through for one entry only and are not read
otherwise.
-/

namespace Marginalia

namespace GitSettings

def isBlankByte (b : UInt8) : Bool :=
  b == 32 || (9 ≤ b && b ≤ 13)

def isBlankInLine (b : UInt8) : Bool :=
  isBlankByte b && b != 10

def dropBlanks (bytes : List UInt8) : List UInt8 :=
  bytes.dropWhile isBlankByte

/-- A text behind a quote, if one stands at its start. -/
def behindQuote? : List UInt8 → Option (List UInt8)
  | 34 :: rest => some rest
  | _ => none

/-- Whether the line goes on with nothing but blanks. -/
def isAtLineEnd (bytes : List UInt8) : Bool :=
  match bytes.dropWhile isBlankInLine with
  | [] => true
  | b :: _ => b == 10

/-- Whether the line goes on with nothing but blanks and at most one quote. -/
def endsValue (bytes : List UInt8) : Bool :=
  isAtLineEnd bytes ||
    match behindQuote? (bytes.dropWhile isBlankInLine) with
    | some rest => isAtLineEnd rest
    | none => false

/-- The shortest word at the start of a text that its line ends with; `taken` is turned round. -/
def valueFrom (taken : List UInt8) : List UInt8 → Option (List UInt8)
  | [] => none
  | b :: rest =>
      if isBlankByte b then none
      else if endsValue rest then some (b :: taken).reverse
      else valueFrom (b :: taken) rest

def value? (bytes : List UInt8) : Option (List UInt8) :=
  let bytes := dropBlanks bytes
  let quoted := (behindQuote? bytes).bind fun rest => valueFrom [] (dropBlanks rest)
  quoted.or (valueFrom [] bytes)

def lowerByte (b : UInt8) : UInt8 :=
  if 65 ≤ b ∧ b ≤ 90 then b + 32 else b

def entryName : List UInt8 :=
  Text.Utf8.encode "excludesfile"

/-- The value of the entry when a line starts with it. -/
def entryHere? (bytes : List UInt8) : Option (List UInt8) := do
  let bytes := dropBlanks bytes
  let name := bytes.take entryName.length
  if name.map lowerByte = entryName then
    match dropBlanks (bytes.drop entryName.length) with
    | 61 :: rest => value? rest
    | _ => none
  else none

/-- The value of the first entry in some settings; `isLineStart` says whether a line starts here. -/
def entryFrom? (isLineStart : Bool) : List UInt8 → Option (List UInt8)
  | [] => none
  | b :: rest =>
      (if isLineStart then entryHere? (b :: rest) else none).or (entryFrom? (b == 10) rest)

/-- A text with the home directory in the place of each tilde. -/
def expandTilde (home : Option String) (path : String) : String :=
  match home with
  | none => path
  | some home =>
      String.ofList (path.toList.flatMap fun c => if c = '~' then home.toList else [c])

def ignoreFileIn? (home : Option String) (settings : ByteArray) : Option String :=
  (entryFrom? true settings.toList).bind fun value =>
    (Text.Utf8.decode? value).map fun chars => expandTilde home (String.ofList chars)

/-- The directory for settings of programs. -/
def settingsDirectory? (e : Environment) : Option String :=
  match e.lookup? "XDG_CONFIG_HOME" with
  | some dir => if dir = "" then inHome else some dir
  | none => inHome
where
  inHome : Option String := (e.lookup? "HOME").map (Path.join · ".config")

/-- The files of settings that there may be, those that go before others first. -/
def settingsFiles (e : Environment) : List String :=
  [ e.lookup? "GIT_CONFIG_GLOBAL",
    (e.lookup? "HOME").map (Path.join · ".gitconfig"),
    (settingsDirectory? e).map (Path.join · "git/config"),
    e.lookup? "GIT_CONFIG_SYSTEM" ].filterMap id

/-- The ignore file of the user: the first one that settings name, or the usual one. -/
def ignoreFile? (d : Disk) (e : Environment) : Option String :=
  let namedIn (file : String) : Option String :=
    (d.readBytes file).toOption.bind (ignoreFileIn? (e.lookup? "HOME"))
  ((settingsFiles e).findSome? namedIn).or
    ((settingsDirectory? e).map (Path.join · "git/ignore"))

def ignoreRules (d : Disk) (e : Environment) : IgnoreRules :=
  match (ignoreFile? d e).map d.readBytes with
  | some (.ok bytes) => IgnoreRules.ofBytes bytes
  | _ => {}

end GitSettings

end Marginalia
