import Marginalia.Url.Host
import Marginalia.Url.Path

/-!
# Addresses

An address has a scheme and, after it, an authority with a host, a path, a query and a
fragment.  Reading brings it to its usual form: the path has no segments of dots, and in the
schemes of the web their own port is left out and a backslash is a slash.
-/

namespace Marginalia

namespace Url

/-- Who and where: a name and a password if given, a host, and a port. -/
structure Authority where
  user : List Char := []
  password : List Char := []
  host : List Char
  port : Option Nat := none
  deriving DecidableEq, Repr

end Url

structure Url where
  scheme : List Char
  authority : Option Url.Authority
  path : Url.Path
  query : Option (List Char) := none
  fragment : Option (List Char) := none
  deriving DecidableEq, Repr

namespace Url

/-- The port of a scheme that need not be written. -/
def defaultPort? (scheme : List Char) : Option Nat :=
  match String.ofList scheme with
  | "http" => some 80
  | "https" => some 443
  | "ws" => some 80
  | "wss" => some 443
  | "ftp" => some 21
  | _ => none

def isFileScheme (scheme : List Char) : Bool :=
  scheme == ['f', 'i', 'l', 'e']

def isSpecialScheme (scheme : List Char) : Bool :=
  isFileScheme scheme || (defaultPort? scheme).isSome

/-! ## Writing -/

def Authority.render (a : Authority) : List Char :=
  let credentials :=
    if a.user.isEmpty ∧ a.password.isEmpty then []
    else a.user ++ (if a.password.isEmpty then [] else ':' :: a.password) ++ ['@']
  let port :=
    match a.port with
    | some n => ':' :: (toString n).toList
    | none => []
  credentials ++ a.host ++ port

/-- What stands between scheme and path: an authority, or what tells a path from one. -/
def renderAuthority (u : Url) : List Char :=
  match u.authority, u.path with
  | some a, _ => '/' :: '/' :: a.render
  | none, .rooted ('/' :: '/' :: _) => ['/', '.']
  | none, _ => []

def renderChars (u : Url) : List Char :=
  u.scheme ++ ':' :: u.renderAuthority ++ u.path.render ++
    (match u.query with
      | some q => '?' :: q
      | none => []) ++
    (match u.fragment with
      | some f => '#' :: f
      | none => [])

def render (u : Url) : String :=
  String.ofList u.renderChars

/-! ## Reading -/

/-- Whether a character is a tab or ends a line; both are left out of addresses. -/
def isLeftOut (c : Char) : Bool :=
  c == '\t' || c == '\n' || c == '\r'

/--
A text without tabs and line ends, but for one tab in the place of those that stand behind
a letter and a colon.
-/
def dropLeftOut : List Char → List Char → List Char
  | back, [] => back.reverse
  | back, c :: cs =>
      if isLeftOut c then
        match back with
        | ':' :: letter :: _ => dropLeftOut (if letter.isAlpha then '\t' :: back else back) cs
        | _ => dropLeftOut back cs
      else dropLeftOut (c :: back) cs

/-- A text without blanks and control characters at its ends. -/
def trimEdges (cs : List Char) : List Char :=
  let isEdge (c : Char) : Bool := c.toNat ≤ 0x20
  ((cs.dropWhile isEdge).reverse.dropWhile isEdge).reverse

def isSchemeChar (c : Char) : Bool :=
  c.isAlphanum || c == '+' || c == '-' || c == '.'

/-- The scheme at the start of a text, in small letters, and what follows its colon. -/
def splitScheme? (cs : List Char) : Option (List Char × List Char) :=
  match cs with
  | [] => none
  | c :: _ =>
      if c.isAlpha then
        match cs.dropWhile isSchemeChar with
        | ':' :: rest => some ((cs.takeWhile isSchemeChar).map Text.asciiLower, rest)
        | _ => none
      else none

def endsAuthority (isSpecial : Bool) (c : Char) : Bool :=
  isSlash isSpecial c || c == '?' || c == '#'

def splitTail (isSpecial : Bool) (cs : List Char) :
    List Char × Option (List Char) × Option (List Char) :=
  let encode (inSet : Char → Bool) (part : List Char) : List Char :=
    percentEncode inSet (part.filter (!isLeftOut ·))
  let (front, fragment) :=
    match cs.dropWhile (· != '#') with
    | [] => (cs, none)
    | _ :: f => (cs.takeWhile (· != '#'), some (encode inFragmentSet f))
  match front.dropWhile (· != '?') with
  | [] => (front, none, fragment)
  | _ :: q => (front.takeWhile (· != '?'), some (encode (inQuerySet isSpecial) q), fragment)

/-- The last part behind an at sign, and what stands before that sign if there is one. -/
def splitCredentials (cs : List Char) : Option (List Char) × List Char :=
  match cs.reverse.dropWhile (· != '@') with
  | [] => (none, cs)
  | _ :: before => (some before.reverse, (cs.reverse.takeWhile (· != '@')).reverse)

def readCredentials (cs : List Char) : List Char × List Char :=
  let encode := percentEncode inUserSet
  match cs.dropWhile (· != ':') with
  | [] => (encode cs, [])
  | _ :: password => (encode (cs.takeWhile (· != ':')), encode password)

/-- The host at the start of a text and what follows it; a colon in brackets does not end it. -/
def splitHost : Bool → List Char → List Char × List Char
  | _, [] => ([], [])
  | inBrackets, c :: cs =>
      if c = ':' ∧ !inBrackets then ([], c :: cs)
      else
        let (host, rest) :=
          splitHost (if c = '[' then true else if c = ']' then false else inBrackets) cs
        (c :: host, rest)

/--
A port at the start of a text, and what follows it; the port of the scheme is left out.  Only
what begins a path, a query or a fragment may follow, and a backslash is among them.
-/
def readPort (scheme : List Char) (cs : List Char) :
    Except Fault (Option Nat × List Char) :=
  let digits := cs.takeWhile Text.isDigit
  let rest := cs.dropWhile Text.isDigit
  let n := Text.decimalValue digits
  if n > 65535 ∨ !(rest.head?.all (endsAuthority true)) then .error .invalidPort
  else if digits.isEmpty ∨ defaultPort? scheme = some n then .ok (none, rest)
  else .ok (some n, rest)

def readAuthority (scheme : List Char) (cs : List Char) :
    Except Fault (Authority × List Char) := do
  let isSpecial := isSpecialScheme scheme
  let front := cs.takeWhile fun c => !endsAuthority isSpecial c
  let behind := cs.dropWhile fun c => !endsAuthority isSpecial c
  let (before, place) := splitCredentials front
  let (user, password) := (before.map readCredentials).getD ([], [])
  let (hostText, rest) := splitHost false place
  if isSpecial ∧ hostText.isEmpty then throw .emptyHost
  if before = some [] ∧ place.isEmpty ∧ !behind.isEmpty then throw .emptyHost
  let host ← if isSpecial then specialHost hostText else plainHost hostText
  let isNamed := !user.isEmpty || !password.isEmpty
  if host.isEmpty ∧ (isNamed ∨ !rest.isEmpty) then throw .emptyHost
  let (port, rest) ← readPort scheme (rest.drop 1 ++ behind)
  return ({ user, password, host, port }, rest)

/-- An address with an authority: what follows the slashes behind the scheme. -/
def withAuthority (scheme : List Char) (cs : List Char) : Except Fault Url := do
  let isSpecial := isSpecialScheme scheme
  let (authority, rest) ← readAuthority scheme cs
  let (front, query, fragment) := splitTail isSpecial rest
  let path :=
    match front with
    | [] => if isSpecial then ['/'] else []
    | c :: after =>
        if isSlash isSpecial c then readPath false isSpecial ['/'] after
        else readPath false isSpecial ['/'] front
  return { scheme, authority := some authority, path := .rooted path, query, fragment }

/--
The host of an address of a file, and how its path begins and goes on.  A drive in the place of
a host begins the path.
-/
def splitFileHost (front : List Char) : List Char × List Char × List Char :=
  match front.map fun c => if isSlash true c then '/' else c with
  | '/' :: '/' :: rest =>
      let host := (rest.takeWhile (· != '/')).filter (!isLeftOut ·)
      if isDrive host then ([], ['/'], rest) else (host, ['/'], rest.dropWhile (· != '/'))
  | '/' :: path => ([], [], '/' :: path)
  | path => ([], ['/'], path)

/-- Whether a path begins with a drive and its colon. -/
def startsAtDrive (path : List Char) : Bool :=
  isUsualDrive ((path.drop 1).takeWhile (· != '/'))

/--
An address of a file: what follows the colon behind the scheme.  A path that begins with a
drive has no host.
-/
def ofFile (scheme : List Char) (cs : List Char) : Except Fault Url := do
  let (front, query, fragment) := splitTail true cs
  let (hostText, start, rest) := splitFileHost front
  let named ← if hostText.isEmpty then pure [] else specialHost hostText
  let host := if String.ofList named == "localhost" then [] else named
  let path := readPath true true start (if host.isEmpty then rest else rest.drop 1)
  return {
    scheme
    authority := some { host := if startsAtDrive path then [] else host }
    path := .rooted (ofFilePath path)
    query
    fragment }

def parse (text : String) : Except Fault Url :=
  match splitScheme? (dropLeftOut [] (trimEdges text.toList)) with
  | none => .error .noBase
  | some (scheme, rest) =>
      if isFileScheme scheme then ofFile scheme (rest.dropWhile isLeftOut)
      else
        let rest := rest.filter (!isLeftOut ·)
        if isSpecialScheme scheme then withAuthority scheme (rest.dropWhile (isSlash true))
        else
          match rest with
          | '/' :: '/' :: rest => withAuthority scheme rest
          | _ =>
              let (front, query, fragment) := splitTail false rest
              let path : Path :=
                match front with
                | '/' :: after => .rooted (readPath false false ['/'] after)
                | text => .plain (percentEncode isControl text)
              .ok { scheme, authority := none, path, query, fragment }

/-! ## Parts and relatives -/

def host? (u : Url) : Option String :=
  u.authority.map fun a => String.ofList a.host

def withTrailingSlash (u : Url) : Url :=
  match u.path with
  | .plain _ => u
  | .rooted text => { u with path := .rooted (endInSlash (isFileScheme u.scheme) text) }

/-- The address that a relative path leads to, seen from another address. -/
def join (base : Url) (relative : String) : Except Fault Url :=
  match base.path with
  | .plain _ => .error .opaqueBase
  | .rooted text =>
      .ok { base with
        path := .rooted (follow (isFileScheme base.scheme) text relative.toList)
        query := none
        fragment := none }

def withoutCredentials (u : Url) : Url :=
  { u with authority := u.authority.map fun a => { a with user := [], password := [] } }

end Url

end Marginalia
