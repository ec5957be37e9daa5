import Marginalia.Settings.Environment
import Marginalia.Text.Parts
import Marginalia.Url.Parser
import Marginalia.Url.Strict

/-!
# Proxies

The environment may name a proxy that requests go through, and hosts for which none is used.
The first variable of a kind that is set counts, even when its value is empty; a value that is
no address of a proxy is as none.
-/

namespace Marginalia

namespace Chat

namespace Proxy

/-- The value of the first variable that is set; empty when none is. -/
def firstOf (e : Environment) (names : List String) : String :=
  (names.findSome? e.lookup?).getD ""

def schemes : List String :=
  ["http", "https", "socks4", "socks4a", "socks5", "socks5h"]

/-- Whether a text is the address of a proxy; behind a name and a password an authority follows. -/
def isAddress (text : String) : Bool :=
  match Url.Strict.parts? text with
  | none => false
  | some parts =>
      parts.scheme.all (fun scheme => schemes.contains (String.ofList scheme)) &&
        match parts.authority.dropWhile (· != '@') with
        | [] => true
        | _ :: place => !place.isEmpty && Url.Strict.isAuthority place

/-! ## Hosts without a proxy -/

/-- One of the four numbers of a host, of at most three digits. -/
def quarter? (isBare : Bool) (cs : List Char) : Option Nat :=
  let n := Text.decimalValue cs
  let isPadded := cs.length > 1 ∧ cs.head? = some '0'
  if cs.isEmpty ∨ cs.length > 3 ∨ !cs.all Text.isDigit ∨ n > 255 ∨ (isBare ∧ isPadded) then none
  else some n

/-- The number of a host in four parts; one that stands for itself has no zeros in front. -/
def number? (isBare : Bool) (cs : List Char) : Option Nat := do
  let values ← (Text.partsAt '.' cs).mapM (quarter? isBare)
  if values.length = 4 then some (values.foldl (fun n v => n * 256 + v) 0) else none

def coversNumber (host : Nat) (entry : List Char) : Bool :=
  match entry.dropWhile (· != '/') with
  | [] => number? true entry == some host
  | _ :: bits =>
      match number? false (entry.takeWhile (· != '/')) with
      | none => false
      | some net =>
          let n := Text.decimalValue bits
          let size := Nat.pow 2 (32 - n)
          !bits.isEmpty && bits.length ≤ 3 && bits.all Text.isDigit && n ≤ 32 &&
            net / size == host / size

/-- Whether an entry of the list is a name, or the end of a name behind a dot; a star is any. -/
def coversName (host entry : List Char) : Bool :=
  let entry := entry.map Text.asciiLower
  let inner := if entry.head? = some '.' then entry.drop 1 else entry
  entry == ['*'] || (!entry.isEmpty && (inner == host || ('.' :: inner).isSuffixOf host))

def lists (list : String) (host : List Char) : Bool :=
  let entries := (Text.partsAt ',' list.toList).map fun entry =>
    Text.dropBlankEnd (Text.dropBlankStart entry)
  match number? true host with
  | some n => entries.any (coversNumber n)
  | none => entries.any (coversName host)

/-! ## The choice -/

/-- The variables for a scheme, the one in capital letters first. -/
def namesFor (scheme : String) : List String :=
  if scheme = "https" then ["HTTPS_PROXY", "https_proxy"] else ["HTTP_PROXY", "http_proxy"]

/--
Whether requests to an address go through a proxy.  None do in a program that itself answers a
request.
-/
def isUsed (e : Environment) (url : Url) : Bool :=
  let host := (url.authority.map (·.host)).getD []
  let named := firstOf e (namesFor (String.ofList url.scheme))
  (e.lookup? "REQUEST_METHOD").isNone &&
    (isAddress named || isAddress (firstOf e ["ALL_PROXY", "all_proxy"])) &&
    !lists (firstOf e ["NO_PROXY", "no_proxy"]) host

end Proxy

end Chat

end Marginalia
