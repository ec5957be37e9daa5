import Marginalia.Text.Parts
import Marginalia.Url.Percent

/-!
# Paths of addresses

A path is kept as it is written: empty, or a text that begins with a slash.  Reading one
takes its segments in order; a segment of dots stands for the place that it is in or for
the one above it, and the name of a drive is never left by going up.

While a path is read it is kept turned round, so that its last character comes first.
-/

namespace Marginalia

namespace Url

/-- A path as it is written, or a text that is no path. -/
inductive Path where
  | rooted (text : List Char)
  | plain (text : List Char)
  deriving DecidableEq, Repr

def Path.render : Path → List Char
  | .rooted text => text
  | .plain text => text

/-- Whether a character is a slash; in schemes of the web a backslash is one too. -/
def isSlash (isSpecial : Bool) (c : Char) : Bool :=
  c == '/' || (isSpecial && c == '\\')

/-! ## Kinds of segments -/

/-- Whether a segment stands for the place that it is in. -/
def isSingleDot (segment : List Char) : Bool :=
  let s := segment.map Text.asciiLower
  s == ['.'] || s == ['%', '2', 'e']

/-- Whether a segment stands for the place above. -/
def isDoubleDot (segment : List Char) : Bool :=
  let s := segment.map Text.asciiLower
  s == ['.', '.'] || s == ['.', '%', '2', 'e'] || s == ['%', '2', 'e', '.'] ||
    s == ['%', '2', 'e', '%', '2', 'e']

/-- Whether a segment is the name of a drive: a letter, and a colon or a bar. -/
def isDrive : List Char → Bool
  | [letter, mark] => letter.isAlpha && (mark == ':' || mark == '|')
  | _ => false

/-- Whether a segment is the name of a drive with its colon. -/
def isUsualDrive (segment : List Char) : Bool :=
  isDrive segment && segment.getLast? == some ':'

/-- Whether a segment is the name of a drive, or one with a mark that ends names behind it. -/
def beginsWithDrive (segment : List Char) : Bool :=
  isDrive (segment.take 2) &&
    (segment.drop 2).head?.all fun c => ['/', '\\', '?', '#'].contains c

/-! ## Going up -/

/-- The last segment of a path that is kept turned round. -/
def lastSegment (back : List Char) : List Char :=
  (back.takeWhile (· != '/')).reverse

/-- A path, kept turned round, without its last segment; the drive of a file stays. -/
def withoutLast (isFile : Bool) (back : List Char) : List Char :=
  if isFile && isUsualDrive (lastSegment back) then back else back.dropWhile (· != '/')

/--
A path, kept turned round, without the slash at its end: unless that slash is the first one,
or stands behind a drive.
-/
def withoutSlash : List Char → List Char
  | '/' :: before =>
      if before.contains '/' && !beginsWithDrive (lastSegment before) then before
      else '/' :: before
  | back => back

/-! ## Segments -/

/-- A path, kept turned round, with a slash at its end. -/
def withSlash : List Char → List Char
  | '/' :: before => '/' :: before
  | back => '/' :: back

/--
The drive at the start of a segment, and what a tab or a line end separates from it.
-/
def splitDrive? (segment : List Char) : Option (List Char × List Char) :=
  match segment with
  | letter :: ':' :: '\t' :: rest =>
      let rest := rest.filter (· != '\t')
      if letter.isAlpha && !rest.isEmpty then some ([letter, ':'], rest) else none
  | _ => none

/--
Adds a segment, behind which a slash follows or not, to a path that is kept turned round.  The
drive at the start of the path of a file is written with a colon.
-/
def addSegment (isFile : Bool) (back : List Char) (segment : List Char) (hasSlash : Bool) :
    List Char :=
  let finish (back : List Char) : List Char := if hasSlash then '/' :: back else back
  let append (text : List Char) (back : List Char) : List Char :=
    (percentEncode inPathSet text).reverse ++ back
  let isFirst := isFile && back == ['/']
  match if isFirst then splitDrive? segment else none with
  | some (drive, rest) => finish (append rest ('/' :: append drive back))
  | none =>
      let segment := segment.filter (· != '\t')
      if isDoubleDot segment then
        let back := withoutLast isFile (withoutSlash back)
        if hasSlash then withSlash back else back
      else if isSingleDot segment then withSlash back
      else if isFirst && isDrive segment then finish (append (segment.take 1 ++ [':']) back)
      else finish (append segment back)

def addSegments (isFile : Bool) : List Char → List (List Char) → List Char
  | back, [] => back
  | back, [segment] => addSegment isFile back segment false
  | back, segment :: more => addSegments isFile (addSegment isFile back segment true) more

/-- The path that begins with `start`, which is empty or a slash, and goes on as a text spells. -/
def readPath (isFile isSpecial : Bool) (start : List Char) (text : List Char) : List Char :=
  let slashed := text.map fun c => if isSlash isSpecial c then '/' else c
  (addSegments isFile start (Text.partsAt '/' slashed)).reverse

/-! ## Paths seen from another one -/

/-- The path of a file: of slashes at its start one is kept. -/
def ofFilePath (text : List Char) : List Char :=
  '/' :: text.dropWhile (· == '/')

/-- A path with a slash at its end; the path of a file is read again when one is put there. -/
def endInSlash (isFile : Bool) (text : List Char) : List Char :=
  if text.getLast? = some '/' then text
  else if isFile then ofFilePath (readPath true true [] (text ++ ['/']))
  else text ++ ['/']

/-- The path that a relative one leads to: it takes the place of the last segment. -/
def follow (isFile : Bool) (text relative : List Char) : List Char :=
  (withSlash (withoutLast isFile text.reverse)).reverse ++ relative

end Url

end Marginalia
