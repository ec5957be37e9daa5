import Marginalia.Text.Blank
import Marginalia.Text.Lines
import Marginalia.Workspace.Glob

/-!
# Ignore rules

Each line of an ignore file is a rule: a glob, which may be turned round by an exclamation
mark, may hold for directories only when a slash ends it, and holds at any depth unless it
has another slash.  Of the rules that match a path the last one decides.
-/

namespace Marginalia

structure IgnoreRule where
  glob : Glob
  /-- Whether what matches is kept rather than ignored. -/
  isKept : Bool := false
  isForDirectories : Bool := false

inductive Verdict where
  | unsaid
  | ignored
  | kept
  deriving DecidableEq, Repr

/-- The first of two verdicts, unless it says nothing. -/
def Verdict.or : Verdict → Verdict → Verdict
  | .unsaid, v => v
  | v, _ => v

namespace IgnoreRule

/-- A line without the blanks at its end, unless the last one is behind a backslash. -/
def tidy (line : List Char) : List Char :=
  if (['\\', ' '] : List Char).isSuffixOf line then line else Text.dropBlankEnd line

/-- What a line says before its glob is read. -/
structure Line where
  glob : List Char
  isKept : Bool := false
  isAnchored : Bool := false
  isForDirectories : Bool := false

/-- Takes the marks at the start of a line. -/
def Line.ofStart (line : List Char) : Line :=
  match line with
  | '\\' :: '!' :: _ => { glob := line.drop 1 }
  | '\\' :: '#' :: _ => { glob := line.drop 1 }
  | '!' :: '/' :: rest => { glob := rest, isKept := true, isAnchored := true }
  | '!' :: rest => { glob := rest, isKept := true }
  | '/' :: rest => { glob := rest, isAnchored := true }
  | _ => { glob := line }

/-- Takes the slash at the end of a line, and a backslash that stands before it. -/
def Line.takeEnd (l : Line) : Line :=
  if l.glob.getLast? = some '/' then
    let glob := l.glob.dropLast
    { l with
      glob := if glob.getLast? = some '\\' then glob.dropLast else glob
      isForDirectories := true }
  else l

/-- The glob of a line in full: at any depth without a slash, and below what ends in two stars. -/
def Line.fullGlob (l : Line) : List Char :=
  let anyDepth : List Char := ['*', '*', '/']
  let glob :=
    if l.isAnchored ∨ l.glob.contains '/' ∨ l.glob = ['*', '*'] then l.glob else anyDepth ++ l.glob
  if (['/', '*', '*'] : List Char).isSuffixOf glob then glob ++ ['/', '*'] else glob

def ofLine? (line : List Char) : Option IgnoreRule :=
  if line.head? = some '#' then none
  else
    let line := tidy line
    if line.isEmpty then none
    else
      let l := (Line.ofStart line).takeEnd
      (Glob.ofChars? l.fullGlob).map fun glob =>
        { glob, isKept := l.isKept, isForDirectories := l.isForDirectories }

def verdict (r : IgnoreRule) (path : List UInt8) (isDirectory : Bool) : Verdict :=
  if (!r.isForDirectories || isDirectory) && r.glob.isMatch path then
    if r.isKept then .kept else .ignored
  else .unsaid

end IgnoreRule

structure IgnoreRules where
  rules : List IgnoreRule := []

namespace IgnoreRules

/-- A line without its carriage return, if the line has an end. -/
def endedLines (bytes : List UInt8) : List (List UInt8) :=
  let lines := bytes.foldr
    (fun b (lines : List (List UInt8)) =>
      if b = 10 then [] :: lines
      else
        match lines with
        | [] => [[b]]
        | line :: lines => (b :: line) :: lines)
    [[]]
  let strip (line : List UInt8) : List UInt8 :=
    if line.getLast? = some 13 then line.dropLast else line
  let ended := lines.dropLast.map strip
  match lines.getLast? with
  | some [] => ended
  | some last => ended ++ [last]
  | none => ended

/-- The lines up to the first one that is no text. -/
def textLines : List (List UInt8) → List (List Char)
  | [] => []
  | line :: lines =>
      match Text.Utf8.decode? line with
      | some chars => chars :: textLines lines
      | none => []

/-- The rules in the bytes of an ignore file, which may begin with byte order marks. -/
def ofBytes (bytes : ByteArray) : IgnoreRules :=
  match textLines (endedLines bytes.toList) with
  | [] => {}
  | first :: lines =>
      ⟨(first.dropWhile (· == '\uFEFF') :: lines).filterMap IgnoreRule.ofLine?⟩

/-- What the rules say about a path: the last one that matches decides. -/
def verdict (rs : IgnoreRules) (path : List UInt8) (isDirectory : Bool) : Verdict :=
  rs.rules.foldl (fun v r => (r.verdict path isDirectory).or v) .unsaid

end IgnoreRules

end Marginalia
