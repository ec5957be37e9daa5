import Marginalia.Text.Parts

/-!
# Paths

A path is a text with slashes.  It may begin at the root or with a dot for the place where
one is; behind that it has parts, of which the empty ones and further dots say nothing.
-/

namespace Marginalia

inductive PathStart where
  | root
  | here
  | unsaid
  deriving DecidableEq, Repr

structure Path where
  start : PathStart
  parts : List (List Char)
  deriving DecidableEq, Repr

namespace Path

def ofText (text : String) : Path :=
  match Text.partsAt '/' text.toList with
  | [] => ⟨.unsaid, []⟩
  | [] :: rest => if rest.isEmpty then ⟨.unsaid, []⟩ else ⟨.root, rest⟩
  | ['.'] :: rest => ⟨.here, rest⟩
  | parts => ⟨.unsaid, parts⟩

def isIdle (part : List Char) : Bool :=
  part.isEmpty || part == ['.']

def above : List Char := ['.', '.']

def steps (p : Path) : List (List Char) :=
  p.parts.filter (!isIdle ·)

/-- Parts without those at either end that say nothing. -/
def trimParts (parts : List (List Char)) : List (List Char) :=
  ((parts.dropWhile isIdle).reverse.dropWhile isIdle).reverse

/-- What is left of parts behind the given steps, when they begin with those. -/
def behindSteps? : List (List Char) → List (List Char) → Option (List (List Char))
  | [], parts => some parts
  | _ :: _, [] => none
  | step :: steps, part :: parts =>
      if isIdle part then behindSteps? (step :: steps) parts
      else if part = step then behindSteps? steps parts
      else none

/-- The text of a path without what says nothing at its end. -/
def textToEnd (p : Path) : List Char :=
  let kept := (p.parts.reverse.dropWhile isIdle).reverse
  match p.start with
  | .root => '/' :: Text.joinWith '/' kept
  | .here => Text.joinWith '/' (['.'] :: kept)
  | .unsaid => Text.joinWith '/' kept

/-- The text of a path as seen from a base that it lies below; empty for the base itself. -/
def below? (base p : Path) : Option (List Char) :=
  if base.start = .unsaid ∧ base.steps.isEmpty then some p.textToEnd
  else if base.start = p.start then
    (behindSteps? base.steps p.parts).map fun parts => Text.joinWith '/' (trimParts parts)
  else none

/-- Whether a path says where to go without beginning at the root or going up. -/
def isContained (text : String) : Bool :=
  let p := ofText text
  text != "" && p.start != .root && !p.parts.contains above

/-- A path text followed by another one, which is taken alone when it begins at the root. -/
def join (base text : String) : String :=
  if text.startsWith "/" then text
  else if base = "" ∨ base.endsWith "/" then base ++ text
  else base ++ "/" ++ text

end Path

end Marginalia
