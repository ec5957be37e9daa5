import Marginalia.Text.Utf8

/-!
# Globs

A glob is a pattern for paths, matched byte by byte.  A star stands for anything inside
one part of a path and a question mark for one byte of it; two stars between slashes stand
for any number of parts.  Brackets hold a choice of bytes and braces a choice of patterns.
A backslash takes the meaning from the character behind it, and a bracket that is never
closed stands for itself.
-/

namespace Marginalia

inductive GlobToken where
  | bytes (bytes : List UInt8)
  /-- One byte other than a slash. -/
  | anyByte
  /-- Any bytes other than slashes. -/
  | anyBytes
  /-- Two stars at the start: any number of parts. -/
  | anyParts
  /-- Two stars at the end: something below. -/
  | anythingBelow
  /-- Two stars in the middle: a slash, or two of them with anything between. -/
  | partsBetween
  | oneOf (isNegated : Bool) (ranges : List (UInt8 × UInt8))
  | either (branches : List (List GlobToken))
  deriving Repr, Inhabited

abbrev Glob := List GlobToken

namespace Glob

def slash : UInt8 := 47

/-! ## Matching -/

def behind? : List UInt8 → List UInt8 → Option (List UInt8)
  | [], text => some text
  | _ :: _, [] => none
  | b :: bytes, c :: text => if b = c then behind? bytes text else none

def suffixes : List UInt8 → List (List UInt8)
  | [] => [[]]
  | c :: text => (c :: text) :: suffixes text

/-- A text and everything that is left of it after bytes other than slashes. -/
def restsInPart : List UInt8 → List (List UInt8)
  | [] => [[]]
  | c :: text => (c :: text) :: (if c = slash then [] else restsInPart text)

/-- Everything that is left of a text behind one of its slashes. -/
def restsBehindSlash : List UInt8 → List (List UInt8)
  | [] => []
  | c :: text => if c = slash then text :: restsBehindSlash text else restsBehindSlash text

/-- Keeps one of the rests of each length; rests of one text are equal when their lengths are. -/
def distinctRests (rests : List (List UInt8)) : List (List UInt8) :=
  let sized := rests.map fun rest => (rest.length, rest)
  let kept := sized.foldr
    (fun item kept => if kept.any (·.1 == item.1) then kept else item :: kept) []
  kept.map (·.2)

def isInRanges (ranges : List (UInt8 × UInt8)) (c : UInt8) : Bool :=
  ranges.any fun (low, high) => low ≤ c && c ≤ high

mutual

/-- What can be left of a text behind something that matches a piece. -/
def restsOfToken : GlobToken → List UInt8 → List (List UInt8)
  | .bytes bytes, text => (behind? bytes text).toList
  | .anyByte, text =>
      match text with
      | c :: rest => if c = slash then [] else [rest]
      | [] => []
  | .anyBytes, text => restsInPart text
  | .anyParts, text => text :: restsBehindSlash text
  | .anythingBelow, text =>
      match text with
      | c :: rest => if c = slash then suffixes rest else []
      | [] => []
  | .partsBetween, text =>
      match text with
      | c :: rest => if c = slash then rest :: restsBehindSlash rest else []
      | [] => []
  | .oneOf isNegated ranges, text =>
      match text with
      | c :: rest => if isInRanges ranges c != isNegated then [rest] else []
      | [] => []
  | .either branches, text => if branches.isEmpty then [text] else restsOfEither branches text

/-- What can be left of a text behind something that matches one of some globs. -/
def restsOfEither : List (List GlobToken) → List UInt8 → List (List UInt8)
  | [], _ => []
  | branch :: branches, text => restsOfAll branch [text] ++ restsOfEither branches text

/-- What can be left of one of some texts behind something that matches a glob. -/
def restsOfAll : List GlobToken → List (List UInt8) → List (List UInt8)
  | [], texts => texts
  | token :: tokens, texts => restsOfAll tokens (distinctRests (texts.flatMap (restsOfToken token)))

end

/-- Whether a glob matches a whole text.  Two stars alone match everything. -/
def isMatch (glob : Glob) (text : List UInt8) : Bool :=
  match glob with
  | [.anyParts] => true
  | _ => (restsOfAll glob [text]).any List.isEmpty

/-! ## Reading -/

def bytesOf (c : Char) : List UInt8 :=
  Text.Utf8.encode (String.singleton c)

/--
The ranges of bytes that stand for a range of characters: of characters beyond ASCII every
byte counts by itself.
-/
def byteRanges (low high : Char) : List (UInt8 × UInt8) :=
  let single (b : UInt8) : UInt8 × UInt8 := (b, b)
  if low = high then (bytesOf low).map single
  else
    match (bytesOf low).getLast?, bytesOf high with
    | some a, b :: more => (bytesOf low).dropLast.map single ++ (a, b) :: more.map single
    | _, _ => []

/-- How a choice in brackets was read. -/
inductive ClassRead where
  | closed (ranges : List (Char × Char)) (rest : List Char)
  | unclosed
  /-- A range ends before it begins. -/
  | backwards

/--
Reads a choice in brackets up to the closing one.  A closing bracket in the first place
stands for itself, and so does a dash in the first or the last one; the last range read
stands first, and `isRange` says that a dash behind it waits for its end.
-/
def classFrom (ranges : List (Char × Char)) (isFirst isRange : Bool) : List Char → ClassRead
  | [] => .unclosed
  | c :: cs =>
      if c = ']' ∧ !isFirst then
        .closed (if isRange then ('-', '-') :: ranges else ranges) cs
      else if c = '-' ∧ !isFirst ∧ !isRange then classFrom ranges false true cs
      else if isRange then
        match ranges with
        | (low, _) :: more =>
            if c < low then .backwards else classFrom ((low, c) :: more) false false cs
        | [] => .backwards
      else classFrom ((c, c) :: ranges) false false cs

/-- A choice in braces that is not closed yet: the pieces before it and its branches so far. -/
structure OpenChoice where
  before : List GlobToken
  branches : List (List GlobToken)

/--
A glob that is being read: the pieces of the present branch, the last one first, and the
choices around it, the innermost one first.
-/
structure Draft where
  tokens : List GlobToken := []
  choices : List OpenChoice := []
  /-- Whether a bracket was found that is never closed, so that brackets stand for themselves. -/
  isPlain : Bool := false

namespace Draft

def push (d : Draft) (token : GlobToken) : Draft :=
  { d with tokens := token :: d.tokens }

def openChoice (d : Draft) : Draft :=
  { d with tokens := [], choices := ⟨d.tokens, []⟩ :: d.choices }

def saysNothing : List GlobToken → Bool
  | [] => true
  | .either [] :: tokens => saysNothing tokens
  | _ => false

/-- Ends a branch and begins another one; outside of choices a comma stands for itself. -/
def comma (d : Draft) : Draft :=
  match d.choices with
  | [] => d.push (.bytes [44])
  | choice :: choices =>
      { d with
        tokens := []
        choices := { choice with branches := choice.branches ++ [d.tokens.reverse] } :: choices }

/-- Ends a choice.  Branches that say nothing are left out. -/
def closeChoice? (d : Draft) : Option Draft :=
  match d.choices with
  | [] => none
  | choice :: choices =>
      let branches := (choice.branches ++ [d.tokens.reverse]).filter (!saysNothing ·)
      some { d with tokens := .either branches :: choice.before, choices }

/-- Puts two stars, after which the glob goes on or ends, in the place of the piece before them. -/
def replaceByStars (d : Draft) (token : GlobToken) : Draft :=
  match d.tokens with
  | .anyParts :: _ => d
  | .anythingBelow :: _ => d
  | _ :: tokens => { d with tokens := token :: tokens }
  | [] => d

/--
Reads two stars, which stand behind `previous` and in front of a text, and gives what is
left of that text.
-/
def stars (d : Draft) (previous : Option Char) (rest : List Char) : Draft × List Char :=
  let plain := ((d.push .anyBytes).push .anyBytes, rest)
  let isInChoice := !d.choices.isEmpty
  if d.tokens.isEmpty then
    match rest with
    | [] => (d.push .anyParts, [])
    | '/' :: rest => (d.push .anyParts, rest)
    | _ => plain
  else if previous ≠ some '/' ∧
      (!isInChoice ∨ (previous ≠ some ',' ∧ previous ≠ some '\x7b')) then plain
  else
    match rest with
    | [] => (d.replaceByStars .anythingBelow, [])
    | '/' :: rest => (d.replaceByStars .partsBetween, rest)
    | c :: _ =>
        if isInChoice ∧ (c = ',' ∨ c = '\x7d') then (d.replaceByStars .anythingBelow, rest)
        else plain

def classToken (isNegated : Bool) (ranges : List (Char × Char)) : GlobToken :=
  .oneOf isNegated (ranges.reverse.flatMap fun (low, high) => byteRanges low high)

def bracket? (d : Draft) (cs : List Char) : Option (Draft × List Char) :=
  let (isNegated, body) :=
    match cs with
    | '!' :: body => (true, body)
    | '^' :: body => (true, body)
    | body => (false, body)
  match classFrom [] true false body with
  | .closed ranges rest => some (d.push (classToken isNegated ranges), rest)
  | .unclosed => some ({ d with isPlain := true }.push (.bytes (bytesOf '[')), cs)
  | .backwards => none

/--
Reads the pieces of a glob; the first argument bounds their number and `previous` is the
character in front of the text.
-/
def read : Nat → Draft → Option Char → List Char → Option Draft
  | 0, d, _, cs => if cs.isEmpty then some d else none
  | _ + 1, d, _, [] => some d
  | fuel + 1, d, previous, c :: cs =>
      if c = '?' then read fuel (d.push .anyByte) (some c) cs
      else if c = '*' then
        match cs with
        | '*' :: rest =>
            let (d, left) := d.stars previous rest
            read fuel d (some (if left.length < rest.length then '/' else '*')) left
        | _ => read fuel (d.push .anyBytes) (some c) cs
      else if c = '[' ∧ !d.isPlain then
        match d.bracket? cs with
        | none => none
        | some (d, rest) => read fuel d (some (if d.isPlain then c else ']')) rest
      else if c = '\x7b' then read fuel d.openChoice (some c) cs
      else if c = '\x7d' then d.closeChoice?.bind fun d => read fuel d (some c) cs
      else if c = ',' then read fuel d.comma (some c) cs
      else if c = '\\' then
        match cs with
        | [] => none
        | e :: rest => read fuel (d.push (.bytes (bytesOf e))) (some e) rest
      else read fuel (d.push (.bytes (bytesOf c))) (some c) cs

end Draft

/-- Reads a glob; none when a choice is not closed or not opened, or a range runs backwards. -/
def ofChars? (cs : List Char) : Option Glob := do
  let d ← Draft.read cs.length {} none cs
  if d.choices.isEmpty then some d.tokens.reverse else none

end Glob

end Marginalia
