import Marginalia.Toml.Literal
import Marginalia.Toml.Quoted
import Marginalia.Toml.Table

/-!
# Reading TOML

A text is a sequence of lines.  Each is empty, a header, or a key with a value, and may
end in a comment.  Only arrays and quoted texts go over several lines.
-/

namespace Marginalia

namespace Toml

open Quoted (isSpace isPrintable)

/-- How deep arrays and tables in line may be nested, and how many keys a path may have. -/
def maxDepth : Nat := 79

def dropSpaces (cs : List Char) : List Char :=
  cs.dropWhile isSpace

def dropComment : List Char → List Char
  | '#' :: cs => cs.dropWhile isPrintable
  | cs => cs

/-- A text behind its first line end, or the end of the whole text. -/
def lineEnd? : List Char → Option (List Char)
  | [] => some []
  | '\n' :: cs => some cs
  | '\r' :: '\n' :: cs => some cs
  | _ => none

/-- What follows the line, on which there may be only blanks and a comment. -/
def restOfLine? (cs : List Char) : Option (List Char) :=
  lineEnd? (dropComment (dropSpaces cs))

/-- A text without blanks, line ends and comments at its start; `isComment` says where it begins. -/
def dropGap (isComment : Bool) : List Char → List Char
  | [] => []
  | '\n' :: cs => dropGap false cs
  | '\r' :: '\n' :: cs => dropGap false cs
  | c :: cs =>
      if isComment then (if isPrintable c then dropGap true cs else c :: cs)
      else if c = '#' then dropGap true cs
      else if isSpace c then dropGap false cs
      else c :: cs

def isBareKeyChar (c : Char) : Bool :=
  c.isAlphanum || c == '_' || c == '-'

def key : Reader String := fun cs =>
  match cs with
  | '"' :: _ => (Quoted.line cs).map fun (k, rest) => (String.ofList k, rest)
  | '\x27' :: _ => (Quoted.line cs).map fun (k, rest) => (String.ofList k, rest)
  | _ =>
      let (k, rest) := cs.span isBareKeyChar
      if k.isEmpty then none else some (String.ofList k, rest)

/-- Reads keys with dots and blanks between them; the first argument bounds their number. -/
def keys : Nat → Reader (List String)
  | 0, _ => none
  | fuel + 1, cs => do
      let (k, rest) ← key (dropSpaces cs)
      match dropSpaces rest with
      | '.' :: rest => do
          let (ks, rest) ← keys fuel rest
          some (k :: ks, rest)
      | rest => some ([k], rest)

def path : Reader (List String) :=
  keys maxDepth

def assignment (value : Reader Toml) : Reader (List String × Toml) := fun cs => do
  let (p, rest) ← path cs
  let '=' :: rest := rest | none
  let (v, rest) ← value (dropSpaces rest)
  some ((p, v), rest)

/-- Reads the items of an array up to the closing bracket; the first argument bounds them. -/
def items (value : Reader Toml) : Nat → Reader (List Toml)
  | 0, _ => none
  | fuel + 1, cs =>
      match dropGap false cs with
      | ']' :: rest => some ([], rest)
      | cs => do
          let (v, rest) ← value cs
          match dropGap false rest with
          | ']' :: rest => some ([v], rest)
          | ',' :: rest => do
              let (vs, rest) ← items value fuel rest
              some (v :: vs, rest)
          | _ => none

def inlineEntries (value : Reader Toml) : Nat → Entries → Reader Entries
  | 0, _, _ => none
  | fuel + 1, entries, cs => do
      let ((p, v), rest) ← assignment value cs
      let entries ← entries.assign .header p v
      match dropSpaces rest with
      | '\x7d' :: rest => some (entries, rest)
      | ',' :: rest => inlineEntries value fuel entries rest
      | _ => none

def inlineTable (value : Reader Toml) : Reader Toml := fun cs =>
  match dropSpaces cs with
  | '\x7d' :: rest => some (.table [], rest)
  | cs => do
      let (entries, rest) ← inlineEntries value cs.length [] cs
      some (.table (finishEntries entries), rest)

def scalar : Reader Toml := fun cs =>
  match cs with
  | '"' :: _ => (Quoted.read cs).map fun (s, rest) => (.text (String.ofList s), rest)
  | '\x27' :: _ => (Quoted.read cs).map fun (s, rest) => (.text (String.ofList s), rest)
  | _ => Literal.read cs

def value : Nat → Reader Toml
  | 0, cs => scalar cs
  | depth + 1, cs =>
      match cs with
      | '[' :: rest => do
          let (vs, rest) ← items (value depth) (rest.length + 1) rest
          some (.array vs, rest)
      | '\x7b' :: rest => inlineTable (value depth) rest
      | cs => scalar cs

/-- A text that is being read: the header of the table that is open, and all entries so far. -/
structure Draft where
  header : List String := []
  entries : Entries := []

def header (closing : List Char) : Reader (List String) := fun cs => do
  let (p, rest) ← path cs
  if closing.isPrefixOf rest then
    let rest ← restOfLine? (rest.drop closing.length)
    some (p, rest)
  else none

def Draft.line (d : Draft) : Reader Draft
  | '[' :: '[' :: cs => do
      let (p, rest) ← Toml.header [']', ']'] cs
      let entries ← d.entries.addTable p
      some (⟨p, entries⟩, rest)
  | '[' :: cs => do
      let (p, rest) ← Toml.header [']'] cs
      let entries ← d.entries.openTable p
      some (⟨p, entries⟩, rest)
  | cs => do
      let ((p, v), rest) ← assignment (value maxDepth) cs
      let rest ← restOfLine? rest
      let entries ← d.entries.assignBelow d.header p v
      some ({ d with entries }, rest)

/-- Reads lines to the end of the text; the first argument bounds their number. -/
def Draft.lines : Nat → Draft → List Char → Option Draft
  | 0, d, cs => if cs.isEmpty then some d else none
  | fuel + 1, d, cs =>
      match dropSpaces cs with
      | [] => some d
      | '#' :: _ => (restOfLine? cs).bind (lines fuel d)
      | '\n' :: rest => lines fuel d rest
      | '\r' :: '\n' :: rest => lines fuel d rest
      | cs => do
          let (d, rest) ← d.line cs
          lines fuel d rest

/-- The entries of a text, which may begin with a byte order mark. -/
def parse? (text : String) : Option (List (String × Toml)) :=
  let cs :=
    match text.toList with
    | '\uFEFF' :: cs => cs
    | cs => cs
  (Draft.lines cs.length {} cs).map fun d => finishEntries d.entries

end Toml

end Marginalia
