import Marginalia.Text.Ascii
import Marginalia.Toml.Basic

/-!
# Quoted texts

Texts between double quotes, in which a backslash begins an escape, and texts between
single quotes, in which every character stands for itself; both kinds are written on one
line, or on several ones between three quotes.  A line feed right behind three opening
quotes is left out.
-/

namespace Marginalia

namespace Toml

namespace Quoted

/-- Whether a character may stand in a text as it is: no control character but the tab. -/
def isPrintable (c : Char) : Bool :=
  c == '\t' || (c.toNat ≥ 0x20 && c.toNat != 0x7F)

def isSpace (c : Char) : Bool :=
  c == ' ' || c == '\t'

def scalar? (digits : List Char) : Option Char :=
  if digits.all Text.isHexDigit then
    let n := digits.foldl (fun n c => n * 16 + (Text.hexValue? c).getD 0) 0
    if n.isValidChar then some (Char.ofNat n) else none
  else none

def escape? : Reader Char
  | 'b' :: cs => some ('\x08', cs)
  | 't' :: cs => some ('\t', cs)
  | 'n' :: cs => some ('\n', cs)
  | 'f' :: cs => some ('\x0c', cs)
  | 'r' :: cs => some ('\r', cs)
  | '"' :: cs => some ('"', cs)
  | '\\' :: cs => some ('\\', cs)
  | 'u' :: cs => if cs.length < 4 then none else (scalar? (cs.take 4)).map (·, cs.drop 4)
  | 'U' :: cs => if cs.length < 8 then none else (scalar? (cs.take 8)).map (·, cs.drop 8)
  | _ => none

theorem escape?_length {cs rest : List Char} {c : Char} (h : escape? cs = some (c, rest)) :
    rest.length < cs.length := by
  unfold escape? at h
  split at h
  all_goals first
    | (simp only [Option.some.injEq, Prod.mk.injEq] at h; simp [← h.2])
    | (split at h
       · cases h
       · simp only [Option.map_eq_some_iff, Prod.mk.injEq] at h
         obtain ⟨_, _, _, hr⟩ := h
         simp only [← hr, List.length_drop, List.length_cons]
         omega)
    | cases h

/-- Reads a text in double quotes behind the opening one; `acc` has its last character first. -/
def basic (acc cs : List Char) : Option (List Char × List Char) :=
  match cs with
  | [] => none
  | '"' :: rest => some (acc.reverse, rest)
  | '\\' :: rest =>
      match _h : escape? rest with
      | some (c, rest) => basic (c :: acc) rest
      | none => none
  | c :: rest => if isPrintable c then basic (c :: acc) rest else none
termination_by cs.length
decreasing_by
  · have := escape?_length _h
    simp only [List.length_cons]
    omega
  · simp

/-- Reads a text in single quotes behind the opening one. -/
def literal (acc : List Char) : Reader (List Char)
  | [] => none
  | '\x27' :: rest => some (acc.reverse, rest)
  | c :: rest => if isPrintable c then literal (c :: acc) rest else none

def dropLineEnd : List Char → List Char
  | '\n' :: rest => rest
  | '\r' :: '\n' :: rest => rest
  | cs => cs

def endsLine (cs : List Char) : Bool :=
  match cs.dropWhile isSpace with
  | '\n' :: _ => true
  | '\r' :: '\n' :: _ => true
  | _ => false

/-- Closes a text behind three quotes; up to two more of them belong to the text. -/
def close (quote : Char) (acc cs : List Char) : List Char × List Char :=
  match cs with
  | a :: b :: rest =>
      if a = quote then
        if b = quote then ((quote :: quote :: acc).reverse, rest)
        else ((quote :: acc).reverse, b :: rest)
      else (acc.reverse, cs)
  | [a] => if a = quote then ((quote :: acc).reverse, []) else (acc.reverse, cs)
  | [] => (acc.reverse, [])

/--
Reads a text in double quotes on several lines.  A backslash at the end of a line takes all
blanks and line ends behind it away, which is what `isSkipping` says.
-/
def multilineBasic (isSkipping : Bool) (acc cs : List Char) : Option (List Char × List Char) :=
  match cs with
  | [] => none
  | '"' :: '"' :: '"' :: rest => some (close '"' acc rest)
  | '\n' :: rest => multilineBasic isSkipping (if isSkipping then acc else '\n' :: acc) rest
  | '\r' :: '\n' :: rest =>
      multilineBasic isSkipping (if isSkipping then acc else '\n' :: acc) rest
  | '\\' :: rest =>
      if endsLine rest then multilineBasic true acc rest
      else
        match _h : escape? rest with
        | some (c, rest) => multilineBasic false (c :: acc) rest
        | none => none
  | c :: rest =>
      if isSkipping ∧ isSpace c then multilineBasic true acc rest
      else if isPrintable c then multilineBasic false (c :: acc) rest
      else none
termination_by cs.length
decreasing_by
  all_goals simp only [List.length_cons]
  all_goals first
    | omega
    | exact Nat.lt_trans (escape?_length _h) (by omega)

/-- Reads a text in single quotes on several lines. -/
def multilineLiteral (acc : List Char) : Reader (List Char)
  | [] => none
  | '\x27' :: '\x27' :: '\x27' :: rest => some (close '\x27' acc rest)
  | '\r' :: '\n' :: rest => multilineLiteral ('\n' :: acc) rest
  | c :: rest => if c = '\n' ∨ isPrintable c then multilineLiteral (c :: acc) rest else none

def line : Reader (List Char)
  | '"' :: cs => basic [] cs
  | '\x27' :: cs => literal [] cs
  | _ => none

def read : Reader (List Char)
  | '"' :: '"' :: '"' :: cs => multilineBasic false [] (dropLineEnd cs)
  | '\x27' :: '\x27' :: '\x27' :: cs => multilineLiteral [] (dropLineEnd cs)
  | cs => line cs

end Quoted

end Toml

end Marginalia
