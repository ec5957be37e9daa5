import Marginalia.Record
import Marginalia.Text.Blank
import Marginalia.Text.Numeral

/-!
# Ranges of lines

A range of lines as it is typed: the first line, a colon and the last line, with blanks
around either number.  Lines are counted from one, and a range has at least one of them.
-/

namespace Marginalia

/-- A range of lines, both ends included. -/
structure LineRange where
  first : Nat
  last : Nat
  one_le_first : 1 ≤ first
  first_le_last : first ≤ last
  deriving DecidableEq, Repr

namespace LineRange

inductive Fault where
  | noColon (text : String)
  | invalidLine (text : String) (fault : Text.Numeral.Fault)
  /-- The range starts before the first line or ends before it starts. -/
  | invalidRange (text : String)
  deriving DecidableEq, Repr

def Fault.message : Fault → String
  | noColon text => "expected START:END, got `" ++ text ++ "`"
  | invalidLine text fault => "invalid line `" ++ text ++ "`: " ++ fault.message
  | invalidRange text => "invalid range `" ++ text ++ "`"

def parseLine (text : String) : Except Fault Nat :=
  match Text.Numeral.natural maxLine (Text.trim text) with
  | .ok n => .ok n
  | .error fault => .error (.invalidLine text fault)

def splitAtColon? (text : String) : Option (String × String) :=
  match text.toList.dropWhile (· != ':') with
  | [] => none
  | _ :: rest => some (String.ofList (text.toList.takeWhile (· != ':')), String.ofList rest)

def parse (text : String) : Except Fault LineRange :=
  match splitAtColon? text with
  | none => .error (.noColon text)
  | some (first, last) => do
      let first ← parseLine first
      let last ← parseLine last
      if h : 1 ≤ first ∧ first ≤ last then .ok ⟨first, last, h.1, h.2⟩
      else .error (.invalidRange text)

end LineRange

end Marginalia
