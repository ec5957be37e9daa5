import Marginalia.Text.Ascii

/-!
# Decimal numerals

Whole numbers as a person types them: digits, with a sign in front if need be.  A numeral is
read from its start, and the first character with which it can no longer be read decides
what is wrong with it.
-/

namespace Marginalia

namespace Text

namespace Numeral

inductive Fault where
  | empty
  | invalidDigit
  | tooLarge
  | tooSmall
  deriving DecidableEq, Repr

def Fault.message : Fault → String
  | empty => "cannot parse integer from empty string"
  | invalidDigit => "invalid digit found in string"
  | tooLarge => "number too large to fit in target type"
  | tooSmall => "number too small to fit in target type"

/-- Reads digits behind those that make `n`; the number must not pass the limit. -/
def readDigits (limit : Nat) (passed : Fault) (n : Nat) : List Char → Except Fault Nat
  | [] => .ok n
  | c :: cs =>
      if !isDigit c then .error .invalidDigit
      else
        let n := n * 10 + decimalValue [c]
        if limit < n then .error passed else readDigits limit passed n cs

def readMagnitude (limit : Nat) (passed : Fault) (cs : List Char) : Except Fault Nat :=
  if cs.isEmpty then .error .invalidDigit else readDigits limit passed 0 cs

/-- A number from zero to the limit; a plus sign may stand in front of it. -/
def natural (limit : Nat) (text : String) : Except Fault Nat :=
  match text.toList with
  | [] => .error .empty
  | '+' :: cs => readMagnitude limit .tooLarge cs
  | cs => readMagnitude limit .tooLarge cs

/-- A number from `-bound` to `bound - 1`; a sign may stand in front of it. -/
def integer (bound : Nat) (text : String) : Except Fault Int :=
  match text.toList with
  | [] => .error .empty
  | '-' :: cs => (readMagnitude bound .tooSmall cs).map fun n => -(n : Int)
  | '+' :: cs => (readMagnitude (bound - 1) .tooLarge cs).map Int.ofNat
  | cs => (readMagnitude (bound - 1) .tooLarge cs).map Int.ofNat

end Numeral

end Text

end Marginalia
