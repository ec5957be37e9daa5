import Marginalia.Text.Ascii
import Marginalia.Text.Parts
import Marginalia.Toml.Basic

/-!
# Literals

Values that are written as a bare word: integers in four number systems, numbers with a
fraction or an exponent, truth values, and dates and times.  Digits may have single
underscores between them.
-/

namespace Marginalia

namespace Toml

namespace Literal

/-- Whether a text is digits with at most one underscore between two of them. -/
def isDigitRun (isDigit : Char → Bool) (cs : List Char) : Bool :=
  (Text.partsAt '_' cs).all fun part => !part.isEmpty && part.all isDigit

def plain (cs : List Char) : List Char :=
  cs.filter (· != '_')

def splitSign : List Char → Bool × List Char
  | '-' :: cs => (true, cs)
  | '+' :: cs => (false, cs)
  | cs => (false, cs)

/-- Whether a text is a decimal number without a sign and without needless zeros in front. -/
def isDecimal (cs : List Char) : Bool :=
  match cs with
  | [c] => Text.isDigit c
  | c :: _ => c != '0' && isDigitRun Text.isDigit cs
  | [] => false

/-! ## Integers -/

/-- The greatest integer: that of sixty-four binary digits, one of them for the sign. -/
def maxInteger : Nat := 9223372036854775807

def digitsValue (base : Nat) (cs : List Char) : Nat :=
  cs.foldl (fun n c => n * base + (Text.hexValue? c).getD 0) 0

/-- An integer in a number system that has a mark of its own. -/
def markedInteger? (base : Nat) (cs : List Char) : Option Int :=
  let isDigit (c : Char) : Bool :=
    match Text.hexValue? c with
    | some d => d < base
    | none => false
  let n := digitsValue base (plain cs)
  if isDigitRun isDigit cs ∧ n ≤ maxInteger then some n else none

def decimalInteger? (cs : List Char) : Option Int :=
  let (isNegative, digits) := splitSign cs
  let n := Text.decimalValue (plain digits)
  if isDecimal digits then
    if isNegative then (if n ≤ maxInteger + 1 then some (-n) else none)
    else if n ≤ maxInteger then some n
    else none
  else none

def integer? : List Char → Option Int
  | '0' :: 'x' :: cs => markedInteger? 16 cs
  | '0' :: 'o' :: cs => markedInteger? 8 cs
  | '0' :: 'b' :: cs => markedInteger? 2 cs
  | cs => decimalInteger? cs

/-! ## Numbers with a fraction or an exponent -/

structure Scientific where
  isNegative : Bool
  whole : List Char
  fraction : List Char := []
  exponent : List Char := []

/-- Digits and underscores at the start of a text, and the rest. -/
def spanDigits (cs : List Char) : List Char × List Char :=
  cs.span fun c => Text.isDigit c || c == '_'

def exponent? : List Char → Option (List Char)
  | c :: cs =>
      if (c == 'e' || c == 'E') && isDigitRun Text.isDigit (splitSign cs).2 then some cs else none
  | [] => none

def scientific? (cs : List Char) : Option Scientific :=
  let (isNegative, cs) := splitSign cs
  let (whole, rest) := spanDigits cs
  if isDecimal whole then
    match rest with
    | '.' :: rest =>
        let (fraction, rest) := spanDigits rest
        if isDigitRun Text.isDigit fraction then
          match rest with
          | [] => some { isNegative, whole, fraction }
          | rest => (exponent? rest).map fun exponent => { isNegative, whole, fraction, exponent }
        else none
    | rest => (exponent? rest).map fun exponent => { isNegative, whole, exponent }
  else none

/-- The power of ten that the last digit stands for. -/
def Scientific.scale (s : Scientific) : Int :=
  let (isNegative, digits) := splitSign s.exponent
  let n : Int := Text.decimalValue (plain digits)
  (if isNegative then -n else n) - (plain s.fraction).length

/--
Whether a number is too great: at least halfway from the greatest floating-point number to
the next power of two.  The count of digits decides unless it is close to that of the bound.
-/
def Scientific.isTooGreat (s : Scientific) : Bool :=
  let digits := (plain (s.whole ++ s.fraction)).dropWhile (· == '0')
  let size := (digits.length : Int) + s.scale
  let bound := Nat.pow 2 1024 - Nat.pow 2 970
  let mantissa := Text.decimalValue digits
  if s.isNegative ∨ digits.isEmpty ∨ size < 308 then false
  else if size > 310 then true
  else if s.scale ≥ 0 then mantissa * Nat.pow 10 s.scale.toNat ≥ bound
  else mantissa ≥ bound * Nat.pow 10 (-s.scale).toNat

/-- Whether a word is a number with a fraction or an exponent, or one of the two special words. -/
def isFloat (cs : List Char) : Bool :=
  let word := (splitSign cs).2
  word == ['i', 'n', 'f'] || word == ['n', 'a', 'n'] ||
    match scientific? cs with
    | some s => !s.isTooGreat
    | none => false

/-! ## Dates and times -/

/-- A number of exactly the given count of digits at the start of a text, within bounds. -/
def fixed? (count low high : Nat) (cs : List Char) : Option (Nat × List Char) :=
  let digits := cs.take count
  let n := Text.decimalValue digits
  if digits.length = count ∧ digits.all Text.isDigit ∧ low ≤ n ∧ n ≤ high then
    some (n, cs.drop count)
  else none

def daysIn (year month : Nat) : Nat :=
  if month = 2 then
    if year % 4 = 0 ∧ (year % 100 ≠ 0 ∨ year % 400 = 0) then 29 else 28
  else if [4, 6, 9, 11].contains month then 30
  else 31

def afterDate? (cs : List Char) : Option (List Char) := do
  let (year, cs) ← fixed? 4 0 9999 cs
  let '-' :: cs := cs | none
  let (month, cs) ← fixed? 2 1 12 cs
  let '-' :: cs := cs | none
  let (_, cs) ← fixed? 2 1 (daysIn year month) cs
  some cs

def afterTime? (cs : List Char) : Option (List Char) := do
  let (_, cs) ← fixed? 2 0 23 cs
  let ':' :: cs := cs | none
  let (_, cs) ← fixed? 2 0 59 cs
  let ':' :: cs := cs | none
  let (_, cs) ← fixed? 2 0 60 cs
  match cs with
  | '.' :: c :: rest => if Text.isDigit c then some (rest.dropWhile Text.isDigit) else none
  | cs => some cs

/-- Whether a text is a difference from universal time, or nothing. -/
def isOffset : List Char → Bool
  | [] => true
  | ['Z'] => true
  | ['z'] => true
  | c :: cs =>
      if c == '+' || c == '-' then
        match fixed? 2 0 23 cs with
        | some (_, ':' :: cs) =>
            match fixed? 2 0 59 cs with
            | some (_, []) => true
            | _ => false
        | _ => false
      else false

/-- Whether a text is a time of day with or without an offset. -/
def isTimeWithOffset (cs : List Char) : Bool :=
  match afterTime? cs with
  | some rest => isOffset rest
  | none => false

def isDate (cs : List Char) : Bool :=
  afterDate? cs == some []

/-- Whether a word is a date, a time of day, or both with a letter between them. -/
def isMoment (cs : List Char) : Bool :=
  afterTime? cs == some [] ||
    match afterDate? cs with
    | some [] => true
    | some (c :: rest) => (c == 'T' || c == 't') && isTimeWithOffset rest
    | none => false

/-! ## Words -/

def isWordChar (c : Char) : Bool :=
  c.isAlphanum || ['+', '-', '_', '.', ':'].contains c

def ofWord? (cs : List Char) : Option Toml :=
  if cs = ['t', 'r', 'u', 'e'] then some (.boolean true)
  else if cs = ['f', 'a', 'l', 's', 'e'] then some (.boolean false)
  else if isMoment cs then some (.moment (String.ofList cs))
  else if isFloat cs then some (.float (String.ofList cs))
  else (integer? cs).map .integer

/-- Reads a value that is a word, or a date and a time with a blank between them. -/
def read : Reader Toml := fun cs =>
  let (word, rest) := cs.span isWordChar
  let joined : Option (Toml × List Char) :=
    match rest with
    | ' ' :: after =>
        let (time, rest) := after.span isWordChar
        if isDate word ∧ isTimeWithOffset time then
          some (.moment (String.ofList (word ++ ' ' :: time)), rest)
        else none
    | _ => none
  joined.or ((ofWord? word).map (·, rest))

end Literal

end Toml

end Marginalia
