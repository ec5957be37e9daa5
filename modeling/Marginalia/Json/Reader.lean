import Marginalia.Json.Basic
import Marginalia.Json.Fault

/-!
# Reading JSON

A reader takes characters and gives a value with the characters after it, or a
fault.  Containers may be nested to a fixed depth.  Beside the strict reading of
a value there is a lax one for values nobody looks at: it lets any hexadecimal
escape and any number pass.
-/

namespace Marginalia

namespace Json

abbrev Reader (α : Type) := List Char → Except Fault (α × List Char)

def maxDepth : Nat := 127

def isSpace (c : Char) : Bool :=
  c == ' ' || c == '\n' || c == '\t' || c == '\r'

def skipSpace (cs : List Char) : List Char :=
  cs.dropWhile isSpace

def faultAt {α : Type} (cause : Cause) (ahead : List Char) : Except Fault α :=
  .error ⟨cause, ahead, 1⟩

def faultAtEnd {α : Type} (cause : Cause) : Except Fault α :=
  .error ⟨cause, [], 0⟩

/-! ## Strings -/

inductive StringState where
  | plain
  | escape
  /-- Inside a hexadecimal escape: bytes taken, their value while all were digits, and the
  high half of a pair that came before. -/
  | hex (taken : Nat) (value : Option Nat) (high : Option Nat)
  /-- A high half has been read; a backslash has to follow. -/
  | lowBackslash (high : Nat)
  /-- A high half and a backslash have been read; a `u` has to follow. -/
  | lowMark (high : Nat)
  deriving DecidableEq, Repr

/-- The character that a one-letter escape stands for. -/
def simpleEscape? : Char → Option Char
  | '"' => some '"'
  | '\\' => some '\\'
  | '/' => some '/'
  | 'b' => some '\x08'
  | 'f' => some '\x0c'
  | 'n' => some '\n'
  | 'r' => some '\r'
  | 't' => some '\t'
  | _ => none

/-- What a completed hexadecimal escape leads to: a cause, a character, or a high half. -/
def closeHex (strict : Bool) (value : Nat) (high : Option Nat) :
    Except Cause (StringState × Option Char) :=
  if strict then
    match high with
    | some first =>
        if 0xDC00 ≤ value ∧ value ≤ 0xDFFF then
          .ok (.plain, some (Char.ofNat (0x10000 + (first - 0xD800) * 0x400 + (value - 0xDC00))))
        else .error .loneSurrogate
    | none =>
        if 0xDC00 ≤ value ∧ value ≤ 0xDFFF then .error .loneSurrogate
        else if 0xD800 ≤ value ∧ value ≤ 0xDBFF then .ok (.lowBackslash value, none)
        else .ok (.plain, some (Char.ofNat value))
  else .ok (.plain, none)

/--
The rest of a string whose opening quote has been read; `acc` holds the characters
read so far, the last one first.  A hexadecimal escape takes four bytes whatever
they are, and only then looks whether they are digits.
-/
def stringBody (strict : Bool) :
    StringState → List Char → List Char → Except Fault (String × List Char)
  | _, _, [] => faultAtEnd .endInString
  | .plain, acc, c :: rest =>
      if c = '"' then .ok (String.ofList acc.reverse, rest)
      else if c = '\\' then stringBody strict .escape acc rest
      else if c.toNat < 0x20 then faultAt .controlCharacter (c :: rest)
      else stringBody strict .plain (c :: acc) rest
  | .escape, acc, c :: rest =>
      if c = 'u' then stringBody strict (.hex 0 (some 0) none) acc rest
      else
        match simpleEscape? c with
        | some d => stringBody strict .plain (d :: acc) rest
        | none => faultAt .invalidEscape (c :: rest)
  | .hex taken value high, acc, c :: rest =>
      let value' := (value.bind fun v => (Text.hexValue? c).map (v * 16 + ·))
      if taken + c.utf8Size < 4 then
        stringBody strict (.hex (taken + c.utf8Size) value' high) acc rest
      else
        match value' with
        | none => .error ⟨.invalidEscape, c :: rest, 4 - taken⟩
        | some v =>
            match closeHex strict v high with
            | .error cause => faultAt cause (c :: rest)
            | .ok (state, some d) => stringBody strict state (d :: acc) rest
            | .ok (state, none) => stringBody strict state acc rest
  | .lowBackslash high, acc, c :: rest =>
      if c = '\\' then stringBody strict (.lowMark high) acc rest
      else faultAt .endOfHexEscape (c :: rest)
  | .lowMark high, acc, c :: rest =>
      if c = 'u' then stringBody strict (.hex 0 (some 0) (some high)) acc rest
      else faultAt .endOfHexEscape (c :: rest)

/-! ## Numbers -/

/-- The greatest number held exactly while digits are read: that of sixty-four binary digits. -/
def maxSignificand : Nat := 18446744073709551615

/-- Adds digits to a number until it would outgrow `maxSignificand`; counts those left over. -/
def absorbDigits (n : Nat) : List Char → Nat × Nat
  | [] => (n, 0)
  | c :: rest =>
      let n' := n * 10 + (c.toNat - 48)
      if n' ≤ maxSignificand then absorbDigits n' rest else (n, rest.length + 1)

def roundTo53 (n : Nat) : Nat :=
  let shift := n.log2 + 1 - 53
  let unit := Nat.pow 2 shift
  let low := n % unit
  let floor := n / unit
  if 2 * low < unit ∨ (2 * low = unit ∧ floor % 2 = 0) ∨ shift = 0 then floor * unit
  else (floor + 1) * unit

/--
Whether a significand times a power of ten is beyond the doubles, when both factors
are rounded to doubles first and their product is rounded after.
-/
def isOutOfRange (significand : Nat) (exponent : Int) : Bool :=
  if significand = 0 ∨ exponent < 0 then false
  else
    let e := exponent.toNat
    if e > 308 then true
    else roundTo53 significand * roundTo53 (Nat.pow 10 e) ≥ Nat.pow 2 1024 - Nat.pow 2 970

def maxExponent : Nat := 2147483647

/-- How many digits it takes for an exponent to outgrow `maxExponent`, if it does. -/
def overlongAt? (n : Nat) (index : Nat) : List Char → Option Nat
  | [] => none
  | c :: rest =>
      let n' := n * 10 + (c.toNat - 48)
      if n' > maxExponent then some (index + 1) else overlongAt? n' (index + 1) rest

structure Literal where
  isNegative : Bool
  whole : List Char
  fraction : Option (List Char)
  /-- The sign of the exponent, whether it is negative, and its digits. -/
  exponent : Option (Option Char × Bool × List Char)
  deriving Repr

namespace Literal

def spelling (l : Literal) : String :=
  String.ofList <|
    (if l.isNegative then ['-'] else []) ++ l.whole ++
    (match l.fraction with
      | some ds => '.' :: ds
      | none => []) ++
    (match l.exponent with
      | some (sign, _, ds) => 'e' :: (sign.toList ++ ds)
      | none => [])

/-- Significand and power of ten of a literal, from the digits that can be held exactly. -/
def scaled (l : Literal) : Nat × Int :=
  let (n, left) := absorbDigits 0 l.whole
  let digits := l.fraction.getD []
  let (m, dropped) := absorbDigits n digits
  let power := (left : Int) - ((digits.length - dropped : Nat) : Int)
  match l.exponent with
  | none => (m, power)
  | some (_, negative, ds) =>
      let e := (Text.decimalValue ds : Int)
      (m, if negative then power - e else power + e)

/-- The furthest below zero that an integer goes. -/
def maxNegative : Nat := 9223372036854775808

def number? (l : Literal) : Option Number :=
  let (n, left) := absorbDigits 0 l.whole
  if l.fraction.isNone ∧ l.exponent.isNone ∧ left = 0 then
    if !l.isNegative then some (.natural n)
    else if 0 < n ∧ n ≤ maxNegative then some (.negative n)
    else some (.float l.spelling)
  else
    let (m, e) := l.scaled
    if isOutOfRange m e then none else some (.float l.spelling)

end Literal

def numberEnd (strict : Bool) : Cause :=
  if strict then .endInValue else .invalidNumber

def exponentDigits (strict : Bool) (sign : Option Char) :
    Reader (Option Char × Bool × List Char) := fun cs =>
  match cs with
  | [] => faultAtEnd (numberEnd strict)
  | c :: _ =>
      if Text.isDigit c then
        let (digits, rest) := cs.span Text.isDigit
        .ok ((sign, sign == some '-', digits), rest)
      else faultAt .invalidNumber cs

def exponentPart (strict : Bool) : Reader (Option Char × Bool × List Char) := fun cs =>
  match cs with
  | '+' :: rest => exponentDigits strict (some '+') rest
  | '-' :: rest => exponentDigits strict (some '-') rest
  | _ => exponentDigits strict none cs

def optionalExponent (strict : Bool) (cs : List Char) :
    Except Fault (Option (Option Char × Bool × List Char) × List Char) :=
  match cs with
  | c :: rest =>
      if c = 'e' ∨ c = 'E' then do
        let (exponent, rest) ← exponentPart strict rest
        return (some exponent, rest)
      else .ok (none, cs)
  | [] => .ok (none, [])

def optionalFraction (strict : Bool) (cs : List Char) :
    Except Fault (Option (List Char) × List Char) :=
  match cs with
  | '.' :: rest =>
      match rest.span Text.isDigit with
      | ([], []) => faultAtEnd (numberEnd strict)
      | ([], after) => faultAt .invalidNumber after
      | (digits, after) => .ok (some digits, after)
  | _ => .ok (none, cs)

/-- The whole part of a number: zero alone, or digits that do not start with zero. -/
def wholePart (strict : Bool) (cs : List Char) : Except Fault (List Char × List Char) :=
  match cs with
  | [] => faultAtEnd (numberEnd strict)
  | '0' :: rest =>
      match rest with
      | c :: _ => if Text.isDigit c then faultAt .invalidNumber rest else .ok (['0'], rest)
      | [] => .ok (['0'], [])
  | c :: _ => if Text.isDigit c then .ok (cs.span Text.isDigit) else faultAt .invalidNumber cs

/--
The number of a literal.  The lax reading takes any; the strict one refuses what is
beyond the doubles, among it an exponent that outgrows its bound.
-/
def Literal.value? (strict : Bool) (l : Literal) : Option Number :=
  if !strict then some (.float l.spelling)
  else
    match l.exponent with
    | some (_, negative, digits) =>
        match overlongAt? 0 0 digits with
        | some _ => if l.scaled.1 ≠ 0 ∧ !negative then none else some (.float l.spelling)
        | none => l.number?
    | none => l.number?

/--
What is ahead where a literal is refused: an exponent with more than ten digits of weight
ends the reading where it outgrows its bound.
-/
def Literal.refusedAt (l : Literal) (beforeExponent rest : List Char) : List Char :=
  match l.exponent with
  | some (sign, _, digits) =>
      match overlongAt? 0 0 digits with
      | some count => beforeExponent.drop (1 + sign.toList.length + count)
      | none => rest
  | none => rest

/-- A number whose minus sign, if it has one, has been read. -/
def numberBody (strict : Bool) (isNegative : Bool) : Reader Number := fun cs => do
  let (whole, cs) ← wholePart strict cs
  let (fraction, cs) ← optionalFraction strict cs
  let (exponent, rest) ← optionalExponent strict cs
  let literal : Literal := ⟨isNegative, whole, fraction, exponent⟩
  match literal.value? strict with
  | some n => return (n, rest)
  | none => .error ⟨.numberOutOfRange, literal.refusedAt cs rest, 0⟩

/-! ## Words -/

def wordBody {α : Type} (value : α) : List Char → Reader α
  | [], cs => .ok (value, cs)
  | _ :: _, [] => faultAtEnd .endInValue
  | e :: es, c :: cs => if c = e then wordBody value es cs else faultAt .expectedWord (c :: cs)

/-! ## Containers -/

/-- What stands ahead inside a list: its end, with the characters after it, or an item. -/
inductive Ahead where
  | closed (rest : List Char)
  | item (cs : List Char)

/-- Looks past the comma between two items, or at the closing bracket. -/
def nextItem (isFirst : Bool) (cs : List Char) : Except Fault Ahead :=
  match skipSpace cs with
  | [] => faultAtEnd .endInList
  | c :: rest =>
      if c = ']' then .ok (.closed rest)
      else if isFirst then .ok (.item (c :: rest))
      else if c = ',' then
        match skipSpace rest with
        | [] => faultAtEnd .endInValue
        | d :: after =>
            if d = ']' then faultAt .trailingComma (d :: after) else .ok (.item (d :: after))
      else faultAt .expectedListCommaOrEnd (c :: rest)

/--
The items of a list whose opening bracket has been read, each taken in by `item`.
`fuel` bounds the number of items; the length of the text is always enough.
-/
def foldItems {σ : Type} (item : σ → Reader σ) : Nat → Bool → σ → Reader σ
  | 0, _, _, _ => faultAtEnd .endInList
  | fuel + 1, isFirst, acc, cs => do
      match ← nextItem isFirst cs with
      | .closed rest => return (acc, rest)
      | .item cs =>
          let (acc, rest) ← item acc cs
          foldItems item fuel false acc rest

def colon (cs : List Char) : Except Fault (List Char) :=
  match skipSpace cs with
  | [] => faultAtEnd .endInObject
  | c :: rest => if c = ':' then .ok rest else faultAt .expectedColon (c :: rest)

def key (strict : Bool) : Reader String := fun cs =>
  match cs with
  | [] => faultAtEnd .endInValue
  | c :: rest =>
      if c = '"' then stringBody strict .plain [] rest
      else if c = '\x7d' then faultAt .trailingComma cs
      else faultAt .keyMustBeString cs

/-- The value of a key, from the colon on. -/
def keyed {α : Type} (value : Reader α) : Reader α := fun cs => do
  value (← colon cs)

/--
The members of an object whose opening brace has been read; `member` takes in a key
and reads on from the colon.  `fuel` bounds the number of members.
-/
def foldMembers {σ : Type} (strictKeys : Bool) (member : σ → String → Reader σ) :
    Nat → Bool → σ → Reader σ
  | 0, _, _, _ => faultAtEnd .endInObject
  | fuel + 1, isFirst, acc, cs =>
      match skipSpace cs with
      | [] => faultAtEnd .endInObject
      | c :: rest =>
          if c = '\x7d' then .ok (acc, rest)
          else if isFirst then do
            let (name, rest) ← key strictKeys (c :: rest)
            let (acc, rest) ← member acc name rest
            foldMembers strictKeys member fuel false acc rest
          else if c = ',' then do
            let (name, rest) ← key strictKeys (skipSpace rest)
            let (acc, rest) ← member acc name rest
            foldMembers strictKeys member fuel false acc rest
          else faultAt .expectedObjectCommaOrEnd (c :: rest)

/-! ## Values -/

def item (nested : Reader Json) (acc : List Json) : Reader (List Json) := fun cs => do
  let (v, rest) ← nested cs
  return (v :: acc, rest)

/-- One member of an object from its colon on, put in front of those read before it. -/
def member (nested : Reader Json) (acc : List (String × Json)) (name : String) :
    Reader (List (String × Json)) := fun cs => do
  let (v, rest) ← keyed nested cs
  return ((name, v) :: acc, rest)

/-- A value whose containers hold values read by `nested`; without it none may open. -/
def valueWith (strict : Bool) (fuel : Nat) (nested : Option (Reader Json)) : Reader Json :=
  fun cs =>
    match skipSpace cs with
    | [] => faultAtEnd .endInValue
    | c :: rest =>
        if c = 'n' then wordBody .null ['u', 'l', 'l'] rest
        else if c = 't' then wordBody (.bool true) ['r', 'u', 'e'] rest
        else if c = 'f' then wordBody (.bool false) ['a', 'l', 's', 'e'] rest
        else if c = '-' then do
          let (n, rest) ← numberBody strict true rest
          return (.number n, rest)
        else if Text.isDigit c then do
          let (n, rest) ← numberBody strict false (c :: rest)
          return (.number n, rest)
        else if c = '"' then do
          let (s, rest) ← stringBody strict .plain [] rest
          return (.string s, rest)
        else if c = '[' then
          match nested with
          | none => faultAt .tooDeep (c :: rest)
          | some nested => do
              let (items, rest) ← foldItems (item nested) fuel true [] rest
              return (.array items.reverse, rest)
        else if c = '\x7b' then
          match nested with
          | none => faultAt .tooDeep (c :: rest)
          | some nested => do
              let (members, rest) ← foldMembers strict (member nested) fuel true [] rest
              return (.object members.reverse, rest)
        else faultAt .expectedValue (c :: rest)

def value (strict : Bool) (fuel : Nat) : Nat → Reader Json
  | 0 => valueWith strict fuel none
  | depth + 1 => valueWith strict fuel (some (value strict fuel depth))

def fuelFor (cs : List Char) : Nat :=
  cs.length + 1

def firstValue : Reader Json := fun cs =>
  value true (fuelFor cs) maxDepth cs

def ended {α : Type} (result : α × List Char) : Except Fault α :=
  match skipSpace result.2 with
  | [] => .ok result.1
  | rest => faultAt .trailingCharacters rest

def parseChars (cs : List Char) : Except Fault Json :=
  firstValue cs >>= ended

end Json

end Marginalia
