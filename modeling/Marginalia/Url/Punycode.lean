/-!
# Punycode

A label with characters beyond ASCII written with letters, digits and hyphens: its ASCII
characters first, then the others as differences between code points in the order of
their size, in a number system whose bias adapts to what has been written.
-/

namespace Marginalia

namespace Url

namespace Punycode

/-- The digit for a value below thirty-six: letters first. -/
def digit (n : Nat) : Char :=
  if n < 26 then Char.ofNat (97 + n) else Char.ofNat (22 + n)

def digitValue? (c : Char) : Option Nat :=
  if 'a' ≤ c ∧ c ≤ 'z' then some (c.toNat - 97)
  else if 'A' ≤ c ∧ c ≤ 'Z' then some (c.toNat - 65)
  else if '0' ≤ c ∧ c ≤ '9' then some (c.toNat - 22)
  else none

/-- The least value that ends a number at a position. -/
def threshold (position bias : Nat) : Nat :=
  if position ≤ bias then 1 else if position ≥ bias + 26 then 26 else position - bias

/-- Divides until a difference is small; gives the position reached and what is left. -/
def reduce : Nat → Nat → Nat → Nat × Nat
  | 0, position, delta => (position, delta)
  | fuel + 1, position, delta =>
      if delta > 455 then reduce fuel (position + 36) (delta / 35) else (position, delta)

/-- The bias after a difference has been written as one of `count` characters. -/
def adapt (delta count : Nat) (isFirst : Bool) : Nat :=
  let delta := if isFirst then delta / 700 else delta / 2
  let delta := delta + delta / count
  let (position, delta) := reduce delta 0 delta
  position + 36 * delta / (delta + 38)

def number : Nat → Nat → Nat → Nat → List Char
  | 0, _, _, q => [digit q]
  | fuel + 1, bias, position, q =>
      let t := threshold position bias
      if q < t then [digit q]
      else
        digit (t + (q - t) % (36 - t)) :: number fuel bias (position + 36) ((q - t) / (36 - t))

/-- What has been written of a label, and the numbers that the next difference depends on. -/
structure Writing where
  output : List Char
  delta : Nat
  bias : Nat
  handled : Nat

/-- Writes the characters with one code point; smaller ones count towards the difference. -/
def writeLevel (basic level : Nat) (w : Writing) (c : Char) : Writing :=
  let n := c.toNat
  if n < level then { w with delta := w.delta + 1 }
  else if n = level then
    { output := w.output ++ number (w.delta + 1) w.bias 36 w.delta
      delta := 0
      bias := adapt w.delta (w.handled + 1) (w.handled = basic)
      handled := w.handled + 1 }
  else w

/-- Writes the code points in `levels`, which are in order; `current` is the next possible one. -/
def writeLevels (cs : List Char) (basic : Nat) : List Nat → Nat → Writing → Writing
  | [], _, w => w
  | level :: levels, current, w =>
      let w := { w with delta := w.delta + (level - current) * (w.handled + 1) }
      let w := cs.foldl (writeLevel basic level) w
      writeLevels cs basic levels (level + 1) { w with delta := w.delta + 1 }

/-- The code points beyond ASCII, in order and each once. -/
def levelsOf (cs : List Char) : List Nat :=
  ((cs.map Char.toNat).filter (· ≥ 128)).mergeSort.eraseReps

def encode (cs : List Char) : List Char :=
  let basic := cs.filter fun c => c.toNat < 128
  let start := if basic.isEmpty then [] else basic ++ ['-']
  (writeLevels cs basic.length (levelsOf cs) 128 ⟨start, 0, 72, basic.length⟩).output

/-- Reads one difference: its value and the digits after it. -/
def readNumber (bias : Nat) : Nat → Nat → Nat → List Char → Option (Nat × List Char)
  | _, _, _, [] => none
  | position, weight, i, c :: cs => do
      let d ← digitValue? c
      let i := i + d * weight
      let t := threshold position bias
      if d < t then some (i, cs) else readNumber bias (position + 36) (weight * (36 - t)) i cs

/-- Reads differences and puts the characters in their places. -/
def readAll : Nat → Nat → Nat → Nat → List Char → List Char → Option (List Char)
  | _, _, _, _, output, [] => some output
  | 0, _, _, _, _, _ :: _ => none
  | fuel + 1, n, i, bias, output, digits => do
      let (i', digits) ← readNumber bias 36 1 i digits
      let count := output.length + 1
      let n := n + i' / count
      let place := i' % count
      if n > 0x10FFFF ∨ (0xD800 ≤ n ∧ n ≤ 0xDFFF) then none
      else
        let output := output.take place ++ Char.ofNat n :: output.drop place
        readAll fuel n (place + 1) (adapt (i' - i) count (i = 0)) output digits

/-- Reads a label in Punycode.  A hyphen in front of the first difference follows some letters. -/
def decode? (cs : List Char) : Option (List Char) :=
  let reversed := cs.reverse
  match reversed.dropWhile (· != '-') with
  | [] => readAll cs.length 128 0 72 [] cs
  | [_] => none
  | _ :: basic =>
      let digits := (reversed.takeWhile (· != '-')).reverse
      readAll cs.length 128 0 72 basic.reverse digits

end Punycode

end Url

end Marginalia
