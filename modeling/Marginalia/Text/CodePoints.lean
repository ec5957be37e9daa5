import Marginalia.Text.Ascii
import Marginalia.Text.Parts

/-!
# Tables of code points

A table is a row of runs of code points in order, none of which reaches into the next.  Each
code point of a run may have an image, a few other code points.

A table is written as runs with blanks or line ends between them, in hexadecimal numbers:

* `a` and `a-b` are runs without images;
* `a-b=i` gives each code point the image `i`;
* `a-b>i` gives `a` the image `i`, the next code point the next one, and so on;
* `a~b>i` does so for every second code point from `a` on;
* `a>i,j,k` gives `a` and the code points after it one image each.

An image is written as code points with dots between them.
-/

namespace Marginalia

namespace Text

namespace CodePoints

/-- A run of code points: every `step`-th one from `first` to `last`. -/
structure Run where
  first : Nat
  last : Nat
  step : Nat := 1
  /-- The image of the first code point. -/
  image : List Nat := []
  /-- Whether the image of another one is as much higher as that one is. -/
  moves : Bool := false
  deriving DecidableEq, Repr

namespace Run

/-- The image of a code point of a run. -/
def imageOf (run : Run) (n : Nat) : List Nat :=
  if run.moves then run.image.map (· + (n - run.first)) else run.image

def has (run : Run) (n : Nat) : Bool :=
  run.first ≤ n && n ≤ run.last && (n - run.first) % run.step == 0

end Run

/-! ## Reading -/

def number (cs : List Char) : Nat :=
  cs.foldl (fun n c => n * 16 + (hexValue? c).getD 0) 0

def readImage (cs : List Char) : List Nat :=
  if cs.isEmpty then [] else (partsAt '.' cs).map number

/-- The runs that one entry of a table stands for. -/
def readEntry (cs : List Char) : List Run :=
  let range := cs.takeWhile fun c => c != '=' && c != '>'
  let images := cs.drop (range.length + 1)
  let first := number (range.takeWhile isHexDigit)
  match range.dropWhile isHexDigit with
  | mark :: last =>
      [{ first
         last := number last
         step := if mark = '~' then 2 else 1
         image := readImage images
         moves := cs.contains '>' }]
  | [] =>
      (partsAt ',' images).zipIdx.map fun (image, i) =>
        { first := first + i, last := first + i, image := readImage image }

def read (text : String) : Array Run :=
  let entries := partsAt ' ' (text.toList.map fun c => if c = '\n' then ' ' else c)
  ((entries.filter (!·.isEmpty)).flatMap readEntry).toArray

/-! ## Looking up -/

/-- The run with a code point, of those from `low` on and before `high`. -/
def seek (runs : Array Run) (n low high : Nat) : Option Run :=
  if low < high then
    let middle := (low + high) / 2
    match runs[middle]? with
    | none => none
    | some run =>
        if n < run.first then seek runs n low middle
        else if run.last < n then seek runs n (middle + 1) high
        else if run.has n then some run
        else none
  else none
termination_by high - low

def find? (runs : Array Run) (n : Nat) : Option Run :=
  seek runs n 0 runs.size

def contains (runs : Array Run) (n : Nat) : Bool :=
  (find? runs n).isSome

end CodePoints

end Text

end Marginalia
