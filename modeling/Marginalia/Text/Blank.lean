/-!
# Blank characters

The characters with the Unicode property White_Space, and what trimming and
blankness mean with respect to them.
-/

namespace Marginalia

namespace Text

/-- Whether a character has the Unicode property White_Space. -/
def isBlank (c : Char) : Bool :=
  let n := c.toNat
  (9 ≤ n && n ≤ 13) || n == 0x20 || n == 0x85 || n == 0xA0 || n == 0x1680 ||
    (0x2000 ≤ n && n ≤ 0x200A) || n == 0x2028 || n == 0x2029 || n == 0x202F ||
    n == 0x205F || n == 0x3000

def dropBlankStart (cs : List Char) : List Char :=
  cs.dropWhile isBlank

def dropBlankEnd (cs : List Char) : List Char :=
  (cs.reverse.dropWhile isBlank).reverse

def trim (s : String) : String :=
  String.ofList (dropBlankEnd (dropBlankStart s.toList))

def trimEnd (s : String) : String :=
  String.ofList (dropBlankEnd s.toList)

/-- Whether every character of a text is blank; so is the empty text. -/
def isBlankText (s : String) : Bool :=
  s.toList.all isBlank

theorem isBlankText_empty : isBlankText "" = true := rfl

end Text

end Marginalia
