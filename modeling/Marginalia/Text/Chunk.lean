/-!
# Chunks of a text

A text is cut into slices of a fixed number of characters, counted as Unicode
scalar values; only the last slice may be shorter.  A cut may fall anywhere
between two characters: it is found by counting characters, and made at the byte of
the text in UTF-8 where a character begins or the text ends.
-/

namespace Marginalia

namespace Text

/-- The number of characters a chunk may hold, which is never zero. -/
structure Budget where
  chars : Nat
  pos : 0 < chars := by decide
  deriving DecidableEq

def Budget.ofNat? (n : Nat) : Option Budget :=
  if h : 0 < n then some ⟨n, h⟩ else none

/-- Ten thousand characters to a message. -/
def Budget.default : Budget := ⟨10000, by decide⟩

instance : Inhabited Budget := ⟨Budget.default⟩

/-! ## Bytes and characters -/

/-- How many bytes the characters take in UTF-8. -/
def utf8Length (cs : List Char) : Nat :=
  cs.foldl (fun n c => n + c.utf8Size) 0

theorem foldl_utf8Size (cs : List Char) (n : Nat) :
    cs.foldl (fun n c => n + c.utf8Size) n = n + utf8Length cs := by
  induction cs generalizing n with
  | nil => rfl
  | cons c cs ih =>
      rw [utf8Length, List.foldl_cons, List.foldl_cons, ih, ih (0 + c.utf8Size)]
      omega

theorem utf8Length_cons (c : Char) (cs : List Char) :
    utf8Length (c :: cs) = c.utf8Size + utf8Length cs := by
  rw [utf8Length, List.foldl_cons, foldl_utf8Size]
  omega

/-- The byte at which the `n`-th character begins, when the first begins at `start`. -/
def byteOf? (start : Nat) : Nat → List Char → Option Nat
  | _, [] => none
  | 0, _ :: _ => some start
  | n + 1, c :: cs => byteOf? (start + c.utf8Size) n cs

theorem byteOf?_eq (start n : Nat) (cs : List Char) :
    byteOf? start n cs =
      if n < cs.length then some (start + utf8Length (cs.take n)) else none := by
  induction cs generalizing start n with
  | nil => simp [byteOf?]
  | cons c cs ih =>
      cases n with
      | zero => simp [byteOf?, utf8Length]
      | succ n =>
          rw [byteOf?, ih, List.length_cons, List.take_succ_cons, utf8Length_cons]
          simp only [Nat.succ_lt_succ_iff, Nat.add_assoc]

/--
The characters in front of a byte, behind those given in reverse, and the ones from the byte
on; none when the byte is inside a character or beyond the text.
-/
def splitAtByte? (front : List Char) : Nat → List Char → Option (List Char × List Char)
  | 0, cs => some (front.reverse, cs)
  | _ + 1, [] => none
  | byte + 1, c :: cs =>
      if c.utf8Size ≤ byte + 1 then splitAtByte? (c :: front) (byte + 1 - c.utf8Size) cs
      else none

/-- The bytes of the first characters of a text end where the next character begins. -/
theorem splitAtByte?_append (front cs rest : List Char) :
    splitAtByte? front (utf8Length cs) (cs ++ rest) = some (front.reverse ++ cs, rest) := by
  induction cs generalizing front with
  | nil => simp [utf8Length, splitAtByte?]
  | cons c cs ih =>
      have hpos := c.utf8Size_pos
      have hbyte : utf8Length (c :: cs) = c.utf8Size - 1 + utf8Length cs + 1 := by
        rw [utf8Length_cons]
        omega
      have hleft : c.utf8Size - 1 + utf8Length cs + 1 - c.utf8Size = utf8Length cs := by omega
      rw [hbyte, List.cons_append, splitAtByte?, if_pos (by omega), hleft, ih]
      simp

/-! ## Slices -/

/-- What is left to be cut, and the size of the slices. -/
structure Chunks where
  rest : List Char
  budget : Budget

namespace Chunks

def ofString (s : String) (budget : Budget) : Chunks :=
  ⟨s.toList, budget⟩

/-- The byte at which the next slice ends: where the first character beyond it begins, if any. -/
def cut (c : Chunks) : Nat :=
  (byteOf? 0 c.budget.chars c.rest).getD (utf8Length c.rest)

/-- The cut has as many characters in front of it as the budget allows. -/
theorem splitAtByte?_cut (c : Chunks) :
    splitAtByte? [] c.cut c.rest =
      some (c.rest.take c.budget.chars, c.rest.drop c.budget.chars) := by
  have hcut : c.cut = utf8Length (c.rest.take c.budget.chars) := by
    rw [cut, byteOf?_eq]
    by_cases hmore : c.budget.chars < c.rest.length
    · rw [if_pos hmore, Option.getD_some, Nat.zero_add]
    · rw [if_neg hmore, Option.getD_none, List.take_of_length_le (by omega)]
  have hsplit := splitAtByte?_append [] (c.rest.take c.budget.chars) (c.rest.drop c.budget.chars)
  rw [List.take_append_drop] at hsplit
  rw [hcut]
  exact hsplit

theorem isSome_splitAtByte?_cut (c : Chunks) : (splitAtByte? [] c.cut c.rest).isSome = true := by
  rw [splitAtByte?_cut]
  rfl

/-- The next slice, and the chunks after it; nothing once the text is used up. -/
def next? (c : Chunks) : Option (List Char × Chunks) :=
  if c.rest.isEmpty then none
  else
    let (slice, rest) := (splitAtByte? [] c.cut c.rest).get c.isSome_splitAtByte?_cut
    some (slice, { c with rest })

theorem next?_of_nil {c : Chunks} (h : c.rest = []) : c.next? = none := by
  rw [next?, if_pos (List.isEmpty_iff.mpr h)]

theorem next?_of_ne_nil {c : Chunks} (h : c.rest ≠ []) :
    c.next? =
      some (c.rest.take c.budget.chars, { c with rest := c.rest.drop c.budget.chars }) := by
  have hrest : ¬ c.rest.isEmpty = true := fun hempty => h (List.isEmpty_iff.mp hempty)
  rw [next?, if_neg hrest]
  simp only [splitAtByte?_cut, Option.get_some]

theorem next?_rest_lt {c c' : Chunks} {slice : List Char} (h : c.next? = some (slice, c')) :
    c'.rest.length < c.rest.length := by
  by_cases hrest : c.rest = []
  · rw [next?_of_nil hrest] at h
    cases h
  · rw [next?_of_ne_nil hrest] at h
    cases h
    have hbudget := c.budget.pos
    have hlength := List.length_pos_iff.mpr hrest
    rw [List.length_drop]
    omega

def slices (c : Chunks) : List (List Char) :=
  match _h : c.next? with
  | none => []
  | some (slice, c') => slice :: c'.slices
termination_by c.rest.length
decreasing_by exact next?_rest_lt _h

def toList (c : Chunks) : List String :=
  c.slices.map String.ofList

/-- The chunks left after asking for the next one `n` times. -/
def skip (c : Chunks) : Nat → Chunks
  | 0 => c
  | n + 1 =>
      match c.next? with
      | none => c
      | some (_, c') => c'.skip n

/--
Bounds on the number of chunks still to come.  The upper one counts bytes, of
which a text has at least as many as characters.
-/
def sizeHint (c : Chunks) : Nat × Nat :=
  match c.rest with
  | [] => (0, 0)
  | rest => (1, (utf8Length rest + (c.budget.chars - 1)) / c.budget.chars)

end Chunks

def chunk (s : String) (budget : Budget) : List String :=
  (Chunks.ofString s budget).toList

end Text

end Marginalia
