import Marginalia.Proofs.Text.Chunks

/-!
# How many chunks are still to come

A reader is told bounds on the number of chunks that are left.  The upper one is counted in
bytes and the chunks are counted in characters, of which each takes one to four bytes.  With
every chunk that is taken off, at least as many bytes go as the budget allows characters, or
all that are left, so the upper bound falls.
-/

namespace Marginalia

namespace Text

/-! ## Bytes of characters -/

theorem utf8Length_append (cs ds : List Char) :
    utf8Length (cs ++ ds) = utf8Length cs + utf8Length ds := by
  rw [utf8Length, List.foldl_append, foldl_utf8Size]
  rfl

theorem length_le_utf8Length (cs : List Char) : cs.length ≤ utf8Length cs := by
  induction cs with
  | nil => exact Nat.le_refl 0
  | cons c cs ih =>
      have hpos := c.utf8Size_pos
      rw [List.length_cons, utf8Length_cons]
      omega

theorem utf8Length_le (cs : List Char) : utf8Length cs ≤ 4 * cs.length := by
  induction cs with
  | nil => exact Nat.le_refl 0
  | cons c cs ih =>
      have hsize := c.utf8Size_le_four
      rw [List.length_cons, utf8Length_cons]
      omega

namespace Chunks

variable {c c' : Chunks} {slice : List Char}

/-! ## The bounds as numbers -/

theorem length_toList (c : Chunks) :
    c.toList.length = (c.rest.length + (c.budget.chars - 1)) / c.budget.chars :=
  c.decomposes.length_eq c.budget.pos

/-- The lower bound tells whether there is another chunk. -/
theorem sizeHint_fst (c : Chunks) : c.sizeHint.1 = min 1 c.toList.length := by
  cases hrest : c.rest with
  | nil =>
      rw [toList_of_nil hrest, sizeHint, hrest]
      rfl
  | cons first others =>
      have hne : c.rest ≠ [] := by simp [hrest]
      rw [toList_of_ne_nil hne, List.length_cons, sizeHint, hrest]
      dsimp only
      omega

/-- The upper bound is the number of bytes divided by the budget, rounded up. -/
theorem sizeHint_snd (c : Chunks) :
    c.sizeHint.2 = (utf8Length c.rest + (c.budget.chars - 1)) / c.budget.chars := by
  have hbudget := c.budget.pos
  cases hrest : c.rest with
  | nil =>
      have hzero : utf8Length [] + (c.budget.chars - 1) < c.budget.chars := by
        show 0 + (c.budget.chars - 1) < c.budget.chars
        omega
      rw [Nat.div_eq_of_lt hzero, sizeHint, hrest]
  | cons first others => rw [sizeHint, hrest]

theorem length_le_sizeHint (c : Chunks) : c.toList.length ≤ c.sizeHint.2 := by
  have hbytes := length_le_utf8Length c.rest
  rw [length_toList, sizeHint_snd]
  exact Nat.div_le_div_right (by omega)

theorem sizeHint_le_length (c : Chunks) : c.sizeHint.2 ≤ 4 * c.toList.length := by
  have hbudget := c.budget.pos
  have hbytes := utf8Length_le c.rest
  have hchars : c.rest.length ≤ c.budget.chars * c.toList.length := by
    have hround := Nat.lt_mul_div_succ (c.rest.length + (c.budget.chars - 1)) hbudget
    rw [← length_toList, Nat.mul_succ] at hround
    omega
  rw [sizeHint_snd]
  apply Nat.le_of_lt_succ
  rw [Nat.div_lt_iff_lt_mul hbudget]
  calc utf8Length c.rest + (c.budget.chars - 1)
      < 4 * (c.budget.chars * c.toList.length) + c.budget.chars := by omega
    _ = (4 * c.toList.length + 1) * c.budget.chars := by
        rw [Nat.add_mul, Nat.one_mul, Nat.mul_assoc, Nat.mul_comm c.toList.length]

/-! ## The upper bound along the iteration -/

/-- Every chunk that is taken off lowers the upper bound. -/
theorem sizeHint_next? (h : c.next? = some (slice, c')) : c'.sizeHint.2 < c.sizeHint.2 := by
  by_cases hrest : c.rest = []
  · rw [next?_of_nil hrest] at h
    cases h
  · rw [next?_of_ne_nil hrest] at h
    cases h
    have hbudget := c.budget.pos
    have hbytes := utf8Length_append (c.rest.take c.budget.chars) (c.rest.drop c.budget.chars)
    rw [List.take_append_drop] at hbytes
    by_cases hmore : c.rest.drop c.budget.chars = []
    · -- The last chunk: nothing is left, and something was.
      have hone := List.length_pos_iff.mpr hrest
      have hall := length_le_utf8Length c.rest
      rw [sizeHint, hmore, sizeHint_snd]
      exact Nat.div_pos (by omega) hbudget
    · -- A whole chunk has as many characters as the budget allows, and no fewer bytes.
      have hslice := length_le_utf8Length (c.rest.take c.budget.chars)
      have hleft := List.length_pos_iff.mpr hmore
      rw [List.length_drop] at hleft
      rw [List.length_take_of_le (by omega)] at hslice
      rw [sizeHint_snd, sizeHint_snd]
      dsimp only
      rw [← Nat.succ_le_iff, Nat.succ_eq_add_one, ← Nat.add_div_right _ hbudget]
      exact Nat.div_le_div_right (by omega)

theorem skip_of_next?_eq_none (h : c.next? = none) (n : Nat) : c.skip n = c := by
  cases n with
  | zero => rfl
  | succ n => rw [skip, h]

theorem skip_add (c : Chunks) (n m : Nat) : c.skip (n + m) = (c.skip n).skip m := by
  induction n generalizing c with
  | zero => rw [Nat.zero_add, skip]
  | succ n ih =>
      rw [Nat.succ_add, skip, skip]
      cases hnext : c.next? with
      | none => exact (skip_of_next?_eq_none hnext m).symm
      | some next => exact ih next.2

theorem sizeHint_skip_le (c : Chunks) (n : Nat) : (c.skip n).sizeHint.2 ≤ c.sizeHint.2 := by
  induction n generalizing c with
  | zero => exact Nat.le_refl _
  | succ n ih =>
      rw [skip]
      cases hnext : c.next? with
      | none => exact Nat.le_refl _
      | some next => exact Nat.le_trans (ih next.2) (Nat.le_of_lt (sizeHint_next? hnext))

/--
At every point of the iteration over the chunks of a text, the number of those still to come is
within the bounds that are told there, and no later upper bound is greater.  The lower bound is
zero only when no chunk is to come, and the upper one is at most four times too high.
-/
theorem sizeHint_sound (s : String) (budget : Budget) (n : Nat) :
    let c := (ofString s budget).skip n
    let left := (chunk s budget).length - n
    c.toList.length = left ∧ c.sizeHint.1 ≤ left ∧ left ≤ c.sizeHint.2 ∧
      (∀ m, ((ofString s budget).skip (n + m)).sizeHint.2 ≤ c.sizeHint.2) ∧
      c.sizeHint.1 = min 1 left ∧ c.sizeHint.2 ≤ 4 * left := by
  intro c left
  have hleft : c.toList.length = left := by
    rw [toList_skip, List.length_drop]
    rfl
  refine ⟨hleft, ?_, ?_, fun m => ?_, ?_, ?_⟩
  · rw [sizeHint_fst, hleft]
    exact Nat.min_le_right 1 left
  · rw [← hleft]
    exact c.length_le_sizeHint
  · rw [skip_add]
    exact c.sizeHint_skip_le m
  · rw [sizeHint_fst, hleft]
  · rw [← hleft]
    exact c.sizeHint_le_length

/-- Three characters of nine bytes, at most two to a chunk: from one to five chunks are to come. -/
example : (ofString "🦀é世" ⟨2, by decide⟩).sizeHint = (1, 5) := by decide

end Chunks

end Text

end Marginalia
