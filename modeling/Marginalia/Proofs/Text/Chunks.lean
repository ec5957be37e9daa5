import Mathlib.Data.List.Basic
import Marginalia.Text.Chunk

/-!
# Chunks put together again

The chunks of a text are its one decomposition into parts of the width that the budget sets,
the last of which may be narrower.  Readers that stand at the same place of a text get the same
chunks from there on, in whatever turns they are asked.
-/

namespace Marginalia

namespace Text

/-! ## One chunk after the other -/

namespace Chunks

theorem toList_of_nil {c : Chunks} (h : c.rest = []) : c.toList = [] := by
  rw [toList, slices]
  split
  · rfl
  · next hnext =>
      rw [next?_of_nil h] at hnext
      cases hnext

theorem toList_of_ne_nil {c : Chunks} (h : c.rest ≠ []) :
    c.toList = String.ofList (c.rest.take c.budget.chars) ::
      ({ c with rest := c.rest.drop c.budget.chars } : Chunks).toList := by
  rw [toList, slices]
  split
  · next hnext =>
      rw [next?_of_ne_nil h] at hnext
      cases hnext
  · next hnext =>
      rw [next?_of_ne_nil h] at hnext
      cases hnext
      rfl

theorem next?_eq_none_iff {c : Chunks} : c.next? = none ↔ c.toList = [] := by
  by_cases hrest : c.rest = []
  · simp [next?_of_nil hrest, toList_of_nil hrest]
  · simp [next?_of_ne_nil hrest, toList_of_ne_nil hrest]

theorem toList_of_next? {c c' : Chunks} {slice : List Char} (h : c.next? = some (slice, c')) :
    c.toList = String.ofList slice :: c'.toList := by
  by_cases hrest : c.rest = []
  · rw [next?_of_nil hrest] at h
    cases h
  · rw [next?_of_ne_nil hrest] at h
    cases h
    exact toList_of_ne_nil hrest

/-- After some calls for the next chunk, those behind the ones asked for are left. -/
theorem toList_skip (c : Chunks) (n : Nat) : (c.skip n).toList = c.toList.drop n := by
  induction n generalizing c with
  | zero => rfl
  | succ n ih =>
      rw [skip]
      cases hnext : c.next? with
      | none =>
          have hnil := next?_eq_none_iff.mp hnext
          simp [hnil]
      | some next =>
          rw [toList_of_next? hnext, List.drop_succ_cons]
          exact ih next.2

/-- The chunks that two readers get who ask in turns; `true` is a turn of the first one. -/
def readInTurns : List Bool → Chunks → Chunks → List String × List String
  | [], _, _ => ([], [])
  | true :: turns, c, d =>
      match c.next? with
      | none => readInTurns turns c d
      | some (slice, c) =>
          let (first, second) := readInTurns turns c d
          (String.ofList slice :: first, second)
  | false :: turns, c, d =>
      match d.next? with
      | none => readInTurns turns c d
      | some (slice, d) =>
          let (first, second) := readInTurns turns c d
          (first, String.ofList slice :: second)

theorem readInTurns_eq (turns : List Bool) (c d : Chunks) :
    readInTurns turns c d =
      (c.toList.take (turns.count true), d.toList.take (turns.count false)) := by
  induction turns generalizing c d with
  | nil => simp [readInTurns]
  | cons turn turns ih =>
      cases turn with
      | true =>
          rw [readInTurns]
          cases hnext : c.next? with
          | none =>
              have hnil := next?_eq_none_iff.mp hnext
              simp [ih, hnil]
          | some next => simp [ih, toList_of_next? hnext]
      | false =>
          rw [readInTurns]
          cases hnext : d.next? with
          | none =>
              have hnil := next?_eq_none_iff.mp hnext
              simp [ih, hnil]
          | some next => simp [ih, toList_of_next? hnext]

end Chunks

/-! ## Decompositions -/

/--
Whether a text falls into parts of a width: all parts but the last one are as wide as that, and
the last one is no wider and not empty.
-/
structure Decomposes (width : Nat) (text : List Char) (parts : List String) : Prop where
  joined : parts.flatMap String.toList = text
  full : ∀ part ∈ parts.dropLast, part.length = width
  last : ∀ part ∈ parts.getLast?, 1 ≤ part.length ∧ part.length ≤ width

namespace Decomposes

variable {width : Nat} {text : List Char} {part next : String} {parts : List String}

theorem nil (width : Nat) : Decomposes width [] [] :=
  ⟨rfl, by simp, by simp⟩

theorem singleton (hpos : 1 ≤ part.length) (hle : part.length ≤ width) :
    Decomposes width part.toList [part] := by
  refine ⟨by simp, by simp, ?_⟩
  intro last hlast
  cases hlast
  exact ⟨hpos, hle⟩

theorem cons (hfull : part.length = width) (h : Decomposes width text (next :: parts)) :
    Decomposes width (part.toList ++ text) (part :: next :: parts) := by
  refine ⟨?_, ?_, ?_⟩
  · rw [List.flatMap_cons, h.joined]
  · intro other hother
    rw [List.dropLast_cons_cons, List.mem_cons] at hother
    cases hother with
    | inl heq => rw [heq, hfull]
    | inr hmem => exact h.full other hmem
  · intro last hlast
    rw [List.getLast?_cons_cons] at hlast
    exact h.last last hlast

theorem tail (h : Decomposes width text (part :: next :: parts)) :
    part.length = width ∧ ∃ rest, text = part.toList ++ rest ∧
      Decomposes width rest (next :: parts) := by
  have hfull : part.length = width := h.full part (by simp)
  refine ⟨hfull, (next :: parts).flatMap String.toList, ?_, rfl, ?_, ?_⟩
  · rw [← h.joined, List.flatMap_cons]
  · intro other hother
    exact h.full other (by rw [List.dropLast_cons_cons]; exact List.mem_cons_of_mem part hother)
  · intro last hlast
    exact h.last last (by rw [List.getLast?_cons_cons]; exact hlast)

theorem length_of_mem (h : Decomposes width text parts) (hwidth : 1 ≤ width)
    (hmem : part ∈ parts) : 1 ≤ part.length ∧ part.length ≤ width := by
  induction parts generalizing text with
  | nil => cases hmem
  | cons first parts ih =>
      cases parts with
      | nil =>
          rw [List.mem_singleton] at hmem
          exact h.last part (by simp [hmem])
      | cons next parts =>
          obtain ⟨hfull, rest, -, hrest⟩ := h.tail
          rw [List.mem_cons] at hmem
          cases hmem with
          | inl heq => rw [heq]; omega
          | inr hlater => exact ih hrest hlater

/-- The number of parts is that of the characters divided by the width, rounded up. -/
theorem length_eq (h : Decomposes width text parts) (hwidth : 1 ≤ width) :
    parts.length = (text.length + (width - 1)) / width := by
  induction parts generalizing text with
  | nil =>
      have htext : text = [] := h.joined.symm
      rw [htext, List.length_nil, List.length_nil, Nat.div_eq_of_lt (by omega)]
  | cons part parts ih =>
      cases parts with
      | nil =>
          have htext : part.toList = text := by simpa using h.joined
          have hlast := h.last part rfl
          have hlength : text.length + (width - 1) = part.length - 1 + width := by
            rw [← htext, String.length_toList]
            omega
          rw [hlength, Nat.add_div_right _ hwidth, Nat.div_eq_of_lt (by omega)]
          rfl
      | cons next parts =>
          obtain ⟨hfull, rest, htext, hrest⟩ := h.tail
          have hlength : text.length + (width - 1) = rest.length + (width - 1) + width := by
            rw [htext, List.length_append, String.length_toList, hfull]
            omega
          rw [hlength, Nat.add_div_right _ hwidth, ← ih hrest, List.length_cons]

end Decomposes

theorem Chunks.decomposes (c : Chunks) : Decomposes c.budget.chars c.rest c.toList := by
  by_cases hrest : c.rest = []
  · rw [toList_of_nil hrest, hrest]
    exact .nil _
  · have hbudget := c.budget.pos
    have hlength := List.length_pos_iff.mpr hrest
    have hothers := Chunks.decomposes { c with rest := c.rest.drop c.budget.chars }
    rw [toList_of_ne_nil hrest]
    by_cases hmore : c.rest.drop c.budget.chars = []
    · have hall : c.rest.length ≤ c.budget.chars := List.drop_eq_nil_iff.mp hmore
      rw [← String.length_ofList] at hlength hall
      have hone := Decomposes.singleton hlength hall
      rw [String.length_ofList] at hall
      rw [String.toList_ofList] at hone
      rw [toList_of_nil hmore, List.take_of_length_le hall]
      exact hone
    · have hfull : (String.ofList (c.rest.take c.budget.chars)).length = c.budget.chars := by
        have hleft := List.length_pos_iff.mpr hmore
        rw [List.length_drop] at hleft
        rw [String.length_ofList, List.length_take]
        omega
      rw [toList_of_ne_nil hmore] at hothers ⊢
      have hcons := hothers.cons hfull
      rw [String.toList_ofList, List.take_append_drop] at hcons
      exact hcons
termination_by c.rest.length
decreasing_by
  rw [List.length_drop]
  omega

/-- There is no other decomposition of that width. -/
theorem Decomposes.eq_toList {c : Chunks} {parts : List String}
    (h : Decomposes c.budget.chars c.rest parts) : parts = c.toList := by
  induction parts generalizing c with
  | nil =>
      have hrest : c.rest = [] := h.joined.symm
      rw [Chunks.toList_of_nil hrest]
  | cons part parts ih =>
      have hlength := (h.length_of_mem c.budget.pos List.mem_cons_self).1
      cases parts with
      | nil =>
          have hrest : c.rest = part.toList := by simpa using h.joined.symm
          have hne : c.rest ≠ [] := by
            intro hnil
            rw [← String.length_toList, ← hrest, hnil] at hlength
            simp at hlength
          have hall : c.rest.length ≤ c.budget.chars := by
            rw [hrest, String.length_toList]
            exact (h.last part rfl).2
          rw [Chunks.toList_of_ne_nil hne, List.take_of_length_le hall, hrest,
            String.ofList_toList, Chunks.toList_of_nil]
          exact List.drop_eq_nil_iff.mpr (hrest ▸ hall)
      | cons next parts =>
          obtain ⟨hfull, rest, hrest, hothers⟩ := h.tail
          have hpart : part.toList.length = c.budget.chars := by
            rw [String.length_toList, hfull]
          have hne : c.rest ≠ [] := by
            intro hnil
            have hempty := (List.append_eq_nil_iff.mp (hrest.symm.trans hnil)).1
            have hbudget := c.budget.pos
            rw [← hpart, hempty] at hbudget
            simp at hbudget
          have htake : c.rest.take c.budget.chars = part.toList := by
            rw [hrest, ← hpart, List.take_left]
          have hdrop : c.rest.drop c.budget.chars = rest := by
            rw [hrest, ← hpart, List.drop_left]
          rw [Chunks.toList_of_ne_nil hne, htake, String.ofList_toList, hdrop]
          rw [ih (c := { c with rest }) hothers]

theorem flatMap_chunk (s : String) (budget : Budget) :
    (chunk s budget).flatMap String.toList = s.toList :=
  (Chunks.decomposes (Chunks.ofString s budget)).joined

theorem length_of_mem_chunk {s part : String} {budget : Budget} (h : part ∈ chunk s budget) :
    1 ≤ part.length ∧ part.length ≤ budget.chars :=
  (Chunks.decomposes (Chunks.ofString s budget)).length_of_mem budget.pos h

/--
The chunks of a text are its only decomposition of the width of the budget: all but the last
one are as wide as that, and the last one is not empty and no wider.  Their number is that of
the characters divided by the budget, rounded up.  After any number of calls for the next chunk
those behind are left, and a reader who goes on from there and one who has a copy get the same
ones, whoever of them asks first.
-/
theorem chunk_unique (s : String) (budget : Budget) :
    (∀ parts, Decomposes budget.chars s.toList parts ↔ parts = chunk s budget) ∧
    String.join (chunk s budget) = s ∧
    (∀ part ∈ chunk s budget, 1 ≤ part.length ∧ part.length ≤ budget.chars) ∧
    (chunk s budget).length = (s.length + (budget.chars - 1)) / budget.chars ∧
    ∀ n turns,
      let c := (Chunks.ofString s budget).skip n
      let copy : Chunks := { rest := c.rest, budget := c.budget }
      c.toList = (chunk s budget).drop n ∧ copy.toList = c.toList ∧
        Chunks.readInTurns turns c copy =
          (((chunk s budget).drop n).take (turns.count true),
            ((chunk s budget).drop n).take (turns.count false)) := by
  have hchunk := Chunks.decomposes (Chunks.ofString s budget)
  refine ⟨fun parts => ⟨fun h => ?_, fun h => ?_⟩, ?_, fun part => length_of_mem_chunk, ?_,
    fun n turns => ?_⟩
  · exact h.eq_toList (c := Chunks.ofString s budget)
  · rw [h]
    exact hchunk
  · apply String.toList_inj.mp
    rw [String.toList_join]
    exact flatMap_chunk s budget
  · rw [← String.length_toList]
    exact hchunk.length_eq budget.pos
  · have hskip := (Chunks.ofString s budget).toList_skip n
    refine ⟨hskip, rfl, ?_⟩
    rw [Chunks.readInTurns_eq, hskip]
    rfl

/-- A text with characters of one to four bytes. -/
def mixedText : String := "aé世🦀!"

/-- It falls into three chunks of at most two characters, the last of which has one. -/
theorem chunk_unique_mixed :
    chunk mixedText ⟨2, by decide⟩ = ["aé", "世🦀", "!"] ∧
      "!" ∈ chunk mixedText ⟨2, by decide⟩ ∧ 1 ≤ "!".length ∧ "!".length ≤ 2 := by
  obtain ⟨hunique, -, hbounds, -⟩ := chunk_unique mixedText ⟨2, by decide⟩
  have hparts : Decomposes 2 mixedText.toList ["aé", "世🦀", "!"] :=
    ⟨by decide, by decide, by decide⟩
  have hchunk := (hunique ["aé", "世🦀", "!"]).mp hparts
  have hmem : "!" ∈ chunk mixedText ⟨2, by decide⟩ := by
    rw [← hchunk]
    decide
  exact ⟨hchunk.symm, hmem, hbounds "!" hmem⟩

end Text

end Marginalia
