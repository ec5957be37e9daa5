import Mathlib.Data.List.Induction
import Marginalia.Text.Lines

/-!
# Lines put together

A text that was put together from lines falls into these lines again.
-/

namespace Marginalia

namespace Text

theorem rawLines_feed (rest : List Char) : rawLines ('\n' :: rest) = [] :: rawLines rest := rfl

theorem rawLines_cons {c : Char} (hc : c ≠ '\n') (rest : List Char) :
    rawLines (c :: rest) = addToFirstLine c (rawLines rest) := by
  rw [rawLines, List.foldr_cons, if_neg hc]
  rfl

theorem rawLines_append {line : List Char} (h : '\n' ∉ line) (rest : List Char) :
    rawLines (line ++ '\n' :: rest) = line :: rawLines rest := by
  induction line with
  | nil => exact rawLines_feed rest
  | cons c line ih =>
      have hc : c ≠ '\n' := fun hc => h (hc ▸ List.mem_cons_self)
      rw [List.cons_append, rawLines_cons hc, ih fun hmem => h (List.mem_cons_of_mem c hmem)]
      rfl

theorem rawLines_of_not_mem {line : List Char} (h : '\n' ∉ line) (hne : line ≠ []) :
    rawLines line = [line] := by
  induction line with
  | nil => exact absurd rfl hne
  | cons c line ih =>
      have hc : c ≠ '\n' := fun hc => h (hc ▸ List.mem_cons_self)
      rw [rawLines_cons hc]
      cases line with
      | nil => rfl
      | cons d line =>
          rw [ih (fun hmem => h (List.mem_cons_of_mem c hmem)) (List.cons_ne_nil d line)]
          rfl

theorem rawLines_ne_nil {text : List Char} (h : text ≠ []) : rawLines text ≠ [] := by
  cases text with
  | nil => exact absurd rfl h
  | cons c rest =>
      by_cases hc : c = '\n'
      · rw [hc, rawLines_feed]
        exact List.cons_ne_nil _ _
      · rw [rawLines_cons hc]
        cases rawLines rest with
        | nil => exact List.cons_ne_nil _ _
        | cons line lines => exact List.cons_ne_nil _ _

/-- The first line of a text that goes on behind it. -/
theorem lineChars_append {line rest : List Char} (h : '\n' ∉ line) (hrest : rest ≠ []) :
    lineChars (line ++ '\n' :: rest) = dropReturn line :: lineChars rest := by
  have hlast : (line ++ '\n' :: rest).getLast? = rest.getLast? := by
    cases rest with
    | nil => exact absurd rfl hrest
    | cons c rest => simp [List.getLast?_cons]
  obtain ⟨first, lines, hlines⟩ := List.exists_cons_of_ne_nil (rawLines_ne_nil hrest)
  simp only [lineChars, hlast, rawLines_append h, hlines]
  split
  · rfl
  · rfl

theorem lineChars_of_not_mem {line : List Char} (h : '\n' ∉ line) (hne : line ≠ []) :
    lineChars line = [line] := by
  have hlast : line.getLast? ≠ some '\n' := fun hlast => h (List.mem_of_getLast? hlast)
  simp only [lineChars, rawLines_of_not_mem h hne, if_neg hlast]
  rfl

/-! ## Returns -/

theorem dropReturn_concat (line : List Char) : dropReturn (line ++ ['\r']) = line := by
  simp [dropReturn]

theorem dropReturn_of_not_mem {line : List Char} (h : '\r' ∉ line) : dropReturn line = line := by
  have hlast : line.getLast? ≠ some '\r' := fun hlast => h (List.mem_of_getLast? hlast)
  rw [dropReturn, if_neg hlast]

theorem dropReturn_append {front : List Char} (h : '\r' ∉ front) (line : List Char) :
    dropReturn (front ++ line) = front ++ dropReturn line := by
  cases line using List.reverseRecOn with
  | nil =>
      rw [List.append_nil, dropReturn_of_not_mem h, dropReturn_of_not_mem List.not_mem_nil,
        List.append_nil]
  | append_singleton line c =>
      by_cases hc : c = '\r'
      · subst hc
        rw [← List.append_assoc, dropReturn_concat, dropReturn_concat]
      · simp [dropReturn, hc]

theorem exists_dropReturn_append (line : List Char) :
    ∃ returns, line = dropReturn line ++ returns ∧ ∀ c ∈ returns, c = '\r' := by
  cases line using List.reverseRecOn with
  | nil => exact ⟨[], rfl, nofun⟩
  | append_singleton line c =>
      by_cases hc : c = '\r'
      · subst hc
        exact ⟨['\r'], by rw [dropReturn_concat], by simp⟩
      · exact ⟨[], by simp [dropReturn, hc], nofun⟩

end Text

end Marginalia
