import Marginalia.Proofs.Text.Chunks
import Marginalia.Proofs.Text.Lines
import Marginalia.Proofs.Text.Parts

/-!
# Rows read back

Numbered rows that are cut into chunks and put together again fall into the same rows, and a
row tells which line it shows and under which number.
-/

namespace Marginalia

namespace Text

/-! ## Lines hold no line feed -/

theorem not_mem_of_mem_rawLines {text line : List Char} (h : line ∈ rawLines text) :
    '\n' ∉ line := by
  induction text generalizing line with
  | nil => cases h
  | cons c rest ih =>
      by_cases hc : c = '\n'
      · rw [hc, rawLines_feed] at h
        rcases List.mem_cons.mp h with rfl | h
        · exact List.not_mem_nil
        · exact ih h
      · rw [rawLines_cons hc] at h
        cases hlines : rawLines rest with
        | nil =>
            rw [hlines, addToFirstLine, List.mem_singleton] at h
            rw [h, List.mem_singleton]
            exact Ne.symm hc
        | cons first lines =>
            rw [hlines, addToFirstLine, List.mem_cons] at h
            rw [hlines] at ih
            rcases h with rfl | h
            · have hfirst := ih List.mem_cons_self
              exact fun hmem => (List.mem_cons.mp hmem).elim (fun heq => hc heq.symm) hfirst
            · exact ih (List.mem_cons_of_mem first h)

theorem not_mem_dropReturn {line : List Char} (h : '\n' ∉ line) : '\n' ∉ dropReturn line := by
  unfold dropReturn
  split
  · exact fun hmem => h (List.dropLast_subset line hmem)
  · exact h

theorem not_mem_of_mem_lineChars {text line : List Char} (h : line ∈ lineChars text) :
    '\n' ∉ line := by
  simp only [lineChars] at h
  split at h
  · obtain ⟨raw, hraw, rfl⟩ := List.mem_map.mp h
    exact not_mem_dropReturn (not_mem_of_mem_rawLines hraw)
  · rcases List.mem_append.mp h with h | h
    · obtain ⟨raw, hraw, rfl⟩ := List.mem_map.mp h
      exact not_mem_dropReturn (not_mem_of_mem_rawLines (List.dropLast_subset _ hraw))
    · exact not_mem_of_mem_rawLines (List.mem_of_getLast? (Option.mem_toList.mp h))

theorem not_mem_of_mem_lines {s line : String} (h : line ∈ lines s) : '\n' ∉ line.toList := by
  obtain ⟨cs, hcs, rfl⟩ := List.mem_map.mp h
  rw [String.toList_ofList]
  exact not_mem_of_mem_lineChars hcs

/-! ## Rows -/

def row (n : Nat) (line : String) : List Char :=
  (toString n ++ ": " ++ line ++ " ").toList

theorem row_eq (n : Nat) (line : String) :
    row n line = Nat.toDigits 10 n ++ ':' :: ' ' :: line.toList ++ [' '] := by
  simp [row]

theorem toList_numberedRow (n : Nat) (line : String) :
    (numberedRow n line).toList = row n line ++ ['\n'] := by
  simp [numberedRow, row]

theorem not_mem_row {line : String} (h : '\n' ∉ line.toList) (n : Nat) : '\n' ∉ row n line := by
  have hdigits : '\n' ∉ Nat.toDigits 10 n := fun hmem =>
    absurd (Nat.isDigit_of_mem_toDigits (by decide) (by decide) hmem) (by decide)
  simp [row_eq, hdigits, h]

theorem takeWhile_row (n : Nat) (line : String) :
    (row n line).takeWhile Char.isDigit = Nat.toDigits 10 n := by
  have hdigits : ∀ c ∈ Nat.toDigits 10 n, c.isDigit = true :=
    fun c hc => Nat.isDigit_of_mem_toDigits (by decide) (by decide) hc
  rw [row_eq, List.append_assoc, List.takeWhile_append_of_pos hdigits, List.cons_append,
    List.takeWhile_cons_of_neg (by decide), List.append_nil]

theorem row_injective {m n : Nat} {a b : String} (h : row m a = row n b) : m = n ∧ a = b := by
  have hdigits : Nat.toDigits 10 m = Nat.toDigits 10 n := by
    rw [← takeWhile_row m a, h, takeWhile_row]
  have hnumber : m = n := by
    rw [← Nat.ofDigitChars_ten_toDigits (n := m), hdigits, Nat.ofDigitChars_ten_toDigits]
  rw [row_eq, row_eq, hdigits] at h
  have hlines := List.append_cancel_left (List.append_cancel_right h)
  exact ⟨hnumber, String.toList_inj.mp (List.cons.inj (List.cons.inj hlines).2).2⟩

/-- The characters of numbered rows, taken apart at the line feeds, are these rows only. -/
theorem partsAt_rows_eq_iff {rows : List (Nat × String)} (h : ∀ r ∈ rows, '\n' ∉ r.2.toList)
    (rows' : List (Nat × String)) :
    partsAt '\n' (rows.flatMap fun r => (numberedRow r.1 r.2).toList) =
      rows'.map (fun r => row r.1 r.2) ++ [[]] ↔ rows' = rows := by
  have hchars : (rows.flatMap fun r => (numberedRow r.1 r.2).toList) =
      (rows.map fun r => row r.1 r.2).flatMap (· ++ ['\n']) := by
    simp only [List.flatMap_map, toList_numberedRow]
  have hparts : ∀ part ∈ rows.map fun r => row r.1 r.2, '\n' ∉ part := by
    intro part hpart
    obtain ⟨r, hr, rfl⟩ := List.mem_map.mp hpart
    exact not_mem_row (h r hr) r.1
  rw [hchars, partsAt_flatMap hparts, List.append_left_inj]
  refine ((List.map_inj_right fun r r' heq => ?_).trans eq_comm)
  obtain ⟨hnumber, hline⟩ := row_injective heq
  exact Prod.ext hnumber hline

end Text

end Marginalia
