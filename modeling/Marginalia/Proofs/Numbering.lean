import Mathlib.Data.List.Basic
import Marginalia.Proofs.Message
import Marginalia.Proofs.Review
import Marginalia.Proofs.Text.Rows

/-!
# One numbering for request and ledger

A model is shown the selected lines of a document in rows, each under its number.  The number
of a row is the number under which the document has its line, so a marker that is made for it
covers the line that the row shows.
-/

namespace Marginalia

/--
The numbers of the lines that a scope selects among as many as a document has: all of them,
or those in the last range asked for when the scope heeds it and it has any of them.
-/
def Scope.selected (scope : Scope) (asked : List (Nat × Nat)) (count : Nat) : List Nat :=
  let all := List.range' 1 count
  match scope, asked.getLast? with
  | .visible, some (first, last) =>
      let met := all.filter fun n => first ≤ n && n ≤ last
      if met = [] then all else met
  | _, _ => all

/-- The numbers within bounds among those counted from one. -/
theorem filter_range'_eq {first : Nat} (h : 1 ≤ first) (last count : Nat) :
    ((List.range' 1 count).filter fun n => first ≤ n && n ≤ last) =
      List.range' first (min last count + 1 - first) := by
  induction count with
  | zero =>
      rw [show min last 0 + 1 - first = 0 by omega]
      rfl
  | succ count ih =>
      rw [List.range'_1_concat, List.filter_append, ih]
      by_cases hin : first ≤ 1 + count ∧ 1 + count ≤ last
      · rw [List.filter_cons_of_pos (by simpa using hin), List.filter_nil,
          show min last (count + 1) + 1 - first = min last count + 1 - first + 1 by omega,
          List.range'_1_concat, show first + (min last count + 1 - first) = 1 + count by omega]
      · rw [List.filter_cons_of_neg (by simpa using hin), List.filter_nil, List.append_nil,
          show min last (count + 1) + 1 - first = min last count + 1 - first by omega]

namespace Document

variable {d : Document}

/-! ## Lines in a range -/

theorem map_fst_linesIn {range : Nat × Nat} (h : 1 ≤ range.1) :
    (d.linesIn range).map (·.1) =
      List.range' range.1 (min range.2 d.lines.length + 1 - range.1) := by
  rw [← filter_range'_eq h, linesIn, List.map_map, ← List.zipIdx_map_snd 1 d.lines,
    List.filter_map]
  rfl

theorem line?_of_mem_linesIn {range : Nat × Nat} {r : Nat × String} (h : r ∈ d.linesIn range) :
    d.line? r.1 = some r.2 := by
  obtain ⟨⟨text, n⟩, hmem, rfl⟩ := List.mem_map.mp h
  obtain ⟨hn, hline⟩ := List.mem_zipIdx_iff_le_and_getElem?_sub.mp (List.mem_filter.mp hmem).1
  rw [line?, if_neg (Nat.ne_of_gt hn)]
  exact hline

theorem map_fst_linesIn_fullRange :
    (d.linesIn d.fullRange).map (·.1) = List.range' 1 d.lineCount := by
  rw [map_fst_linesIn (Nat.le_refl 1), fullRange, lineCount,
    Nat.min_eq_left (Nat.min_le_left d.lines.length maxLine), Nat.add_sub_cancel]

theorem mem_linesIn_fullRange_iff {n : Nat} :
    n ∈ (d.linesIn d.fullRange).map (·.1) ↔ d.hasLine n = true := by
  rw [map_fst_linesIn_fullRange, List.mem_range'_1, hasLine, Bool.and_eq_true, decide_eq_true_eq,
    decide_eq_true_eq]
  omega

theorem hasLine_iff {n : Nat} (hn : n ≤ maxLine) :
    d.hasLine n = true ↔ (d.line? n).isSome = true :=
  ⟨fun h => Option.isSome_iff_exists.mpr (line?_of_hasLine h), fun h => hasLine_of_line? h hn⟩

/-- Lines that are numbered on from the first one have the numbers they were looked up by. -/
theorem numberLines_linesIn {range : Nat × Nat} (h : 1 ≤ range.1) :
    Text.numberLines ((d.linesIn range).map (·.2)) range.1 =
      String.join ((d.linesIn range).map fun r => Text.numberedRow r.1 r.2) := by
  have hnumbers := @map_fst_linesIn d range h
  have hlength := congrArg List.length hnumbers
  rw [List.length_map, List.length_range'] at hlength
  rw [Text.numberLines, List.zipIdx_eq_zip_range', List.length_map, hlength, ← hnumbers,
    List.zip_map', List.map_map]
  rfl

/-! ## Lines that a scope selects -/

def marked (d : Document) (asked : List (Nat × Nat)) : Document :=
  asked.foldl (fun d range => d.withVisible range.1 range.2) d

theorem marked_append (d : Document) (asked more : List (Nat × Nat)) :
    d.marked (asked ++ more) = (d.marked asked).marked more :=
  List.foldl_append

theorem marked_concat (d : Document) (asked : List (Nat × Nat)) (range : Nat × Nat) :
    d.marked (asked ++ [range]) = d.withVisible range.1 range.2 := by
  have hlines : ∀ asked, ∃ visible, d.marked asked = { d with visible } := by
    intro asked
    induction asked using List.reverseRecOn with
    | nil => exact ⟨d.visible, rfl⟩
    | append_singleton asked range ih =>
        obtain ⟨visible, hmarked⟩ := ih
        rw [marked_append, hmarked]
        exact ⟨_, rfl⟩
  obtain ⟨visible, hmarked⟩ := hlines asked
  rw [marked_append, hmarked]
  rfl

/-- A range that is cut to the document has the lines that the range has of the document. -/
theorem map_fst_linesIn_clamped (first last : Nat) :
    (d.linesIn (max first 1, min last d.lineCount)).map (·.1) =
      (List.range' 1 d.lineCount).filter fun n => first ≤ n && n ≤ last := by
  have hcount : d.lineCount ≤ d.lines.length := Nat.min_le_left _ _
  have hone : 1 ≤ max first 1 := Nat.le_max_right first 1
  have hfirst : ((List.range' 1 d.lineCount).filter fun n => first ≤ n && n ≤ last) =
      (List.range' 1 d.lineCount).filter fun n => max first 1 ≤ n && n ≤ last := by
    refine List.filter_congr fun n hn => ?_
    rw [List.mem_range'_1] at hn
    rw [Bool.eq_iff_iff]
    simp only [Bool.and_eq_true, decide_eq_true_eq]
    omega
  rw [hfirst, filter_range'_eq hone, map_fst_linesIn hone,
    Nat.min_eq_left (Nat.le_trans (Nat.min_le_right last d.lineCount) hcount)]

theorem map_fst_linesIn_withVisible (first last : Nat) :
    let e := d.withVisible first last
    (e.linesIn (Scope.visible.rangeOf e)).map (·.1) =
      Scope.visible.selected [(first, last)] d.lineCount := by
  dsimp only
  have hclamped := @map_fst_linesIn_clamped d first last
  simp only [Scope.selected, List.getLast?_singleton]
  by_cases hmeets : max first 1 ≤ min last d.lineCount
  · have hmem : max first 1 ∈
        (List.range' 1 d.lineCount).filter fun n => first ≤ n && n ≤ last := by
      simp only [List.mem_filter, List.mem_range'_1, Bool.and_eq_true, decide_eq_true_eq]
      omega
    rw [if_neg (List.ne_nil_of_mem hmem), ← hclamped, withVisible, if_pos hmeets]
    rfl
  · have hnone : ((List.range' 1 d.lineCount).filter fun n => first ≤ n && n ≤ last) = [] := by
      refine List.filter_eq_nil_iff.mpr fun n hn => ?_
      rw [List.mem_range'_1] at hn
      simp only [Bool.and_eq_true, decide_eq_true_eq]
      omega
    rw [if_pos hnone, ← map_fst_linesIn_fullRange, withVisible, if_neg hmeets]
    rfl

theorem map_fst_linesIn_rangeOf (id text : String) (asked : List (Nat × Nat)) (scope : Scope) :
    let d := (ofText id text).marked asked
    (d.linesIn (scope.rangeOf d)).map (·.1) = scope.selected asked d.lineCount := by
  cases scope with
  | document => exact map_fst_linesIn_fullRange
  | visible =>
      cases asked using List.reverseRecOn with
      | nil => exact map_fst_linesIn_fullRange
      | append_singleton asked range =>
          rw [marked_concat]
          have hselected := @map_fst_linesIn_withVisible (ofText id text) range.1 range.2
          simp only [Scope.selected, List.getLast?_concat, List.getLast?_singleton] at hselected ⊢
          exact hselected

theorem one_le_rangeOf (id text : String) (asked : List (Nat × Nat)) (scope : Scope) :
    1 ≤ (scope.rangeOf ((ofText id text).marked asked)).1 := by
  cases scope with
  | document => exact Nat.le_refl 1
  | visible =>
      cases asked using List.reverseRecOn with
      | nil => exact Nat.le_refl 1
      | append_singleton asked range =>
          rw [marked_concat, withVisible]
          by_cases hmeets : max range.1 1 ≤ min range.2 (ofText id text).lineCount
          · rw [if_pos hmeets]
            exact Nat.le_max_right range.1 1
          · rw [if_neg hmeets]
            exact Nat.le_refl 1

theorem lines_marked (id text : String) (asked : List (Nat × Nat)) :
    ((ofText id text).marked asked).lines = Text.lines text := by
  cases asked using List.reverseRecOn with
  | nil => rfl
  | append_singleton asked range =>
      rw [marked_concat]
      rfl

theorem not_mem_of_line? {n : Nat} {line : String} (hlines : ∀ l ∈ d.lines, '\n' ∉ l.toList)
    (h : d.line? n = some line) : '\n' ∉ line.toList := by
  unfold line? at h
  split at h
  · cases h
  · exact hlines line (List.mem_of_getElem? h)

/-- The text of the messages for a document is made of the rows of the lines in its range. -/
theorem flatMap_messages {scope : Scope} (h : 1 ≤ (scope.rangeOf d).1) (budget : Text.Budget) :
    (d.messages scope budget).flatMap (·.content.toList) =
      (d.linesIn (scope.rangeOf d)).flatMap fun r => (Text.numberedRow r.1 r.2).toList := by
  rw [messages, Message.flatMap_chunked, rows, numberLines_linesIn h, String.toList_join,
    List.flatMap_map]

/--
The messages for a document, put together and taken apart at the line feeds, are rows that can
be read in one way only: the selected numbers one by one, each with the line that the document
has under it.
-/
theorem exists_rows (id text : String) (asked : List (Nat × Nat)) (scope : Scope)
    (budget : Text.Budget) :
    let d := (ofText id text).marked asked
    ∃ rows : List (Nat × String),
      (∀ rows', Text.partsAt '\n' ((d.messages scope budget).flatMap (·.content.toList)) =
          rows'.map (fun r => Text.row r.1 r.2) ++ [[]] ↔ rows' = rows) ∧
        rows.map (·.1) = scope.selected asked d.lineCount ∧
          (rows.map (·.1)).IsChain (fun m n => n = m + 1) ∧
            ∀ r ∈ rows, d.line? r.1 = some r.2 := by
  intro d
  have hfirst := one_le_rangeOf id text asked scope
  have hline : ∀ r ∈ d.linesIn (scope.rangeOf d), d.line? r.1 = some r.2 :=
    fun r hr => line?_of_mem_linesIn hr
  refine ⟨d.linesIn (scope.rangeOf d), fun rows' => ?_,
    map_fst_linesIn_rangeOf id text asked scope, ?_, hline⟩
  · rw [flatMap_messages hfirst]
    refine Text.partsAt_rows_eq_iff (fun r hr => not_mem_of_line? ?_ (hline r hr)) rows'
    rw [lines_marked]
    exact fun l hl => Text.not_mem_of_mem_lines hl
  · rw [map_fst_linesIn hfirst]
    exact List.isChain_range' _ _ 1

/-! ## One numbering -/

theorem exists_apply_iff {ledger : Ledger} {n : Nat} {suggestion color : String}
    {severity : Severity} :
    (∃ applied, ledger.apply d n suggestion severity color = .ok applied) ↔
      (d.line? n).isSome = true := by
  cases hline : d.line? n with
  | none => simp [Ledger.apply, hline]
  | some line => simp [Ledger.apply_eq_add hline]

/--
The messages for a document, put together and taken apart at the line feeds, are rows that can
be read in one way only: the selected numbers one by one, each with the line that the document
has under this number and that a marker made for it covers.  A number is one of a line exactly
when there is a line to be looked up, when it is among those in the full range, and when the
ledger takes it.
-/
theorem numbers_agree (id text : String) (asked : List (Nat × Nat)) (scope : Scope)
    (budget : Text.Budget) (ledger : Ledger) (suggestion color : String) (severity : Severity) :
    let d := (ofText id text).marked asked
    let apply := fun n => ledger.apply d n suggestion severity color
    (∃ rows : List (Nat × String),
      (∀ rows', Text.partsAt '\n' ((d.messages scope budget).flatMap (·.content.toList)) =
          rows'.map (fun r => Text.row r.1 r.2) ++ [[]] ↔ rows' = rows) ∧
        rows.map (·.1) = scope.selected asked d.lineCount ∧
          (rows.map (·.1)).IsChain (fun m n => n = m + 1) ∧
            ∀ r ∈ rows, d.line? r.1 = some r.2 ∧
              ∃ applied, apply r.1 = .ok applied ∧ applied.marker.range = .ofLine r.1 r.2) ∧
      ∀ n : UInt32,
        (d.hasLine n.toNat = true ↔ (d.line? n.toNat).isSome = true) ∧
          (d.hasLine n.toNat = true ↔ n.toNat ∈ (d.linesIn d.fullRange).map (·.1)) ∧
            (d.hasLine n.toNat = true ↔ ∃ applied, apply n.toNat = .ok applied) := by
  intro d apply
  obtain ⟨rows, hparts, hnumbers, hchain, hline⟩ := exists_rows id text asked scope budget
  refine ⟨⟨rows, hparts, hnumbers, hchain, fun r hr => ⟨hline r hr, ?_⟩⟩, fun n => ?_⟩
  · exact ⟨_, Ledger.apply_eq_add (hline r hr), rfl⟩
  · have hn : n.toNat ≤ maxLine := Nat.le_of_lt_succ n.toNat_lt
    exact ⟨hasLine_iff hn, mem_linesIn_fullRange_iff.symm,
      (hasLine_iff hn).trans exists_apply_iff.symm⟩

end Document

end Marginalia
