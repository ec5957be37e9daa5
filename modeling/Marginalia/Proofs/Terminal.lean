import Mathlib.Data.List.Forall2
import Marginalia.Proofs.Ledger.Accepted
import Marginalia.Terminal

/-!
# Markers as they are printed

A terminal that follows a ledger prints the markers that the ledger has for its document: each
once in two rows, by line, and those on one line in the order in which they were made.
-/

namespace Marginalia

/-! ## Lines without the blanks at their ends -/

theorem Text.exists_eq_trimEnd_append (s : String) :
    ∃ blanks, s = trimEnd s ++ blanks ∧ (∀ c ∈ blanks.toList, isBlank c = true) ∧
      ∀ c ∈ (trimEnd s).toList.getLast?, isBlank c = false := by
  have hsplit := List.takeWhile_append_dropWhile (p := isBlank) (l := s.toList.reverse)
  refine ⟨String.ofList (s.toList.reverse.takeWhile isBlank).reverse, ?_, ?_, ?_⟩
  · apply String.toList_inj.mp
    rw [String.toList_append, trimEnd, String.toList_ofList, String.toList_ofList, dropBlankEnd,
      ← List.reverse_append, hsplit, List.reverse_reverse]
  · intro c hc
    rw [String.toList_ofList, List.mem_reverse] at hc
    exact List.mem_takeWhile_imp hc
  · intro c hc
    rw [trimEnd, String.toList_ofList, dropBlankEnd, List.getLast?_reverse] at hc
    have hhead := List.head?_dropWhile_not isBlank s.toList.reverse
    rw [Option.mem_def.mp hc] at hhead
    exact hhead

namespace Terminal

/-! ## Columns -/

theorem length_toString_le {m n : Nat} (h : m ≤ n) :
    (toString m).length ≤ (toString n).length := by
  have hpos : 0 < (Nat.toDigits 10 n).length := Nat.length_toDigits_pos
  have hn := (Nat.length_toDigits_le_iff (by decide) hpos).mp (Nat.le_refl _)
  rw [Nat.toString_eq_ofList_toDigits, Nat.toString_eq_ofList_toDigits, String.length_ofList,
    String.length_ofList]
  exact (Nat.length_toDigits_le_iff (by decide) hpos).mpr (Nat.lt_of_le_of_lt h hn)

theorem exists_alignRight {width : Nat} {text : String} (h : text.length ≤ width) :
    ∃ margin, alignRight width text = margin ++ text ∧ (∀ c ∈ margin.toList, c = ' ') ∧
      margin.length + text.length = width := by
  refine ⟨String.ofList (List.replicate (width - text.length) ' '), rfl, ?_, ?_⟩
  · intro c hc
    rw [String.toList_ofList] at hc
    exact List.eq_of_mem_replicate hc
  · rw [String.length_ofList, List.length_replicate]
    omega

/-! ## Rows -/

/--
Whether a text is that of the rows for a marker of a document: the number of its line, set right
in a column as wide as the number of lines, with the line up to its last character that is not
blank, and below it the severity and the suggestion behind an empty column.
-/
inductive Prints (d : Document) (m : Marker) : String → Prop where
  | rows {margin column shown blanks : String}
      (line : d.line? m.line = some (shown ++ blanks))
      (blank : ∀ c ∈ blanks.toList, Text.isBlank c = true)
      (trimmed : ∀ c ∈ shown.toList.getLast?, Text.isBlank c = false)
      (margin_blank : ∀ c ∈ margin.toList, c = ' ')
      (margin_length :
        margin.length + (toString m.line).length = (toString d.lineCount).length)
      (column_blank : ∀ c ∈ column.toList, c = ' ')
      (column_length : column.length = (toString d.lineCount).length) :
      Prints d m
        (margin ++ toString m.line ++ " | " ++ shown ++ "\n" ++
          column ++ " | [" ++ m.severity.label ++ "] " ++ m.suggestion ++ "\n")

theorem prints_markerRows {d : Document} {m : Marker} (hline : (d.line? m.line).isSome = true)
    (hcount : m.line ≤ d.lineCount) :
    Prints d m (markerRows d (toString d.lineCount).length m) := by
  obtain ⟨text, htext⟩ := Option.isSome_iff_exists.mp hline
  obtain ⟨blanks, hsplit, hblank, htrimmed⟩ := Text.exists_eq_trimEnd_append text
  obtain ⟨margin, hnumber, hmargin, hwidth⟩ := exists_alignRight (length_toString_le hcount)
  have hnarrow : "".length ≤ (toString d.lineCount).length := Nat.zero_le _
  obtain ⟨column, hempty, hcolumn, hlength⟩ := exists_alignRight hnarrow
  rw [String.append_empty] at hempty
  rw [String.length_empty, Nat.add_zero] at hlength
  rw [markerRows, htext, hnumber, hempty, Option.getD_some]
  have hrows := Prints.rows (m := m) (htext.trans (congrArg some hsplit)) hblank htrimmed hmargin
    hwidth hcolumn hlength
  simpa only [String.append_assoc] using hrows

theorem markerRows_ne_empty (d : Document) (width : Nat) (m : Marker) :
    markerRows d width m ≠ "" := by
  intro h
  have hlist := congrArg String.toList h
  simp [markerRows] at hlist

theorem join_markerRows_eq_empty_iff {d : Document} {width : Nat} {markers : List Marker} :
    String.join (markers.map (markerRows d width)) = "" ↔ markers = [] := by
  rw [← String.toList_eq_nil_iff, String.toList_join, List.flatMap_eq_nil_iff]
  constructor
  · intro h
    refine List.eq_nil_iff_forall_not_mem.mpr fun m hm => ?_
    have hempty := h _ (List.mem_map_of_mem hm)
    exact markerRows_ne_empty d width m (String.toList_eq_nil_iff.mp hempty)
  · rintro rfl text htext
    exact absurd htext List.not_mem_nil

/-! ## Order -/

theorem line_le_trans (a b c : Marker) (hab : decide (a.line ≤ b.line) = true)
    (hbc : decide (b.line ≤ c.line) = true) : decide (a.line ≤ c.line) = true := by
  rw [decide_eq_true_eq] at hab hbc ⊢
  exact Nat.le_trans hab hbc

theorem line_le_total (a b : Marker) :
    (decide (a.line ≤ b.line) || decide (b.line ≤ a.line)) = true := by
  rw [Bool.or_eq_true, decide_eq_true_eq, decide_eq_true_eq]
  exact Nat.le_total a.line b.line

theorem byLine_perm (markers : List Marker) : (byLine markers).Perm markers :=
  List.mergeSort_perm _ _

theorem byLine_pairwise (markers : List Marker) :
    (byLine markers).Pairwise fun a b => a.line ≤ b.line := by
  have hsorted := List.pairwise_mergeSort line_le_trans line_le_total markers
  simpa only [byLine, decide_eq_true_eq] using hsorted

theorem filter_byLine (markers : List Marker) (line : Nat) :
    (byLine markers).filter (·.line == line) = markers.filter (·.line == line) := by
  have hsame : (markers.filter (·.line == line)).Pairwise
      fun a b => decide (a.line ≤ b.line) = true := by
    refine List.pairwise_of_forall_mem_list fun a ha b hb => ?_
    have hfirst := beq_iff_eq.mp (List.mem_filter.mp ha).2
    have hsecond := beq_iff_eq.mp (List.mem_filter.mp hb).2
    rw [hfirst, hsecond]
    exact decide_eq_true (Nat.le_refl line)
  have hkept : (markers.filter (·.line == line)).Sublist (byLine markers) :=
    List.sublist_mergeSort line_le_trans line_le_total hsame List.filter_sublist
  -- the markers on the line are as many before as after, so none stands between them
  have hfiltered := hkept.filter (·.line == line)
  simp only [List.filter_filter, Bool.and_self] at hfiltered
  exact (hfiltered.eq_of_length ((byLine_perm markers).filter _).length_eq.symm).symm

end Terminal

/-! ## Runs of the ledger -/

/--
Whether an operation may be carried out for a terminal with this document: what it marks under
the name of the document is the document as it stands, and its line can be named.
-/
def Ledger.Operation.Suits (d : Document) : Ledger.Operation → Prop
  | .apply other line _ _ _ => line ≤ maxLine ∧ (other.id = d.id → other = d)
  | _ => True

/-- Each marker of the document stands on a line that it counts. -/
theorem Ledger.Runs.line_of_mem_rendered {operations : List Ledger.Operation} {l : Ledger}
    {log : List HostEvent} (h : Ledger.Runs operations l log) {d : Document}
    (hsuits : ∀ operation ∈ operations, operation.Suits d) {m : Marker}
    (hm : m ∈ l.rendered d.id) : (d.line? m.line).isSome = true ∧ m.line ≤ d.lineCount := by
  rw [h.rendered_eq, Ledger.accepted] at hm
  obtain ⟨operation, hoperation, hmarker⟩ := List.mem_filterMap.mp hm
  have hsuit := hsuits operation ((List.rtakeWhile_suffix _ _).subset hoperation)
  cases operation with
  | clear document => cases hmarker
  | clearAll => cases hmarker
  | apply other line suggestion severity color =>
      rw [Ledger.Operation.marker?] at hmarker
      split at hmarker
      · next hid =>
          obtain ⟨text, htext, rfl⟩ := Option.map_eq_some_iff.mp hmarker
          obtain ⟨hle, hsame⟩ := hsuit
          rw [hsame hid] at htext
          have hsome : (d.line? line).isSome = true := Option.isSome_of_eq_some htext
          have hcounted := (Document.hasLine_iff hle).mpr hsome
          rw [Document.hasLine, Bool.and_eq_true, decide_eq_true_eq, decide_eq_true_eq] at hcounted
          exact ⟨hsome, hcounted.2⟩
      · cases hmarker

/--
After every run of the ledger a terminal that follows it prints two rows for each marker that
the ledger has for its document, each marker once, by line, and those on one line in the order
in which they were made.  It prints nothing exactly when there is no marker.
-/
theorem Ledger.Runs.printed {operations : List Ledger.Operation} {l : Ledger}
    {log : List HostEvent} (h : Ledger.Runs operations l log) {d : Document}
    (hsuits : ∀ operation ∈ operations, operation.Suits d) :
    let text := Terminal.markers d (Display.replay {} log)
    (∃ markers rows, text = String.join rows ∧ List.Forall₂ (Terminal.Prints d) markers rows ∧
      markers.Perm (l.rendered d.id) ∧ (markers.Pairwise fun a b => a.line ≤ b.line) ∧
      ∀ line, markers.filter (·.line == line) = (l.rendered d.id).filter (·.line == line)) ∧
    (text = "" ↔ l.rendered d.id = []) := by
  intro text
  have htext : text = String.join ((Terminal.byLine (l.rendered d.id)).map
      (Terminal.markerRows d (toString d.lineCount).length)) := by
    show Terminal.markers d (Display.replay {} log) = _
    rw [Terminal.markers, h.sound.mirrors d.id]
  have hperm := Terminal.byLine_perm (l.rendered d.id)
  refine ⟨⟨_, _, htext, ?_, hperm, Terminal.byLine_pairwise _, Terminal.filter_byLine _⟩, ?_⟩
  · rw [List.forall₂_map_right_iff, List.forall₂_same]
    intro m hm
    obtain ⟨hline, hcount⟩ := h.line_of_mem_rendered hsuits (hperm.mem_iff.mp hm)
    exact Terminal.prints_markerRows hline hcount
  · rw [htext, Terminal.join_markerRows_eq_empty_iff, ← List.length_eq_zero_iff, hperm.length_eq,
      List.length_eq_zero_iff]

/--
The terminal's document has ten lines, and two markers share its second one, which ends in
blanks; a marker of another document, one that was cleared away and one that was refused are not
printed.
-/
theorem Ledger.Runs.printed_tenLines :
    let d : Document := ⟨"main.rs", ["a", "  b\t "] ++ List.replicate 8 "c", none⟩
    let other : Document := ⟨"other.rs", ["x"], none⟩
    let operations : List Ledger.Operation :=
      [.apply d 1 "old" .red "red", .clear "main.rs", .apply d 10 "last" .green "green",
        .apply d 2 "first" .red "red", .apply other 1 "other" .red "red",
        .apply d 2 "second" .yellow "y", .apply d 11 "beyond" .red "red"]
    let text := " 2 |   b\n   | [red] first\n 2 |   b\n   | [yellow] second\n" ++
      "10 | c\n   | [green] last\n"
    (∀ operation ∈ operations, operation.Suits d) ∧
    ∃ l log, Ledger.Runs operations l log ∧ Terminal.markers d (Display.replay {} log) = text ∧
      ∃ markers rows, text = String.join rows ∧ List.Forall₂ (Terminal.Prints d) markers rows ∧
        markers.Perm (l.rendered "main.rs") := by
  intro d other operations text
  let old : Marker := ⟨.red, "old", "red", ⟨1, 0, 1⟩⟩
  let last : Marker := ⟨.green, "last", "green", ⟨10, 0, 1⟩⟩
  let first : Marker := ⟨.red, "first", "red", ⟨2, 2, 5⟩⟩
  let beside : Marker := ⟨.red, "other", "red", ⟨1, 0, 1⟩⟩
  let second : Marker := ⟨.yellow, "second", "y", ⟨2, 2, 5⟩⟩
  let l₁ := Ledger.add {} "main.rs" last
  let l₂ := Ledger.add l₁ "main.rs" first
  let l₃ := Ledger.add l₂ "other.rs" beside
  let l₄ := Ledger.add l₃ "main.rs" second
  let log : List HostEvent :=
    [.setMarkers "main.rs" [old], .clearMarkers "main.rs", .setMarkers "main.rs" [last],
      .setMarkers "main.rs" [last, first], .setMarkers "other.rs" [beside],
      .setMarkers "main.rs" [last, first, second]]
  have hsuits : ∀ operation ∈ operations, operation.Suits d := by
    intro operation hoperation
    simp only [operations, List.mem_cons, List.not_mem_nil, or_false] at hoperation
    rcases hoperation with rfl | rfl | rfl | rfl | rfl | rfl | rfl
    · exact ⟨by decide, fun _ => rfl⟩
    · trivial
    · exact ⟨by decide, fun _ => rfl⟩
    · exact ⟨by decide, fun _ => rfl⟩
    · exact ⟨by decide, fun hid => absurd hid (by decide)⟩
    · exact ⟨by decide, fun _ => rfl⟩
    · exact ⟨by decide, fun _ => rfl⟩
  have hold : Ledger.apply {} d 1 "old" .red "red" =
      .ok ⟨Ledger.add {} "main.rs" old, old, [.setMarkers "main.rs" [old]]⟩ := rfl
  have hlast : Ledger.apply {} d 10 "last" .green "green" =
      .ok ⟨l₁, last, [.setMarkers "main.rs" [last]]⟩ := rfl
  have hfirst : Ledger.apply l₁ d 2 "first" .red "red" =
      .ok ⟨l₂, first, [.setMarkers "main.rs" [last, first]]⟩ := rfl
  have hbeside : Ledger.apply l₂ other 1 "other" .red "red" =
      .ok ⟨l₃, beside, [.setMarkers "other.rs" [beside]]⟩ := rfl
  have hsecond : Ledger.apply l₃ d 2 "second" .yellow "y" =
      .ok ⟨l₄, second, [.setMarkers "main.rs" [last, first, second]]⟩ := rfl
  have hbeyond : Ledger.apply l₄ d 11 "beyond" .red "red" = .error ⟨11, 10⟩ := rfl
  have hcleared : Ledger.Runs [.apply d 1 "old" .red "red", .clear "main.rs"] {}
      [.setMarkers "main.rs" [old], .clearMarkers "main.rs"] :=
    (Ledger.Runs.empty.step (.applied hold)).step (.cleared "main.rs")
  have hmarked := (hcleared.step (.applied hlast)).step (.applied hfirst)
  have hruns : Ledger.Runs operations l₄ log :=
    ((hmarked.step (.applied hbeside)).step (.applied hsecond)).step (.rejected hbeyond)
  obtain ⟨⟨markers, rows, hjoined, hprints, hperm, -, -⟩, -⟩ := hruns.printed hsuits
  have hsorted : Terminal.byLine [last, first, second] = [first, second, last] := by
    simp [Terminal.byLine, List.mergeSort, Marker.line, last, first, second]
  have htext : Terminal.markers d (Display.replay {} log) = text := by
    show String.join ((Terminal.byLine [last, first, second]).map _) = text
    rw [hsorted]
    decide +kernel
  exact ⟨hsuits, l₄, log, hruns, htext, markers, rows, htext.symm.trans hjoined, hprints, hperm⟩

end Marginalia
