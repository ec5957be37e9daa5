import Mathlib.Data.List.DropRight
import Mathlib.Logic.Function.Basic
import Marginalia.Annotation
import Marginalia.Proofs.Ledger
import Marginalia.Proofs.Numbering

/-!
# What a ledger holds

A ledger is a map from documents to the markers that were made for them since they were last
cleared.  A shelf also notes places by line, and these stay right while markers are added
behind the others: the place that is noted for a line is that of the last marker on it.
-/

namespace Marginalia

/-! ## Places on a shelf -/

def Marker.lastOn? (markers : List Marker) (line : Nat) : Option Marker :=
  (markers.filter fun m => m.line == line).getLast?

theorem Marker.lastOn?_concat (markers : List Marker) (m : Marker) (line : Nat) :
    lastOn? (markers ++ [m]) line = if m.line = line then some m else lastOn? markers line := by
  rw [lastOn?, List.filter_append]
  by_cases hline : m.line = line
  · have hkept : [m].filter (fun m => m.line == line) = [m] := by simp [hline]
    rw [if_pos hline, hkept, List.getLast?_concat]
  · have hdropped : [m].filter (fun m => m.line == line) = [] := by simp [hline]
    rw [if_neg hline, hdropped, List.append_nil, lastOn?]

namespace Shelf

/-- Whether each place that is noted is one of a marker, and the place for a line the last. -/
structure Indexed (s : Shelf) : Prop where
  inside : ∀ entry ∈ s.latest, entry.2 < s.rendered.length
  last : ∀ line, s.markerAt? line = Marker.lastOn? s.rendered line

theorem Indexed.empty : Indexed {} :=
  ⟨nofun, fun _ => rfl⟩

/-- A marker behind the others moves none of them, so what is noted for other lines stays. -/
theorem Indexed.add {s : Shelf} (h : s.Indexed) (m : Marker) : (s.add m).Indexed := by
  have hlength : (s.add m).rendered.length = s.rendered.length + 1 := by simp [Shelf.add]
  refine ⟨fun entry hentry => ?_, fun line => ?_⟩
  · rw [hlength]
    cases hentry with
    | head => exact Nat.lt_succ_self _
    | tail _ hentry => exact Nat.lt_succ_of_lt (h.inside entry hentry)
  · have hlast := h.last line
    simp only [Shelf.markerAt?, Shelf.add, List.find?_cons] at hlast ⊢
    rw [Marker.lastOn?_concat, ← hlast]
    by_cases hline : m.line = line
    · simp [hline]
    · rw [if_neg hline, beq_eq_false_iff_ne.mpr hline]
      cases hfind : s.latest.find? fun entry => entry.1 == line with
      | none => rfl
      | some entry =>
          have hinside := h.inside entry (List.mem_of_find?_eq_some hfind)
          exact List.getElem?_append_left hinside

end Shelf

namespace Ledger

variable {l l' : Ledger} {log events : List HostEvent}

theorem markerAt?_eq (l : Ledger) (id : String) (line : Nat) :
    l.markerAt? id line = ((l.shelf? id).getD {}).markerAt? line := by
  rw [markerAt?]
  cases l.shelf? id with
  | none => rfl
  | some shelf => rfl

/-! ## One operation -/

def Operation.clears (id : String) : Operation → Bool
  | .apply .. => false
  | .clear document => document == id
  | .clearAll => true

def Operation.marker? (id : String) : Operation → Option Marker
  | .apply d line suggestion severity color =>
      if d.id = id then
        (d.line? line).map fun text => ⟨severity, suggestion, color, .ofLine line text⟩
      else none
  | _ => none

/-- All that an operation does to the shelf of a document. -/
theorem Performs.shelf?_eq {operation : Operation} (h : l.Performs operation l' events)
    (id : String) :
    l'.shelf? id =
      if operation.clears id then none
      else match operation.marker? id with
        | none => l.shelf? id
        | some m => some (((l.shelf? id).getD {}).add m) := by
  cases h with
  | @applied d line suggestion color severity a ha =>
      obtain ⟨text, hline, rfl⟩ := eq_add_of_apply ha
      dsimp only
      rw [shelf?_add]
      simp only [Operation.clears, Operation.marker?, hline, Bool.false_eq_true, if_false]
      by_cases hid : d.id = id
      · rw [if_pos hid, if_pos hid, hid]
        rfl
      · rw [if_neg hid, if_neg hid]
  | @rejected d line suggestion color severity e he =>
      have hline := (line?_eq_none_of_apply he).1
      simp [Operation.clears, Operation.marker?, hline]
  | cleared document =>
      rw [shelf?_clear]
      simp only [Operation.clears, Operation.marker?, beq_iff_eq]
  | @clearedAll order horder =>
      rw [shelf?_clearEach]
      simp only [Operation.clears, if_true]
      by_cases hid : id ∈ order
      · rw [if_pos hid]
      · rw [if_neg hid, Option.eq_none_iff_forall_ne_some]
        intro shelf hshelf
        exact hid (horder.mem_iff.mpr (mem_documents_iff.mpr ⟨shelf, hshelf⟩))

theorem Performs.rendered_eq {operation : Operation} (h : l.Performs operation l' events)
    (id : String) :
    l'.rendered id =
      if operation.clears id then [] else l.rendered id ++ (operation.marker? id).toList := by
  rw [rendered, h.shelf?_eq id]
  split
  · rfl
  · cases operation.marker? id with
    | none => exact (List.append_nil _).symm
    | some m => rfl

/-- Whether the places by line are right on every shelf. -/
def Indexed (l : Ledger) : Prop :=
  ∀ id, ((l.shelf? id).getD {}).Indexed

theorem Performs.indexed {operation : Operation} (h : l.Performs operation l' events)
    (hindexed : l.Indexed) : l'.Indexed := by
  intro id
  rw [h.shelf?_eq id]
  split
  · exact .empty
  · cases operation.marker? id with
    | none => exact hindexed id
    | some m => exact (hindexed id).add m

/-! ## Runs -/

/-- The markers that operations made for a document since they last cleared it, in order. -/
def accepted (operations : List Operation) (id : String) : List Marker :=
  (operations.rtakeWhile fun operation => !operation.clears id).filterMap (·.marker? id)

theorem accepted_concat (operations : List Operation) (operation : Operation) (id : String) :
    accepted (operations ++ [operation]) id =
      if operation.clears id then []
      else accepted operations id ++ (operation.marker? id).toList := by
  by_cases hclears : operation.clears id = true
  · rw [if_pos hclears, accepted, List.rtakeWhile_concat_neg _ _ _ (by simp [hclears])]
    rfl
  · rw [if_neg hclears, accepted, List.rtakeWhile_concat_pos _ _ _ (by simpa using hclears),
      List.filterMap_append, accepted]
    cases hm : operation.marker? id with
    | none => simp [hm]
    | some m => simp [hm]

theorem Runs.indexed {operations : List Operation} (h : Runs operations l log) : l.Indexed := by
  induction h with
  | empty => exact fun _ => .empty
  | step _ hperforms ih => exact hperforms.indexed ih

theorem Runs.rendered_eq {operations : List Operation} (h : Runs operations l log)
    (id : String) : l.rendered id = accepted operations id := by
  induction h with
  | empty => rfl
  | step _ hperforms ih => rw [hperforms.rendered_eq, accepted_concat, ih]

/-- Whether a ledger answers all questions as a map from documents to markers does. -/
structure Represents (l : Ledger) (markers : String → List Marker) : Prop where
  rendered : ∀ id, l.rendered id = markers id
  markerAt? : ∀ id line, l.markerAt? id line = Marker.lastOn? (markers id) line
  annotation : ∀ id line,
    Annotation.at? l id line = (Marker.lastOn? (markers id) line).map .ofMarker
  count : ∀ id severity, l.count id severity = (markers id).countP (·.severity == severity)
  isEmpty : ∀ id, l.isEmpty id = true ↔ markers id = []

theorem Indexed.represents (h : l.Indexed) {markers : String → List Marker}
    (hrendered : ∀ id, l.rendered id = markers id) : l.Represents markers := by
  have hlast : ∀ id line, l.markerAt? id line = Marker.lastOn? (markers id) line := by
    intro id line
    rw [markerAt?_eq, (h id).last, ← hrendered id, Ledger.rendered]
  refine ⟨hrendered, hlast, fun id line => ?_, fun id severity => ?_, fun id => ?_⟩
  · unfold Annotation.at?
    rw [hlast]
  · rw [Ledger.count, hrendered]
  · rw [Ledger.isEmpty, hrendered, List.isEmpty_iff]

end Ledger

/-! ## The range of a marker -/

/--
Whether a range covers a line from the first character that is not blank, or from the end if
all are, up to the end; columns stop counting where line numbers do.
-/
structure MarkerRange.Covers (r : MarkerRange) (line : Nat) (text : String) : Prop where
  line : r.line = line
  start : ∃ indent rest, text.toList = indent ++ rest ∧ (∀ c ∈ indent, Text.isBlank c = true) ∧
    (∀ c ∈ rest.head?, Text.isBlank c = false) ∧ r.startColumn = min indent.length maxLine
  stop : r.endColumn = min text.length maxLine

theorem MarkerRange.covers_ofLine (line : Nat) (text : String) :
    (ofLine line text).Covers line text := by
  refine ⟨rfl, ⟨text.toList.takeWhile Text.isBlank, text.toList.dropWhile Text.isBlank,
    List.takeWhile_append_dropWhile.symm, fun c hc => List.mem_takeWhile_imp hc, ?_, ?_⟩, ?_⟩
  · intro c hc
    have hhead := List.head?_dropWhile_not Text.isBlank text.toList
    rw [Option.mem_def.mp hc] at hhead
    exact hhead
  · rw [List.takeWhile_eq_take_findIdx_not, List.length_take,
      Nat.min_eq_left List.findIdx_le_length]
    rfl
  · rw [ofLine, String.length_toList]

namespace Ledger

variable {operations : List Operation} {l : Ledger} {log : List HostEvent}

/-- A line that can be named is marked exactly when the document counts it. -/
theorem exists_apply_iff_le (l : Ledger) (d : Document) (line : UInt32) (suggestion : String)
    (severity : Severity) (color : String) :
    (∃ a, l.apply d line.toNat suggestion severity color = .ok a) ↔
      1 ≤ line.toNat ∧ line.toNat ≤ d.lineCount := by
  have hline : line.toNat ≤ maxLine := Nat.le_of_lt_succ line.toNat_lt
  rw [Document.exists_apply_iff, ← Document.hasLine_iff hline]
  simp [Document.hasLine]

/-- A further operation changes a map that the ledger represents in what it clears or adds. -/
theorem Runs.represents_performs (h : Runs operations l log) {operation : Operation}
    {l' : Ledger} {events : List HostEvent} (hperforms : l.Performs operation l' events)
    {markers : String → List Marker}
    (hmarkers : ∀ id, markers id =
      if operation.clears id then []
      else accepted operations id ++ (operation.marker? id).toList) :
    l'.Represents markers := by
  apply (hperforms.indexed h.indexed).represents
  intro id
  rw [hperforms.rendered_eq, h.rendered_eq, hmarkers]

theorem Runs.represents_apply (h : Runs operations l log) {d : Document} {line : Nat}
    {suggestion color : String} {severity : Severity} {a : Applied}
    (ha : l.apply d line suggestion severity color = .ok a) :
    a.ledger.Represents
      (Function.update (accepted operations) d.id (accepted operations d.id ++ [a.marker])) := by
  apply h.represents_performs (.applied ha)
  intro id
  obtain ⟨text, hline, rfl⟩ := eq_add_of_apply ha
  by_cases hid : id = d.id
  · simp [hid, Operation.clears, Operation.marker?, hline]
  · simp [hid, Ne.symm hid, Operation.clears, Operation.marker?]

theorem Runs.represents_clear (h : Runs operations l log) (document : String) :
    (l.clear document).1.Represents (Function.update (accepted operations) document []) := by
  apply h.represents_performs (.cleared document)
  intro id
  by_cases hid : id = document
  · simp [hid, Operation.clears]
  · simp [hid, Ne.symm hid, Operation.clears, Operation.marker?]

/--
After every run a ledger answers as the map from documents to the markers that were accepted
for them since they were last cleared.  A line is accepted exactly when the document counts
it, and puts one marker, which covers the line, behind those of its document; a line that is
refused changes nothing and the host is told nothing.  To clear a document empties its list.
No other document is changed by either.
-/
theorem runs_accepted (h : Runs operations l log) :
    l.Represents (accepted operations) ∧
    (∀ (d : Document) (line : UInt32) (suggestion : String) (severity : Severity)
        (color : String),
      let applied := l.apply d line.toNat suggestion severity color
      ((∃ a, applied = .ok a) ↔ 1 ≤ line.toNat ∧ line.toNat ≤ d.lineCount) ∧
      (∀ a, applied = .ok a →
        (∃ text range, d.line? line.toNat = some text ∧ range.Covers line.toNat text ∧
          a.marker = ⟨severity, suggestion, color, range⟩) ∧
        a.ledger.Represents
          (Function.update (accepted operations) d.id (accepted operations d.id ++ [a.marker]))) ∧
      ∀ e, applied = .error e → e = ⟨line.toNat, d.lineCount⟩ ∧
        ∀ l' events, l.Performs (.apply d line.toNat suggestion severity color) l' events →
          l' = l ∧ events = []) ∧
    (∀ document,
      (l.clear document).1.Represents (Function.update (accepted operations) document [])) ∧
    ∀ l' events, l.Performs .clearAll l' events → l'.Represents fun _ => [] := by
  refine ⟨h.indexed.represents h.rendered_eq, ?_, h.represents_clear, ?_⟩
  · intro d line suggestion severity color applied
    refine ⟨exists_apply_iff_le l d line suggestion severity color, ?_, ?_⟩
    · intro a ha
      refine ⟨?_, h.represents_apply ha⟩
      obtain ⟨text, hline, rfl⟩ := eq_add_of_apply ha
      exact ⟨text, _, hline, MarkerRange.covers_ofLine line.toNat text, rfl⟩
    · intro e he
      refine ⟨(line?_eq_none_of_apply he).2, ?_⟩
      intro l' events hperforms
      cases hperforms with
      | applied ha => cases he.symm.trans ha
      | rejected _ => exact ⟨rfl, rfl⟩
  · intro l' events hperforms
    exact h.represents_performs hperforms fun id => rfl

/--
A document is marked, cleared and marked again, one of its lines twice and one that it does
not have, with a marker for another document in between.
-/
theorem runs_accepted_again :
    let d : Document := { id := "main.rs", lines := ["fn main()", "  run();", "   "] }
    let other : Document := { id := "other.rs", lines := ["mod main;", "mod run;"] }
    let operations : List Operation :=
      [.apply d 2 "old" .red "red", .clear "main.rs", .apply d 3 "blank" .green "green",
        .apply d 2 "a" .red "red", .apply other 2 "b" .red "red", .apply d 2 "c" .yellow "y",
        .apply d 4 "d" .red "red"]
    let blank : Marker := ⟨.green, "blank", "green", ⟨3, 3, 3⟩⟩
    let a : Marker := ⟨.red, "a", "red", ⟨2, 2, 8⟩⟩
    let c : Marker := ⟨.yellow, "c", "y", ⟨2, 2, 8⟩⟩
    ∃ l log, Runs operations l log ∧ l.rendered "main.rs" = [blank, a, c] ∧
      l.markerAt? "main.rs" 2 = some c ∧ Annotation.at? l "main.rs" 1 = none ∧
      l.count "other.rs" .red = 1 ∧ l.isEmpty "third.rs" = true := by
  intro d other operations blank a c
  have hold : Runs [.apply d 2 "old" .red "red"] _ _ := Runs.empty.step (.applied rfl)
  have hcleared := hold.step (.cleared "main.rs")
  have hblank : Runs (_ ++ [.apply d 3 "blank" .green "green"]) _ _ :=
    hcleared.step (.applied rfl)
  have hmarked : Runs (_ ++ [.apply d 2 "a" .red "red"]) _ _ := hblank.step (.applied rfl)
  have hother : Runs (_ ++ [.apply other 2 "b" .red "red"]) _ _ := hmarked.step (.applied rfl)
  have hagain : Runs (_ ++ [.apply d 2 "c" .yellow "y"]) _ _ := hother.step (.applied rfl)
  have hruns : Runs operations _ _ := hagain.step (.rejected rfl)
  obtain ⟨hanswers, -⟩ := runs_accepted hruns
  refine ⟨_, _, hruns, ?_, ?_, ?_, ?_, ?_⟩
  · exact hanswers.rendered "main.rs"
  · exact hanswers.markerAt? "main.rs" 2
  · exact hanswers.annotation "main.rs" 1
  · exact hanswers.count "other.rs" .red
  · exact (hanswers.isEmpty "third.rs").mpr rfl

end Ledger

end Marginalia
