import Marginalia.Review

/-!
# Markers of a document

How each change of the ledger shows in the markers of any document, which marker a record
of a review makes, and what the host is told of it.
-/

namespace Marginalia

theorem find?_filter_ne {α : Type} (entries : List (String × α)) (key id : String) :
    ((entries.filter fun entry => entry.1 != key).find? fun entry => entry.1 == id) =
      if key = id then none else entries.find? fun entry => entry.1 == id := by
  induction entries with
  | nil => simp
  | cons entry entries ih =>
      rw [List.filter_cons]
      by_cases hentry : entry.1 = key
      · rw [if_neg (by simp [hentry]), ih, List.find?_cons]
        by_cases hid : key = id
        · rw [if_pos hid, if_pos hid]
        · rw [if_neg hid, if_neg hid, beq_eq_false_iff_ne.mpr (hentry ▸ hid)]
      · rw [if_pos (by simp [hentry]), List.find?_cons, List.find?_cons]
        by_cases hid : entry.1 = id
        · have hne : key ≠ id := fun h => hentry (hid.trans h.symm)
          rw [beq_iff_eq.mpr hid, if_neg hne]
        · rw [beq_eq_false_iff_ne.mpr hid]
          exact ih

namespace Ledger

theorem shelf?_cons (entry : String × Shelf) (shelves : List (String × Shelf)) (id : String) :
    shelf? ⟨entry :: shelves⟩ id =
      if entry.1 = id then some entry.2 else shelf? ⟨shelves⟩ id := by
  rw [shelf?, List.find?_cons]
  by_cases h : entry.1 = id
  · rw [if_pos h, beq_iff_eq.mpr h]
    rfl
  · rw [if_neg h, beq_eq_false_iff_ne.mpr h]
    rfl

theorem shelf?_put (shelves : List (String × Shelf)) (document : String) (shelf : Shelf)
    (id : String) :
    shelf? ⟨put shelves document shelf⟩ id =
      if document = id then some shelf else shelf? ⟨shelves⟩ id := by
  induction shelves with
  | nil =>
      rw [put, shelf?_cons]
  | cons entry shelves ih =>
      rw [put]
      by_cases hentry : entry.1 = document
      · rw [if_pos (beq_iff_eq.mpr hentry), shelf?_cons, shelf?_cons, hentry]
        split
        · rfl
        · rfl
      · rw [if_neg (fun h => hentry (beq_iff_eq.mp h)), shelf?_cons, ih, shelf?_cons]
        by_cases hid : entry.1 = id
        · have hne : document ≠ id := fun h => hentry (hid.trans h.symm)
          rw [if_pos hid, if_neg hne, if_pos hid]
        · rw [if_neg hid, if_neg hid]

theorem shelf?_filter (shelves : List (String × Shelf)) (document id : String) :
    shelf? ⟨shelves.filter fun entry => entry.1 != document⟩ id =
      if document = id then none else shelf? ⟨shelves⟩ id := by
  rw [shelf?, find?_filter_ne]
  split
  · rfl
  · rfl

theorem shelf?_clear (l : Ledger) (document id : String) :
    (l.clear document).1.shelf? id = if document = id then none else l.shelf? id := by
  unfold clear
  split
  · next hnone =>
      split
      · next h => rw [← h, hnone]
      · rfl
  · exact shelf?_filter l.shelves document id

theorem shelf?_clearEach (l : Ledger) (documents : List String) (id : String) :
    (l.clearEach documents).1.shelf? id = if id ∈ documents then none else l.shelf? id := by
  induction documents generalizing l with
  | nil => simp [clearEach]
  | cons document documents ih =>
      rw [clearEach]
      dsimp only
      rw [ih, shelf?_clear]
      by_cases hlater : id ∈ documents
      · rw [if_pos hlater, if_pos (List.mem_cons_of_mem document hlater)]
      · rw [if_neg hlater]
        by_cases hid : document = id
        · rw [if_pos hid, if_pos (by simp [hid])]
        · rw [if_neg hid, if_neg (by simp [hlater, Ne.symm hid])]

theorem rendered_clearAll (l : Ledger) (id : String) : l.clearAll.1.rendered id = [] := by
  have hnone : l.clearAll.1.shelf? id = none := by
    rw [clearAll, shelf?_clearEach]
    split
    · rfl
    · next hmem =>
        rw [shelf?, Option.map_eq_none_iff, List.find?_eq_none]
        intro entry hentry hid
        exact hmem (List.mem_map.mpr ⟨entry, hentry, beq_iff_eq.mp hid⟩)
  rw [rendered, hnone]
  rfl

def add (l : Ledger) (document : String) (m : Marker) : Ledger :=
  ⟨put l.shelves document (((l.shelf? document).getD {}).add m)⟩

theorem apply_eq_add {l : Ledger} {d : Document} {line : Nat} {text suggestion color : String}
    {severity : Severity} (hline : d.line? line = some text) :
    let m : Marker := ⟨severity, suggestion, color, .ofLine line text⟩
    l.apply d line suggestion severity color =
      .ok ⟨l.add d.id m, m, [.setMarkers d.id (l.rendered d.id ++ [m])]⟩ := by
  rw [apply, hline]
  rfl

theorem eq_add_of_apply {l : Ledger} {d : Document} {line : Nat} {suggestion color : String}
    {severity : Severity} {a : Applied}
    (ha : l.apply d line suggestion severity color = .ok a) :
    ∃ text, d.line? line = some text ∧
      let m : Marker := ⟨severity, suggestion, color, .ofLine line text⟩
      a = ⟨l.add d.id m, m, [.setMarkers d.id (l.rendered d.id ++ [m])]⟩ := by
  cases hline : d.line? line with
  | none =>
      rw [apply, hline] at ha
      cases ha
  | some text =>
      rw [apply_eq_add hline] at ha
      cases ha
      exact ⟨text, rfl, rfl⟩

theorem line?_eq_none_of_apply {l : Ledger} {d : Document} {line : Nat}
    {suggestion color : String} {severity : Severity} {e : OutOfRange}
    (he : l.apply d line suggestion severity color = .error e) :
    d.line? line = none ∧ e = ⟨line, d.lineCount⟩ := by
  cases hline : d.line? line with
  | none =>
      rw [apply, hline] at he
      cases he
      exact ⟨rfl, rfl⟩
  | some text =>
      rw [apply_eq_add hline] at he
      cases he

theorem shelf?_add (l : Ledger) (document : String) (m : Marker) (id : String) :
    (l.add document m).shelf? id =
      if document = id then some (((l.shelf? document).getD {}).add m) else l.shelf? id :=
  shelf?_put l.shelves document _ id

theorem rendered_add (l : Ledger) (document : String) (m : Marker) (id : String) :
    (l.add document m).rendered id =
      l.rendered id ++ if document = id then [m] else [] := by
  rw [rendered, shelf?_add]
  by_cases hid : document = id
  · rw [if_pos hid, if_pos hid, ← hid]
    rfl
  · rw [if_neg hid, if_neg hid, List.append_nil]
    rfl

def addAll (l : Ledger) (document : String) (markers : List Marker) : Ledger :=
  markers.foldl (fun l m => l.add document m) l

theorem rendered_addAll (l : Ledger) (document : String) (markers : List Marker) (id : String) :
    (l.addAll document markers).rendered id =
      l.rendered id ++ if document = id then markers else [] := by
  induction markers generalizing l with
  | nil => simp [addAll]
  | cons m markers ih =>
      rw [addAll, List.foldl_cons, ← addAll, ih, rendered_add, List.append_assoc]
      by_cases hid : document = id
      · rw [if_pos hid, if_pos hid, if_pos hid, List.singleton_append]
      · rw [if_neg hid, if_neg hid, if_neg hid, List.append_nil]

theorem shelf?_addAll_of_ne (l : Ledger) {document id : String} (hne : document ≠ id)
    (markers : List Marker) : (l.addAll document markers).shelf? id = l.shelf? id := by
  induction markers generalizing l with
  | nil => rfl
  | cons m markers ih =>
      rw [addAll, List.foldl_cons, ← addAll, ih, shelf?_add, if_neg hne]

end Ledger

def HostEvent.announcements (document : String) : List Marker → List Marker → List HostEvent
  | _, [] => []
  | shown, m :: markers =>
      .setMarkers document (shown ++ [m]) :: announcements document (shown ++ [m]) markers

theorem HostEvent.announcements_append (document : String) (shown markers more : List Marker) :
    announcements document shown (markers ++ more) =
      announcements document shown markers ++ announcements document (shown ++ markers) more := by
  induction markers generalizing shown with
  | nil => rw [List.append_nil]; rfl
  | cons m markers ih =>
      rw [List.cons_append, announcements, ih, announcements, List.append_assoc]
      rfl

theorem Document.hasLine_of_line? {d : Document} {n : Nat} (hline : (d.line? n).isSome = true)
    (hn : n ≤ maxLine) : d.hasLine n = true := by
  unfold line? at hline
  split at hline
  · cases hline
  · have hlength : n - 1 < d.lines.length := by simpa using hline
    simp only [hasLine, lineCount, Bool.and_eq_true, decide_eq_true_eq, Nat.le_min]
    omega

namespace Review

/-- The marker that a record makes, if the signal selects it and the document has its line. -/
def marker? (review : Review) (record : Record) : Option Marker :=
  if review.signal.renders record.severity then do
    let severity ← record.severity.severity?
    let text ← review.document.line? record.line
    return ⟨severity, record.suggestion.text, review.color, .ofLine record.line text⟩
  else none

/-- A marker has the severity that is shown, the color of the review and a line of the document. -/
theorem marker?_eq_some {review : Review} {record : Record} {m : Marker}
    (h : review.marker? record = some m) :
    review.signal = .display m.severity ∧ m.color = review.color ∧ m.line = record.line ∧
      (review.document.line? m.line).isSome = true := by
  unfold marker? at h
  split at h
  · next hrenders =>
      cases hseverity : record.severity.severity? with
      | none => simp [hseverity] at h
      | some severity =>
          cases hline : review.document.line? record.line with
          | none => simp [hseverity, hline] at h
          | some text =>
              simp only [hseverity, hline, Option.bind_eq_bind, Option.bind_some,
                Option.pure_def, Option.some.injEq] at h
              subst h
              refine ⟨?_, rfl, rfl, by simp [Marker.line, MarkerRange.ofLine, hline]⟩
              cases hsignal : review.signal with
              | display active =>
                  rw [hsignal, Signal.renders, hseverity, beq_iff_eq] at hrenders
                  rw [Option.some.inj hrenders]
              | initialLoad => simp [hsignal, Signal.renders] at hrenders
  · cases h

theorem take_eq (review : Review) (p : Progress) (record : Record) :
    review.take p record =
      { tally := p.tally.count record.severity
        ledger := p.ledger.addAll review.document.id (review.marker? record).toList
        events := p.events ++ HostEvent.announcements review.document.id
          (p.ledger.rendered review.document.id) (review.marker? record).toList } := by
  simp only [take, marker?]
  split
  · cases hseverity : record.severity.severity? with
    | none => simp [Ledger.addAll, HostEvent.announcements]
    | some severity =>
        dsimp only
        cases hline : review.document.line? record.line with
        | none => simp [Ledger.apply, hline, Ledger.addAll, HostEvent.announcements]
        | some text =>
            rw [Ledger.apply_eq_add hline]
            rfl
  · simp [Ledger.addAll, HostEvent.announcements]

theorem rendered_take (review : Review) (p : Progress) (record : Record) (id : String) :
    (review.take p record).ledger.rendered id =
      p.ledger.rendered id ++
        if review.document.id = id then (review.marker? record).toList else [] := by
  rw [take_eq, Ledger.rendered_addAll]

end Review

end Marginalia
