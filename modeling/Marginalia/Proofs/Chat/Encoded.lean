import Marginalia.Proofs.Chat.Completion
import Marginalia.Proofs.Chat.Layout
import Marginalia.Proofs.Json.Compact

/-!
# Streams of deltas

A service sends its reply as deltas, each in a chunk and each chunk in an event of its own.
What it sends is what a reader hears.
-/

namespace Marginalia

namespace Chat

namespace EventStream

open Json (lookup?)

/-! ## Chunks -/

def IsAbsent (value : Option Json) : Prop :=
  value = none ∨ value = some .null

structure IsChoice (delta : String) (choice : List (String × Json)) : Prop where
  delta : ∃ texts, lookup? choice "delta" = some (.object texts) ∧
    lookup? texts "content" = some (.string delta) ∧ IsAbsent (lookup? texts "refusal")
  finishReason : IsAbsent (lookup? choice "finish_reason")

/-- The members of a chunk with a delta in its one choice, among any others. -/
structure IsChunk (delta : String) (members : List (String × Json)) : Prop where
  choices : ∃ choice, lookup? members "choices" = some (.array [.object choice]) ∧
    IsChoice delta choice
  error : IsAbsent (lookup? members "error")

theorem IsAbsent.optionalText? {value : Option Json} (h : IsAbsent value) :
    Payload.optionalText? value = some none := by
  rcases h with rfl | rfl
  · rfl
  · rfl

theorem optionalText?_string (s : String) :
    Payload.optionalText? (some (.string s)) = some (some s) := rfl

theorem IsAbsent.error? {value : Option Json} (h : IsAbsent value) :
    Payload.error? value = some none := by
  rcases h with rfl | rfl
  · rfl
  · rfl

theorem IsChoice.choice? {delta : String} {choice : List (String × Json)}
    (h : IsChoice delta choice) :
    Payload.choice? (.object choice) = some { content := some delta } := by
  obtain ⟨texts, hdelta, hcontent, hrefusal⟩ := h.delta
  have htexts : Payload.delta? (some (.object texts)) = some (some delta, none) := by
    have hread := hrefusal.optionalText?
    generalize hvalue : lookup? texts "refusal" = refusal at hread
    simp [Payload.delta?, Payload.fields?, hcontent, hvalue, hread, optionalText?_string]
  simp [Payload.choice?, Payload.fields?, hdelta, htexts, h.finishReason.optionalText?]

theorem IsChunk.ofJson? {delta : String} {members : List (String × Json)}
    (h : IsChunk delta members) :
    Payload.ofJson? (.object members) = some { choices := [{ content := some delta }] } := by
  obtain ⟨choice, hchoices, hchoice⟩ := h.choices
  have hlist : Payload.choices? (some (.array [.object choice])) =
      some [{ content := some delta }] := by
    simp [Payload.choices?, hchoice.choice?]
  simp [Payload.ofJson?, Payload.fields?, hchoices, hlist, h.error.error?]

theorem IsChunk.meaning {delta : String} {members : List (String × Json)}
    (h : IsChunk delta members) (hdelta : delta ≠ "") :
    meaningOfJson (.object members) = .chunk [delta] false := by
  have hfragments : Payload.fragments { choices := [{ content := some delta }] } = [delta] := by
    simp [Payload.fragments, Choice.text?, hdelta]
  simp [meaningOfJson, h.ofJson?, hfragments, Payload.finishes]

def leastChunk (delta : String) : List (String × Json) :=
  [("choices", .array [.object
    [("delta", .object [("content", .string delta)]), ("finish_reason", .null)]])]

theorem isChunk_leastChunk (delta : String) : IsChunk delta (leastChunk delta) :=
  ⟨⟨_, rfl, ⟨⟨_, rfl, rfl, .inl rfl⟩, .inr rfl⟩⟩, .inl rfl⟩

theorem fits_leastChunk (delta : String) :
    Json.Fits Json.maxDepth (.object (leastChunk delta)) := by
  have hchoice : ∀ depth, Json.Fits (depth + 2)
      (.object [("delta", .object [("content", .string delta)]), ("finish_reason", .null)]) := by
    intro depth
    refine .object (List.forall_mem_cons.mpr ⟨?_, List.forall_mem_singleton.mpr .null⟩)
    exact .object (List.forall_mem_singleton.mpr (.string delta))
  refine .object (List.forall_mem_singleton.mpr ?_)
  exact .array (List.forall_mem_singleton.mpr (hchoice _))

/-! ## Events -/

/-- An event with a delta: a chunk that holds it, and the text of the chunk laid out in lines. -/
structure Encoded where
  delta : String
  nonempty : delta ≠ ""
  members : List (String × Json)
  isChunk : IsChunk delta members
  layout : Layout
  spells : Json.Spells layout.payload (.object members)

theorem not_spells_endMark (v : Json) : ¬ Json.Spells endMark v := by
  intro h
  have hok := Json.parseChars_eq_ok_iff.mpr h
  cases hok

theorem Layout.utf8_event_ne_nil {l : Layout} (h : l.lines ≠ []) : utf8 l.event ≠ [] := by
  obtain ⟨line, lines, hlines⟩ := List.exists_cons_of_ne_nil h
  obtain ⟨text, htext⟩ := joined_cons l.ending line lines
  obtain ⟨b, rest, hbytes, -⟩ := line.startsLine text []
  rw [event, hlines, htext, ← List.append_nil (utf8 _), hbytes]
  exact List.cons_ne_nil b rest

theorem Layout.meaning_event {l : Layout} (h : l.lines ≠ []) {data : List Char}
    (hdata : data? l.event = some data) : meaning (utf8 l.event) = meaningOfData data := by
  have hsome : (utf8 l.event).isEmpty = false := by
    rw [List.isEmpty_eq_false_iff]
    exact Layout.utf8_event_ne_nil h
  have hdecode : Text.Utf8.decode? (utf8 l.event) = some l.event := Text.Utf8.decode?_encode l.event
  simp [meaning, hsome, hdecode, hdata]

namespace Encoded

/-- Any delta in its least chunk, on one line. -/
def least (delta : String) (nonempty : delta ≠ "") (isSpaced hasReturns : Bool) : Encoded where
  delta
  nonempty
  members := leastChunk delta
  isChunk := isChunk_leastChunk delta
  layout :=
    { lines := [.data isSpaced _ (fits_leastChunk delta).not_mem_compact]
      hasReturns }
  spells := (fits_leastChunk delta).spells

theorem lines_ne_nil (e : Encoded) : e.layout.lines ≠ [] :=
  e.layout.lines_ne_nil (e.layout.pieces_ne_nil e.spells)

theorem meanings_append (e : Encoded) (rest : List UInt8) :
    meanings (e.layout.bytes ++ rest) = .chunk [e.delta] false :: meanings rest := by
  obtain ⟨data, hdata, hspells⟩ := e.layout.exists_data_of_spells e.spells
  have hmark : data ≠ endMark := by
    rintro rfl
    exact not_spells_endMark _ hspells
  have hmeaning : meaning (utf8 e.layout.event) = .chunk [e.delta] false := by
    rw [Layout.meaning_event e.lines_ne_nil hdata, meaningOfData, if_neg hmark,
      Json.parseChars_eq_ok_iff.mpr hspells]
    exact e.isChunk.meaning e.nonempty
  rw [meanings, eventsOf_of_some (e.layout.splitEvent?_bytes e.lines_ne_nil rest), List.map_cons,
    hmeaning]
  rfl

end Encoded

def encodedBytes (sent : List Encoded) : List UInt8 :=
  sent.flatMap fun e => e.layout.bytes

theorem meanings_encodedBytes (sent : List Encoded) (rest : List UInt8) :
    meanings (encodedBytes sent ++ rest) =
      (sent.map fun e => .chunk [e.delta] false) ++ meanings rest := by
  induction sent with
  | nil => rfl
  | cons e sent ih =>
      rw [encodedBytes, List.flatMap_cons, List.append_assoc, e.meanings_append, ← encodedBytes,
        ih, List.map_cons, List.cons_append]

theorem goesOn_deltas (deltas : List String) :
    GoesOn (deltas.map fun delta => .chunk [delta] false) := by
  intro before m after hsplit
  have hmem : m ∈ deltas.map fun delta => Meaning.chunk [delta] false := by
    rw [hsplit]
    exact List.mem_append_right before List.mem_cons_self
  obtain ⟨delta, -, rfl⟩ := List.mem_map.mp hmem
  exact ⟨id, id⟩

/--
A reader of deltas that were sent in events, with the mark of the end behind them, hears just
the deltas, in their order, and no failure.  This holds however the events are laid out, where
the body is cut into chunks, whatever follows the mark, and however the body ends.
-/
theorem read_encoded (sent : List Encoded) {mark : Layout} (hmark : mark.pieces = [endMark])
    (behind : List UInt8) {chunks : List (List UInt8)}
    (hbody : chunks.flatten = encodedBytes sent ++ (mark.bytes ++ behind))
    (hsize : chunks.flatten.length ≤ maxBufferBytes) (ending : Ending) :
    read chunks ending = { fragments := sent.map Encoded.delta, failure := none } := by
  have hlines : mark.lines ≠ [] :=
    mark.lines_ne_nil (by rw [hmark]; exact List.cons_ne_nil _ _)
  have hdone : meaning (utf8 mark.event) = .done := by
    rw [Layout.meaning_event hlines (mark.data?_of_mark hmark), meaningOfData, if_pos rfl]
  have hmeanings : meanings chunks.flatten =
      (sent.map fun e => .chunk [e.delta] false) ++ .done :: meanings behind := by
    rw [hbody, meanings_encodedBytes, meanings,
      eventsOf_of_some (mark.splitEvent?_bytes hlines behind), List.map_cons, hdone]
    rfl
  have hgoes : GoesOn (sent.map fun e => .chunk [e.delta] false) := by
    have hdeltas := goesOn_deltas (sent.map Encoded.delta)
    rwa [List.map_map] at hdeltas
  rw [read_of_completes hsize hmeanings hgoes trivial ending]
  have hfragments : (sent.map fun e => Meaning.chunk [e.delta] false).flatMap Meaning.fragments =
      sent.map Encoded.delta := by
    rw [List.flatMap_map, List.map_eq_flatMap]
    rfl
  rw [hfragments]

/-- A chunk on two lines with a comment between them. -/
def spread : Encoded where
  delta := "b"
  nonempty := by decide
  members := leastChunk "b"
  isChunk := isChunk_leastChunk "b"
  layout :=
    { lines :=
        [.data true ['\x7b', '"', 'c', 'h', 'o', 'i', 'c', 'e', 's', '"', ':', '[', '\x7b', '"',
            'd', 'e', 'l', 't', 'a', '"', ':', '\x7b', '"', 'c', 'o', 'n', 't', 'e', 'n', 't',
            '"', ':', '"', 'b', '"', '\x7d', ','] (by decide),
          .other [':', ' ', 'o', 'k'] (by decide) (by decide) (by decide),
          .data false [' ', '"', 'f', 'i', 'n', 'i', 's', 'h', '_', 'r', 'e', 'a', 's', 'o', 'n',
            '"', ':', 'n', 'u', 'l', 'l', '\x7d', ']', '\x7d'] (by decide)]
      hasReturns := true }
  spells := Json.parseChars_eq_ok_iff.mp rfl

def marked : Layout :=
  { lines := [.data false endMark (by decide)], hasReturns := false }

def spreadBody : List UInt8 :=
  encodedBytes [.least "a" (by decide) true false, spread] ++ (marked.bytes ++ [255])

theorem read_encoded_spread :
    spreadBody.length ≤ maxBufferBytes ∧
      read [spreadBody.take 100, spreadBody.drop 100] .silent =
        { fragments := ["a", "b"], failure := none } := by
  have hsize : spreadBody.length ≤ maxBufferBytes := by decide +kernel
  have hbody : [spreadBody.take 100, spreadBody.drop 100].flatten = spreadBody := by simp
  have hmark : marked.pieces = [endMark] := rfl
  refine ⟨hsize, ?_⟩
  exact read_encoded [.least "a" (by decide) true false, spread] hmark [255] hbody
    (by rwa [hbody]) .silent

end EventStream

end Chat

end Marginalia
