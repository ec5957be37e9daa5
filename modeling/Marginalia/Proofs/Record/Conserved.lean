import Marginalia.Proofs.Record.Fragmentation
import Marginalia.Proofs.Record.Gate

/-!
# What becomes of the text that is taken in

As long as no text is cut off for its length, the fragments are, character by character, the
objects that were used up, the texts in front of these, and the text that is kept.  Each
record is that of one of these objects.
-/

namespace Marginalia

namespace Record

open Json (Reads)

/-- An object that was used up, with the text in front of it that went with it. -/
structure Piece where
  gap : List Char
  text : List Char
  members : List (String × Json)
  opens : text.head? = some '\x7b'
  whole : firstObject? (Json.fuelFor text) text = some (members, [])
  /-- Only an object that spells a record is looked for further on. -/
  blank : ofMembers? members = none → ∀ c ∈ gap, Json.isSpace c = true

namespace Piece

def chars (piece : Piece) : List Char :=
  piece.gap ++ piece.text

/-- The record that the object spells, if it does. -/
def record? (piece : Piece) : Option Record :=
  ofMembers? piece.members

end Piece

/-- An object is used up with the blanks in front of it. -/
theorem exists_piece_of_reads (lead : List Char) {start rest : List Char}
    {ms : List (String × Json)}
    (hreads : Reads Json.maxDepth start (.value (.object ms)) rest)
    (hlead : ofMembers? ms = none → ∀ c ∈ lead, Json.isSpace c = true) :
    ∃ piece : Piece, lead ++ start = piece.chars ++ rest ∧ piece.record? = ofMembers? ms := by
  obtain ⟨blanks, inner, hsplit, hblanks, hinner⟩ := hreads.exists_blanks
  obtain ⟨text, htext, hwhole⟩ := @Reads.exists_front _ _ [] _ _ hinner nofun
  have hopens : text.head? = some '\x7b' := by
    cases text with
    | nil => exact absurd rfl hwhole.text_ne_nil
    | cons c text =>
        cases htext
        rfl
  have hgap : ofMembers? ms = none → ∀ c ∈ lead ++ blanks, Json.isSpace c = true := by
    intro hnone c hc
    exact (List.mem_append.mp hc).elim (hlead hnone c) (hblanks c)
  refine ⟨⟨lead ++ blanks, text, ms, hopens, ?_, hgap⟩, ?_, rfl⟩
  · exact (firstObject?_eq_some_iff (Nat.le_succ _)).mpr hwhole
  · rw [hsplit, htext, Piece.chars, List.append_assoc, List.append_assoc]

theorem exists_piece {pending : List Char} {decoded : Decoded}
    (h : decodeNext? pending = some decoded) :
    ∃ piece : Piece, pending = piece.chars ++ decoded.rest ∧ piece.record? = decoded.record? := by
  cases decoded with
  | record record rest =>
      obtain ⟨start, ms, ⟨lead, hlead⟩, hreads, hms⟩ := decodeNext?_eq_some h
      obtain ⟨piece, hpiece, hrecord⟩ := exists_piece_of_reads lead hreads (by rw [hms]; nofun)
      exact ⟨piece, hlead.symm.trans hpiece, hrecord.trans hms⟩
  | discarded rest =>
      obtain ⟨ms, hreads, hms⟩ := reads_of_discarded h
      obtain ⟨piece, hpiece, hrecord⟩ := exists_piece_of_reads [] hreads nofun
      exact ⟨piece, hpiece, hrecord.trans hms⟩

/-! ## Texts in pieces -/

/-- A text that is made of pieces with these records and of a rest. -/
def Factors (text : List Char) (records : List Record) (rest : List Char) : Prop :=
  ∃ pieces : List Piece,
    text = pieces.flatMap Piece.chars ++ rest ∧ records = pieces.filterMap Piece.record?

namespace Factors

variable {text rest : List Char} {records : List Record}

theorem refl (text : List Char) : Factors text [] text :=
  ⟨[], rfl, rfl⟩

theorem cons (piece : Piece) (h : Factors text records rest) :
    Factors (piece.chars ++ text) (piece.record?.toList ++ records) rest := by
  obtain ⟨pieces, rfl, rfl⟩ := h
  refine ⟨piece :: pieces, ?_, ?_⟩
  · rw [List.flatMap_cons, List.append_assoc]
  · cases hrecord : piece.record? with
    | none => rw [List.filterMap_cons_none hrecord, Option.toList_none, List.nil_append]
    | some record =>
        rw [List.filterMap_cons_some hrecord, Option.toList_some, List.singleton_append]

theorem trans {more last : List Char} {records' : List Record} (h : Factors text records rest)
    (h' : Factors (rest ++ more) records' last) :
    Factors (text ++ more) (records ++ records') last := by
  obtain ⟨pieces, rfl, rfl⟩ := h
  obtain ⟨pieces', hrest, rfl⟩ := h'
  refine ⟨pieces ++ pieces', ?_, List.filterMap_append.symm⟩
  rw [List.append_assoc, hrest, List.flatMap_append, List.append_assoc]

end Factors

theorem factors_exhaust (pending : List Char) :
    Factors pending (exhaust pending).1 (exhaust pending).2 := by
  fun_induction exhaust pending with
  | case1 pending hnone => exact .refl pending
  | case2 pending decoded hsome records rest hrest ih =>
      obtain ⟨piece, hpiece, hrecord⟩ := exists_piece hsome
      rw [hrest] at ih
      have hcons := ih.cons piece
      rw [← hpiece, hrecord] at hcons
      exact hcons

namespace Decoder

/-! ## Taking in fragments -/

/-- The text that a fragment leaves undecoded, before its length is looked at. -/
def undecoded (d : Decoder) (fragment : String) : List Char :=
  if fragment.toList.contains '\x7d' then (drained (d.pending ++ fragment.toList)).2
  else d.pending ++ fragment.toList

theorem push_pending (d : Decoder) (fragment : String) :
    (d.push fragment).2 = ⟨cap (d.undecoded fragment)⟩ := by
  by_cases hmem : '\x7d' ∈ fragment.toList
  · rw [push_of_brace hmem, undecoded, if_pos (List.contains_iff_mem.mpr hmem)]
  · rw [push_of_no_brace hmem, undecoded, if_neg (mt List.contains_iff_mem.mp hmem)]

/-- Whether none of the fragments leaves so much undecoded that it is cut off. -/
def KeepsAll (d : Decoder) : List String → Prop
  | [] => True
  | fragment :: fragments =>
      byteCount (d.undecoded fragment) ≤ maxPendingBytes ∧
        KeepsAll (d.push fragment).2 fragments

theorem factors_push (d : Decoder) (fragment : String) :
    Factors (d.pending ++ fragment.toList) (d.push fragment).1 (d.undecoded fragment) := by
  by_cases hmem : '\x7d' ∈ fragment.toList
  · rw [push_of_brace hmem, undecoded, if_pos (List.contains_iff_mem.mpr hmem), drained_eq_exhaust]
    exact factors_exhaust _
  · rw [push_of_no_brace hmem, undecoded, if_neg (mt List.contains_iff_mem.mp hmem)]
    exact .refl _

theorem factors_pushAll {d : Decoder} {fragments : List String} (h : d.KeepsAll fragments) :
    Factors (d.pending ++ (String.join fragments).toList) (d.pushAll fragments).1
      (d.pushAll fragments).2.pending := by
  induction fragments generalizing d with
  | nil =>
      rw [String.join_nil, String.toList_empty, List.append_nil]
      exact .refl _
  | cons fragment fragments ih =>
      obtain ⟨hshort, hlater⟩ := h
      have hkept : (d.push fragment).2.pending = d.undecoded fragment := by
        rw [push_pending, cap, if_neg (Nat.not_lt_of_le hshort)]
      have hrest := ih hlater
      rw [hkept] at hrest
      rw [String.join_cons, String.toList_append, ← List.append_assoc]
      exact (factors_push d fragment).trans hrest

/--
When no text is cut off for its length, the fragments together are pieces and the text that
is kept; the records are those that the objects of the pieces spell, in their order, and an
object that spells none has blanks in front of it at most.  Each decoding shortens the text,
so that the loop goes on until nothing can be decoded.
-/
theorem pushAll_conserves (fragments : List String) (h : KeepsAll {} fragments) :
    (∃ pieces : List Piece,
      (String.join fragments).toList =
        pieces.flatMap (fun piece => piece.gap ++ piece.text) ++
          (pushAll {} fragments).2.pending ∧
      (pushAll {} fragments).1 = pieces.filterMap fun piece => ofMembers? piece.members) ∧
    (∀ pending decoded, decodeNext? pending = some decoded →
      decoded.rest.length < pending.length) ∧
    ∀ pending, drain (pending.count '\x7d') pending = exhaust pending :=
  ⟨factors_pushAll h, fun _ _ => length_rest_lt, drained_eq_exhaust⟩

/-- An object without a record, a record in two fragments behind other text, and a rest. -/
theorem pushAll_noteAndRecord :
    let fragments :=
      [" \x7b\"note\":1\x7d so: \x7b\"line\":2,\"sugg", "estion\":\"b\"\x7d, \x7b\"li"]
    KeepsAll {} fragments ∧ (pushAll {} fragments).2.pending = ", \x7b\"li".toList ∧
      ∃ pieces : List Piece,
        (String.join fragments).toList =
          pieces.flatMap (fun piece => piece.gap ++ piece.text) ++ ", \x7b\"li".toList ∧
        [⟨2, ⟨"b", by decide⟩, .unrecognized ""⟩] =
          pieces.filterMap fun piece => ofMembers? piece.members := by
  intro fragments
  have hkeeps : KeepsAll {} fragments := ⟨by decide +kernel, by decide +kernel, trivial⟩
  have hpending : (pushAll {} fragments).2.pending = ", \x7b\"li".toList := by decide +kernel
  have hrecords : (pushAll {} fragments).1 = [⟨2, ⟨"b", by decide⟩, .unrecognized ""⟩] := by
    decide +kernel
  obtain ⟨pieces, htext, hpieces⟩ := (pushAll_conserves fragments hkeeps).1
  rw [hpending] at htext
  rw [hrecords] at hpieces
  exact ⟨hkeeps, hpending, pieces, htext, hpieces⟩

end Decoder

end Record

end Marginalia
