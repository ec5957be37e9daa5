import Marginalia.Proofs.Chat.Boundary
import Marginalia.Proofs.Json.Relaid
import Marginalia.Proofs.Text.Lines
import Marginalia.Proofs.Text.Utf8

/-!
# Payloads laid out as events

The lines of a payload become the data lines of an event, among which other lines may stand.
Of such an event the reader gets the payload back, up to blanks at the ends of its lines.
-/

namespace Marginalia

namespace Chat

namespace EventStream

/-! ## Layouts -/

def dataName : List Char := ['d', 'a', 't', 'a', ':']

inductive Line where
  /-- A line of the payload, with a blank in front of it or without. -/
  | data (isSpaced : Bool) (piece : List Char) (unbroken : '\n' ∉ piece)
  /-- A comment or another field. -/
  | other (text : List Char) (nonempty : text ≠ []) (unbroken : '\n' ∉ text ∧ '\r' ∉ text)
      (unnamed : ¬ dataName <+: text)

namespace Line

def chars : Line → List Char
  | data true piece _ => dataName ++ ' ' :: piece
  | data false piece _ => dataName ++ piece
  | other text _ _ _ => text

def piece? : Line → Option (List Char)
  | data _ piece _ => some piece
  | other _ _ _ _ => none

theorem not_mem_chars (line : Line) : '\n' ∉ line.chars := by
  cases line with
  | data isSpaced piece unbroken =>
      cases isSpaced with
      | false => simp [chars, dataName, unbroken]
      | true => simp [chars, dataName, unbroken]
  | other text nonempty unbroken unnamed => exact unbroken.1

theorem chars_eq_cons (line : Line) :
    ∃ c text, line.chars = c :: text ∧ c ≠ '\n' ∧ c ≠ '\r' := by
  cases line with
  | data isSpaced piece unbroken =>
      cases isSpaced with
      | false => exact ⟨'d', _, rfl, by decide, by decide⟩
      | true => exact ⟨'d', _, rfl, by decide, by decide⟩
  | other text nonempty unbroken unnamed =>
      obtain ⟨c, rest, rfl⟩ := List.exists_cons_of_ne_nil nonempty
      exact ⟨c, rest, rfl, fun hc => unbroken.1 (hc ▸ List.mem_cons_self),
        fun hc => unbroken.2 (hc ▸ List.mem_cons_self)⟩

end Line

def joined (ending : List Char) : List Line → List Char
  | [] => []
  | [line] => line.chars
  | line :: lines => line.chars ++ (ending ++ joined ending lines)

theorem joined_cons_cons (ending : List Char) (line next : Line) (lines : List Line) :
    joined ending (line :: next :: lines) =
      line.chars ++ (ending ++ joined ending (next :: lines)) := rfl

theorem joined_cons (ending : List Char) (line : Line) (lines : List Line) :
    ∃ text, joined ending (line :: lines) = line.chars ++ text := by
  cases lines with
  | nil => exact ⟨[], (List.append_nil _).symm⟩
  | cons next lines => exact ⟨_, rfl⟩

/-- An event in lines that all end alike. -/
structure Layout where
  lines : List Line
  hasReturns : Bool

namespace Layout

def returns (l : Layout) : List Char :=
  if l.hasReturns then ['\r'] else []

def ending (l : Layout) : List Char :=
  l.returns ++ ['\n']

def pieces (l : Layout) : List (List Char) :=
  l.lines.filterMap Line.piece?

/-- What the data lines hold together. -/
def payload (l : Layout) : List Char :=
  joinLines l.pieces

def chars (l : Layout) : List Char :=
  (l.lines.flatMap fun line => line.chars ++ l.ending) ++ l.ending

def bytes (l : Layout) : List UInt8 :=
  Text.Utf8.encode (String.ofList l.chars)

def event (l : Layout) : List Char :=
  joined l.ending l.lines

theorem chars_eq (l : Layout) (h : l.lines ≠ []) :
    l.chars = l.event ++ (l.ending ++ l.ending) := by
  obtain ⟨line, lines, hlines⟩ := List.exists_cons_of_ne_nil h
  rw [chars, event, hlines, ← List.append_assoc]
  congr 1
  clear hlines
  induction lines generalizing line with
  | nil => simp [joined]
  | cons next lines ih =>
      rw [List.flatMap_cons, ih, joined_cons_cons, List.append_assoc, List.append_assoc,
        List.append_assoc]

end Layout

/-! ## Where an event ends -/

def utf8 (cs : List Char) : List UInt8 :=
  cs.flatMap String.utf8EncodeChar

theorem utf8_append (cs ds : List Char) : utf8 (cs ++ ds) = utf8 cs ++ utf8 ds :=
  List.flatMap_append

theorem not_mem_utf8 {cs : List Char} {c : Char} {byte : UInt8} (hbyte : byte.toNat < 0x80)
    (hc : c.toNat = byte.toNat) (h : c ∉ cs) : byte ∉ utf8 cs := by
  intro hmem
  obtain ⟨d, hd, hin⟩ := List.mem_flatMap.mp hmem
  have heq : d.toNat = c.toNat := (Text.Utf8.eq_of_mem_encodeChar hin hbyte).trans hc.symm
  rw [Char.toNat_inj.mp heq] at hd
  exact h hd

/-- Bytes without a feed hold no end of an event, but for the one they may begin with. -/
theorem splitEvent?_of_unbroken {front bytes : List UInt8} (hfront : 10 ∉ front)
    (hbytes : ¬ [10, 13, 10] <+: bytes) :
    splitEvent? (front ++ bytes) =
      (splitEvent? bytes).map fun found => (front ++ found.1, found.2) := by
  induction front with
  | nil => simp
  | cons b front ih =>
      have hnone : afterBoundary? (b :: (front ++ bytes)) = none := by
        rw [Option.eq_none_iff_forall_ne_some]
        intro rest hrest
        obtain ⟨boundary, hboundary, heq⟩ := afterBoundary?_eq_some_iff.mp hrest
        cases hboundary with
        | feeds =>
            cases (List.cons.inj heq).1
            exact hfront List.mem_cons_self
        | returns =>
            -- only the last byte in front can be its first one, for the second is a feed
            have htail := (List.cons.inj heq).2
            cases front with
            | nil => exact hbytes ⟨rest, htail.symm⟩
            | cons c front =>
                cases (List.cons.inj htail).1
                exact hfront (List.mem_cons_of_mem b List.mem_cons_self)
      rw [List.cons_append, splitEvent?_cons, hnone,
        ih fun hmem => hfront (List.mem_cons_of_mem b hmem), Option.map_map]
      rfl

/-- Whether bytes start with a line that is not blank. -/
def StartsLine (bytes : List UInt8) : Prop :=
  ∃ b rest, bytes = b :: rest ∧ b ≠ 10 ∧ b ≠ 13

theorem Line.startsLine (line : Line) (text : List Char) (more : List UInt8) :
    StartsLine (utf8 (line.chars ++ text) ++ more) := by
  obtain ⟨c, rest, hchars, hfeed, hreturn⟩ := line.chars_eq_cons
  obtain ⟨b, bs, hbytes⟩ := List.exists_cons_of_ne_nil (Text.Utf8.encodeChar_ne_nil c)
  have hb : b ∈ utf8 [c] := by simp [utf8, hbytes]
  refine ⟨b, bs ++ (utf8 (rest ++ text) ++ more), ?_, ?_, ?_⟩
  · rw [hchars, utf8, utf8, List.cons_append, List.flatMap_cons, hbytes, List.append_assoc]
    rfl
  · rintro rfl
    exact not_mem_utf8 (c := '\n') (by decide) (by decide) (by simpa using hfeed.symm) hb
  · rintro rfl
    exact not_mem_utf8 (c := '\r') (by decide) (by decide) (by simpa using hreturn.symm) hb

theorem splitEvent?_feed {bytes : List UInt8} (h : StartsLine bytes) :
    splitEvent? (10 :: bytes) = (splitEvent? bytes).map fun found => (10 :: found.1, found.2) := by
  obtain ⟨b, rest, rfl, hfeed, -⟩ := h
  have hnone : afterBoundary? (10 :: b :: rest) = none := by
    simp [afterBoundary?, hfeed]
  rw [splitEvent?_cons, hnone]

theorem splitEvent?_return {bytes : List UInt8} (h : StartsLine bytes) :
    splitEvent? (13 :: 10 :: bytes) =
      (splitEvent? bytes).map fun found => (13 :: 10 :: found.1, found.2) := by
  have hfeed := splitEvent?_feed h
  obtain ⟨b, rest, rfl, -, hreturn⟩ := h
  have hnone : afterBoundary? (13 :: 10 :: b :: rest) = none := by
    simp [afterBoundary?, hreturn]
  rw [splitEvent?_cons, hnone, hfeed, Option.map_map]
  rfl

namespace Layout

variable (l : Layout)

theorem utf8_ending : utf8 l.ending = [10] ∨ utf8 l.ending = [13, 10] := by
  unfold ending returns
  split
  · exact .inr (by decide)
  · exact .inl (by decide)

theorem splitEvent?_ending {bytes : List UInt8} (h : StartsLine bytes) :
    splitEvent? (utf8 l.ending ++ bytes) =
      (splitEvent? bytes).map fun found => (utf8 l.ending ++ found.1, found.2) := by
  rcases l.utf8_ending with hending | hending
  · rw [hending]
    exact splitEvent?_feed h
  · rw [hending]
    exact splitEvent?_return h

theorem splitEvent?_blank (rest : List UInt8) :
    splitEvent? (utf8 l.ending ++ (utf8 l.ending ++ rest)) = some ([], rest) := by
  rcases l.utf8_ending with hending | hending
  · rw [hending]
    rfl
  · rw [hending]
    rfl

/-- An ending and a line behind it do not complete a blank line. -/
theorem not_prefix_ending {bytes : List UInt8} (h : StartsLine bytes ∨ ∃ rest, bytes =
    utf8 l.ending ++ rest) : ¬ [10, 13, 10] <+: utf8 l.ending ++ bytes := by
  rintro ⟨more, heq⟩
  rcases l.utf8_ending with hending | hending
  · rw [hending] at heq h
    have hbytes := (List.cons.inj heq).2
    rcases h with ⟨b, rest, rfl, -, hreturn⟩ | ⟨rest, rfl⟩
    · exact hreturn (List.cons.inj hbytes).1.symm
    · simp at hbytes
  · rw [hending] at heq
    simp at heq

theorem splitEvent?_lines (line : Line) (lines : List Line) (rest : List UInt8) :
    splitEvent? (utf8 (joined l.ending (line :: lines)) ++
        (utf8 l.ending ++ (utf8 l.ending ++ rest))) =
      some (utf8 (joined l.ending (line :: lines)), rest) := by
  have hline : ∀ line : Line, (10 : UInt8) ∉ utf8 line.chars := fun line =>
    not_mem_utf8 (c := '\n') (by decide) (by decide) line.not_mem_chars
  induction lines generalizing line with
  | nil =>
      rw [joined, splitEvent?_of_unbroken (hline line) (l.not_prefix_ending (.inr ⟨rest, rfl⟩)),
        l.splitEvent?_blank]
      simp
  | cons next lines ih =>
      obtain ⟨text, htext⟩ := joined_cons l.ending next lines
      have hstarts : StartsLine (utf8 (joined l.ending (next :: lines)) ++
          (utf8 l.ending ++ (utf8 l.ending ++ rest))) := by
        rw [htext]
        exact next.startsLine text _
      rw [joined_cons_cons, utf8_append, utf8_append, List.append_assoc, List.append_assoc,
        splitEvent?_of_unbroken (hline line) (l.not_prefix_ending (.inl hstarts)),
        l.splitEvent?_ending hstarts, ih next]
      rfl

/-- The event is what the layout is read as, whatever follows. -/
theorem splitEvent?_bytes (h : l.lines ≠ []) (rest : List UInt8) :
    splitEvent? (l.bytes ++ rest) = some (utf8 l.event, rest) := by
  have hchars := l.chars_eq h
  obtain ⟨line, lines, hlines⟩ := List.exists_cons_of_ne_nil h
  rw [bytes, Text.Utf8.encode_ofList, ← utf8, hchars, utf8_append, utf8_append, event, hlines,
    List.append_assoc, List.append_assoc]
  exact l.splitEvent?_lines line lines rest

end Layout

/-! ## What the lines hold -/

/-- A piece of a payload as it is read: blanks in front of it and returns behind it may be gone. -/
structure Trims (piece trimmed : List Char) : Prop where
  split : ∃ blanks returns, piece = blanks ++ (trimmed ++ returns) ∧ (∀ c ∈ blanks, c = ' ') ∧
    ∀ c ∈ returns, c = '\r'

theorem dataOfLine?_named {text piece : List Char} (h : Text.dropReturn text = dataName ++ piece) :
    ∃ trimmed, dataOfLine? text = some trimmed ∧ Trims piece trimmed := by
  rw [dataOfLine?, h]
  cases piece with
  | nil => exact ⟨[], rfl, ⟨[], [], rfl, nofun, nofun⟩⟩
  | cons c piece =>
      by_cases hc : c = ' '
      · subst hc
        exact ⟨piece, rfl, ⟨[' '], [], by simp, by simp, nofun⟩⟩
      · exact ⟨c :: piece, by simp [dataName, hc], ⟨[], [], by simp, nofun, nofun⟩⟩

theorem dataOfLine?_unnamed {text : List Char} (h : ¬ dataName <+: Text.dropReturn text) :
    dataOfLine? text = none := by
  unfold dataOfLine?
  split
  · next rest heq =>
      rw [heq] at h
      exact absurd ⟨' ' :: rest, rfl⟩ h
  · next rest _ heq =>
      rw [heq] at h
      exact absurd ⟨rest, rfl⟩ h
  · rfl

theorem dataOfLine?_spaced {text piece : List Char}
    (h : Text.dropReturn text = dataName ++ ' ' :: piece) : dataOfLine? text = some piece := by
  rw [dataOfLine?, h]
  rfl

/-- A return may be dropped from the end of a line twice: with its ending, and from its data. -/
theorem exists_shown (front : List Char) {piece text : List Char} (hfront : '\r' ∉ front)
    (htext : text = front ++ piece ∨ text = Text.dropReturn (front ++ piece)) :
    ∃ shown returns, Text.dropReturn text = front ++ shown ∧ piece = shown ++ returns ∧
      ∀ c ∈ returns, c = '\r' := by
  obtain ⟨once, hpiece, honce⟩ := Text.exists_dropReturn_append piece
  rcases htext with rfl | rfl
  · exact ⟨Text.dropReturn piece, once, Text.dropReturn_append hfront piece, hpiece, honce⟩
  · obtain ⟨twice, hshown, htwice⟩ := Text.exists_dropReturn_append (Text.dropReturn piece)
    refine ⟨Text.dropReturn (Text.dropReturn piece), twice ++ once, ?_, ?_, ?_⟩
    · rw [Text.dropReturn_append hfront, Text.dropReturn_append hfront]
    · rw [← List.append_assoc, ← hshown]
      exact hpiece
    · intro c hc
      exact (List.mem_append.mp hc).elim (htwice c) (honce c)

theorem Line.reads (line : Line) {text : List Char}
    (htext : text = line.chars ∨ text = Text.dropReturn line.chars) :
    Option.Rel Trims line.piece? (dataOfLine? text) := by
  cases line with
  | data isSpaced piece unbroken =>
      cases isSpaced with
      | false =>
          obtain ⟨shown, returns, hshown, rfl, hreturns⟩ :=
            exists_shown dataName (by decide) htext
          obtain ⟨trimmed, htrimmed, ⟨blanks, more, rfl, hblanks, hmore⟩⟩ :=
            dataOfLine?_named hshown
          rw [htrimmed]
          refine .some ⟨blanks, more ++ returns, by simp, hblanks, fun c hc => ?_⟩
          exact (List.mem_append.mp hc).elim (hmore c) (hreturns c)
      | true =>
          have htext' : text = (dataName ++ [' ']) ++ piece ∨
              text = Text.dropReturn ((dataName ++ [' ']) ++ piece) := by
            rw [List.append_assoc]
            exact htext
          obtain ⟨shown, returns, hshown, rfl, hreturns⟩ := exists_shown _ (by decide) htext'
          rw [List.append_assoc] at hshown
          rw [dataOfLine?_spaced hshown]
          exact .some ⟨[], returns, rfl, nofun, hreturns⟩
  | other rest nonempty unbroken unnamed =>
      have hrest : Text.dropReturn rest = rest := Text.dropReturn_of_not_mem unbroken.2
      have hsame : text = rest := htext.elim id fun h => h.trans hrest
      rw [hsame, dataOfLine?_unnamed (by rwa [hrest])]
      exact .none

namespace Layout

variable (l : Layout)

theorem lineChars_joined (line next : Line) (lines : List Line) :
    ∃ text, (text = line.chars ∨ text = Text.dropReturn line.chars) ∧
      Text.lineChars (joined l.ending (line :: next :: lines)) =
        text :: Text.lineChars (joined l.ending (next :: lines)) := by
  have hne : joined l.ending (next :: lines) ≠ [] := by
    obtain ⟨text, htext⟩ := joined_cons l.ending next lines
    obtain ⟨c, rest, hchars, -⟩ := next.chars_eq_cons
    rw [htext, hchars]
    exact List.cons_ne_nil _ _
  refine ⟨Text.dropReturn (line.chars ++ l.returns), ?_, ?_⟩
  · unfold returns
    split
    · exact .inl (Text.dropReturn_concat _)
    · exact .inr (by rw [List.append_nil])
  · have hfeed : '\n' ∉ line.chars ++ l.returns := by
      rw [List.mem_append, not_or]
      refine ⟨line.not_mem_chars, ?_⟩
      unfold returns
      split <;> decide
    rw [← Text.lineChars_append hfeed hne, joined_cons_cons, List.append_assoc]
    congr 2
    rw [ending, List.append_assoc]
    rfl

theorem trims_cons {line : Line} {text : List Char} {lines : List Line}
    {texts : List (List Char)} (hline : Option.Rel Trims line.piece? (dataOfLine? text))
    (hlines : List.Forall₂ Trims (lines.filterMap Line.piece?) (texts.filterMap dataOfLine?)) :
    List.Forall₂ Trims ((line :: lines).filterMap Line.piece?)
      ((text :: texts).filterMap dataOfLine?) := by
  rw [List.filterMap_cons, List.filterMap_cons]
  generalize line.piece? = piece? at hline ⊢
  generalize dataOfLine? text = data? at hline ⊢
  cases hline with
  | some htrims => exact .cons htrims hlines
  | none => exact hlines

/-- The data lines of an event are read as the pieces of the payload. -/
theorem trims (line : Line) (lines : List Line) :
    List.Forall₂ Trims ((line :: lines).filterMap Line.piece?)
      ((Text.lineChars (joined l.ending (line :: lines))).filterMap dataOfLine?) := by
  induction lines generalizing line with
  | nil =>
      obtain ⟨c, rest, hchars, -⟩ := line.chars_eq_cons
      have hne : line.chars ≠ [] := by
        rw [hchars]
        exact List.cons_ne_nil _ _
      rw [joined, Text.lineChars_of_not_mem line.not_mem_chars hne]
      exact trims_cons (line.reads (.inl rfl)) .nil
  | cons next lines ih =>
      obtain ⟨text, htext, hlines⟩ := l.lineChars_joined line next lines
      rw [hlines]
      exact trims_cons (line.reads htext) (ih next)

end Layout

/-- Pieces that are trimmed are gaps apart, with blanks in front of them. -/
theorem relaid_joinLines {pieces trimmed : List (List Char)}
    (h : List.Forall₂ Trims pieces trimmed) :
    ∃ blanks body, joinLines pieces = blanks ++ body ∧ (∀ c ∈ blanks, c = ' ') ∧
      Json.Relaid body (joinLines trimmed) := by
  induction h with
  | nil => exact ⟨[], [], rfl, nofun, .refl []⟩
  | @cons piece trim pieces trimmed hpiece hothers ih =>
      obtain ⟨blanks, returns, rfl, hblanks, hreturns⟩ := hpiece.split
      have hspace : ∀ c ∈ returns, Json.isSpace c = true := by
        intro c hc
        rw [hreturns c hc]
        rfl
      cases hothers with
      | nil =>
          refine ⟨blanks, trim ++ returns, rfl, hblanks, ?_⟩
          have hended : Json.Relaid returns [] := .ended hspace nofun
          have hrelaid := hended.append_left trim
          rwa [List.append_nil] at hrelaid
      | @cons next trim' _ _ _ _ =>
          obtain ⟨blanks', body, hbody, hblanks', hrelaid⟩ := ih
          have hgap : Json.IsGap (returns ++ '\n' :: blanks') := by
            constructor
            · intro c hc
              rcases List.mem_append.mp hc with hc | hc
              · exact hspace c hc
              · rcases List.mem_cons.mp hc with rfl | hc
                · rfl
                · rw [hblanks' c hc]
                  rfl
            · cases returns with
              | nil => exact ⟨'\n', rfl, by decide⟩
              | cons c returns =>
                  refine ⟨c, rfl, ?_⟩
                  rw [hreturns c List.mem_cons_self]
                  decide
          have hfeed : Json.IsGap ['\n'] := ⟨by simp [Json.isSpace], '\n', rfl, by decide⟩
          refine ⟨blanks, trim ++ ((returns ++ '\n' :: blanks') ++ body), ?_, hblanks, ?_⟩
          · rw [joinLines, hbody]
            · simp
            · exact List.cons_ne_nil _ _
          · exact (Json.Relaid.gap hgap hfeed hrelaid).append_left trim

theorem Trims.eq_of_mark {trimmed : List Char} (h : Trims endMark trimmed) :
    trimmed = endMark := by
  obtain ⟨blanks, returns, hsplit, hblanks, hreturns⟩ := h.split
  have hmem : ∀ c, c ∈ blanks ∨ c ∈ returns → c ∈ endMark := by
    intro c hc
    rw [hsplit, List.mem_append, List.mem_append]
    exact hc.elim .inl fun hc => .inr (.inr hc)
  have hnoBlanks : blanks = [] := by
    refine List.eq_nil_iff_forall_not_mem.mpr fun c hc => ?_
    have hin := hmem c (.inl hc)
    rw [hblanks c hc] at hin
    revert hin
    decide
  have hnoReturns : returns = [] := by
    refine List.eq_nil_iff_forall_not_mem.mpr fun c hc => ?_
    have hin := hmem c (.inr hc)
    rw [hreturns c hc] at hin
    revert hin
    decide
  rw [hsplit, hnoBlanks, hnoReturns, List.nil_append, List.append_nil]

/-! ## What the event holds -/

namespace Layout

variable (l : Layout)

theorem lines_ne_nil (h : l.pieces ≠ []) : l.lines ≠ [] := by
  intro hnone
  rw [pieces, hnone] at h
  exact h rfl

theorem pieces_ne_nil {v : Json} (h : Json.Spells l.payload v) : l.pieces ≠ [] := by
  intro hnone
  obtain ⟨rest, hread, -⟩ := h
  exact hread.text_ne_nil (by rw [payload, hnone]; rfl)

theorem exists_data (h : l.pieces ≠ []) :
    ∃ trimmed, List.Forall₂ Trims l.pieces trimmed ∧ data? l.event = some (joinLines trimmed) := by
  obtain ⟨line, lines, hlines⟩ := List.exists_cons_of_ne_nil (l.lines_ne_nil h)
  have htrims := l.trims line lines
  rw [← hlines, ← event, ← pieces] at htrims
  refine ⟨_, htrims, ?_⟩
  rw [data?]
  cases hdata : (Text.lineChars l.event).filterMap dataOfLine? with
  | nil =>
      rw [hdata] at htrims
      generalize l.pieces = pieces at htrims h
      cases htrims
      exact absurd rfl h
  | cons first others => rfl

/-- A payload of JSON is read as a text of the same value. -/
theorem exists_data_of_spells {v : Json} (h : Json.Spells l.payload v) :
    ∃ data, data? l.event = some data ∧ Json.Spells data v := by
  obtain ⟨trimmed, htrims, hdata⟩ := l.exists_data (l.pieces_ne_nil h)
  obtain ⟨blanks, body, hbody, hblanks, hrelaid⟩ := relaid_joinLines htrims
  have hskip : Json.skipSpace l.payload = Json.skipSpace body := by
    rw [payload, hbody]
    refine Json.skipSpace_blanks_append (fun c hc => ?_) body
    rw [hblanks c hc]
    rfl
  exact ⟨joinLines trimmed, hdata, (h.of_skipSpace_eq hskip).relaid hrelaid⟩

theorem data?_of_mark (h : l.pieces = [endMark]) : data? l.event = some endMark := by
  obtain ⟨trimmed, htrims, hdata⟩ := l.exists_data (by rw [h]; exact List.cons_ne_nil _ _)
  rw [h] at htrims
  cases htrims with
  | cons hmark hnone =>
      cases hnone
      rw [hdata, hmark.eq_of_mark]
      rfl

end Layout

end EventStream

end Chat

end Marginalia
