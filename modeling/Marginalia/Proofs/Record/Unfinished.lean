import Marginalia.Proofs.Record.Drain

/-!
# The text of a record before it is complete

Take the text of a record with no record inside.  Each opening brace of its front opens
the record itself, which is not closed there, or an object that spells no record, or it
stands inside a string.  What is read from a brace inside a string has no key that starts
with a letter, so it spells no record either.
-/

namespace Marginalia

namespace Record

open Json (Reads WellQuoted brace_suffix_of_append eq_of_first_brace)

theorem ofMembers?_eq_none {ms : List (String × Json)}
    (h : Json.lookup? ms "line" = none) : ofMembers? ms = none := by
  simp [ofMembers?, h]

/-- What is read from a brace inside a string spells no record. -/
theorem ofMembers?_of_misaligned {depth : Nat} {opens : List Char → Prop}
    {inner rest : List Char} {ms : List (String × Json)}
    (h : Reads depth ('\x7b' :: inner) (.value (.object ms)) rest)
    (hquoted : WellQuoted opens .string inner) : ofMembers? ms = none := by
  have hbrace : WellQuoted opens .string ('\x7b' :: inner) :=
    (Json.wellQuoted_string_cons (by decide) (by decide)).mpr hquoted
  obtain ⟨-, hkeys⟩ := h.misaligned hbrace
  refine ofMembers?_eq_none (Json.lookup?_eq_none fun hname => ?_)
  have hline := hkeys "line" hname 'l' rfl
  revert hline
  decide

/-! ## The text of one record -/

/-- Whether the object that opens in front of a text is complete and spells no record. -/
def Barren (inner : List Char) : Prop :=
  ∃ ms rest, Reads Json.maxDepth ('\x7b' :: inner) (.value (.object ms)) rest ∧
    ofMembers? ms = none

/-- A text that spells a record and no other record inside it. -/
structure Spelling where
  text : List Char
  members : List (String × Json)
  record : Record
  whole : firstObject? (Json.fuelFor text) text = some (members, [])
  spells : ofMembers? members = some record
  bare : ∀ inner ∈ Json.objects.ofMembers members, ofMembers? inner = none

namespace Spelling

variable (s : Spelling)

theorem reads : Reads Json.maxDepth s.text (.value (.object s.members)) [] :=
  (firstObject?_eq_some_iff (Nat.le_succ _)).mp s.whole

theorem closer_suffix : ['\x7d'] <:+ s.text :=
  s.reads.closer_suffix

/-- After its opening brace, the text of a record is well quoted and opens no record. -/
theorem wellQuoted {body : List Char}
    (h : Reads Json.maxDepth ('\x7b' :: body) (.value (.object s.members)) []) :
    WellQuoted Barren .outside body := by
  refine h.wellQuoted_inside (Nat.le_refl _) ?_ Json.delimited_nil trivial
  intro inner ms rest hms hreads
  exact ⟨ms, rest, hreads, s.bare ms hms⟩

/--
In a front of a record's text, an opening brace that starts an object is not the first one
of the record, and the object spells no record.
-/
theorem of_brace_suffix {lead body front more inner rest : List Char}
    {ms : List (String × Json)} (hlead : '\x7b' ∉ lead)
    (hbody : Reads Json.maxDepth ('\x7b' :: body) (.value (.object s.members)) [])
    (hfront : front ++ more = lead ++ '\x7b' :: body) (hmore : more ≠ [])
    (hstart : '\x7b' :: inner <:+ front)
    (hreads : Reads Json.maxDepth ('\x7b' :: inner) (.value (.object ms)) rest) :
    '\x7b' :: (inner ++ more) <:+ body ∧ ofMembers? ms = none := by
  have hwhole := hreads.append (fun h => h.elim) more
  rw [List.cons_append] at hwhole
  have hsuffix : '\x7b' :: (inner ++ more) <:+ '\x7b' :: body := by
    refine brace_suffix_of_append hlead ?_
    rw [← hfront]
    obtain ⟨used, hused⟩ := hstart
    exact ⟨used, by rw [← hused, List.append_assoc, List.cons_append]⟩
  rw [List.suffix_cons_iff] at hsuffix
  rcases hsuffix with heq | hlater
  · -- the brace is the first one of the record, which ends with all of the text
    rw [heq] at hwhole
    obtain ⟨-, hrest⟩ := hbody.unique hwhole
    exact absurd (List.append_eq_nil_iff.mp hrest.symm).2 hmore
  · refine ⟨hlater, ?_⟩
    obtain ⟨used, hused⟩ := hlater
    have hquoted := s.wellQuoted hbody
    rw [← hused, ← List.cons_append, ← List.append_assoc] at hquoted
    rcases hquoted.of_append.of_brace_suffix (List.suffix_append used _) with hbarren | hstring
    · obtain ⟨ms', rest', hreads', hms'⟩ := hbarren
      obtain ⟨heq, -⟩ := hreads'.unique hwhole
      cases heq
      exact hms'
    · exact ofMembers?_of_misaligned hreads hstring

/-- Nothing can be decoded before the text of a record is complete. -/
theorem decodeNext?_front {gap front more : List Char} (hgap : '\x7b' ∉ gap)
    (hfront : front ++ more = gap ++ s.text) (hmore : more ≠ []) : decodeNext? front = none := by
  obtain ⟨blanks, body, htext, hblanks, hbody⟩ := s.reads.exists_brace
  have hlead : '\x7b' ∉ gap ++ blanks := fun h => (List.mem_append.mp h).elim hgap hblanks
  rw [htext, ← List.append_assoc] at hfront
  rw [decodeNext?_eq_none_iff]
  refine ⟨fun ms rest hreads => ?_, fun start ms rest hstart hreads => ?_⟩
  · obtain ⟨blanks', inner, hsplit, hblanks', hinner⟩ := hreads.exists_brace
    have hbrace : '\x7b' :: inner <:+ front := ⟨blanks', hsplit.symm⟩
    obtain ⟨hsuffix, -⟩ := s.of_brace_suffix hlead hbody hfront hmore hbrace hinner
    rw [hsplit, List.append_assoc, List.cons_append] at hfront
    have hlength := hsuffix.length_le
    rw [eq_of_first_brace hblanks' hlead hfront, List.length_cons] at hlength
    exact absurd hlength (Nat.not_succ_le_self _)
  · obtain ⟨inner, hbrace, hinner⟩ := hreads.exists_brace_suffix hstart
    exact (s.of_brace_suffix hlead hbody hfront hmore hbrace hinner).2

/-- Once the text of a record is complete, the record is decoded and nothing after it is used. -/
theorem decodeNext?_complete {gap : List Char} (hgap : '\x7b' ∉ gap) (after : List Char) :
    decodeNext? (gap ++ s.text ++ after) = some (.record s.record after) := by
  obtain ⟨blanks, body, htext, hblanks, hbody⟩ := s.reads.exists_brace
  have hlead : '\x7b' ∉ gap ++ blanks := fun h => (List.mem_append.mp h).elim hgap hblanks
  have hwhole := hbody.append (fun h => h.elim) after
  rw [List.cons_append, List.nil_append] at hwhole
  have hpending : gap ++ s.text ++ after = gap ++ blanks ++ '\x7b' :: (body ++ after) := by
    rw [htext, ← List.append_assoc, List.append_assoc _ _ after, List.cons_append]
  rw [hpending]
  generalize gap ++ blanks = lead at hlead
  have hfuel := Nat.le_succ (lead ++ '\x7b' :: (body ++ after)).length
  cases hfirst : firstObject? (Json.fuelFor (lead ++ '\x7b' :: (body ++ after)))
      (lead ++ '\x7b' :: (body ++ after)) with
  | some found =>
      obtain ⟨ms, rest⟩ := found
      obtain ⟨blanks', inner, hsplit, hblanks', hinner⟩ :=
        ((firstObject?_eq_some_iff hfuel).mp hfirst).exists_brace
      rw [← eq_of_first_brace hlead hblanks' hsplit] at hinner
      obtain ⟨heq, hrest⟩ := hinner.unique hwhole
      cases heq
      rw [decodeNext?, hfirst]
      simp [s.spells, hrest]
  | none =>
      cases lead with
      | nil => exact absurd hwhole ((firstObject?_eq_none_iff hfuel).mp hfirst _ _)
      | cons c lead =>
          have hlater : '\x7b' ∉ lead := fun h => hlead (List.mem_cons_of_mem c h)
          rw [decodeNext?, hfirst, List.cons_append, List.tail_cons,
            resync?_append hlater, resync?_of_reads _ hwhole s.spells]
          · rfl
          · simp only [Json.fuelFor, List.length_cons, List.length_append]
            omega

end Spelling

end Record

end Marginalia
