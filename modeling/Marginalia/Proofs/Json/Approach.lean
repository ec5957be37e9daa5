import Marginalia.Proofs.Json.Quoting

/-!
# Readings that start in front of an object

A reading that starts in front of an object ends in front of it as well, or it takes just
this object, or it takes a string that runs into the object and ends at the first quote
there.  If no separator is ahead behind that quote, a reading of the last kind is not part
of any longer one.  So nothing that opens in front of the object ends inside it.
-/

namespace Marginalia

namespace Json

/--
An object that is all of a text, by what follows its opening brace: a quote, behind which
no separator is ahead.
-/
structure Anchored (body : List Char) (members : List (String × Json)) : Prop where
  whole : Reads maxDepth ('\x7b' :: body) (.value (.object members)) []
  key : ∃ name, skipSpace body = '"' :: name ∧ ¬ Separated name

/-- Where a reading that started in front of an object has come. -/
def Outcome (body : List Char) (members : List (String × Json)) (rest : List Char) :
    Phrase → Prop
  | .value (.object ms) => '\x7b' :: body <:+ rest ∨ ms = members ∧ rest = []
  | .value _ => '\x7b' :: body <:+ rest ∨ ¬ Separated rest
  | .member _ => '\x7b' :: body <:+ rest ∨ ¬ Separated rest
  | .items _ => '\x7b' :: body <:+ rest
  | .members _ => '\x7b' :: body <:+ rest

theorem not_separated_nil : ¬ Separated [] := nofun

theorem not_separated_cons {c : Char} {text : List Char} (hspace : isSpace c = false)
    (hc : ¬ (c = ',' ∨ c = ':' ∨ c = ']' ∨ c = '\x7d')) : ¬ Separated (c :: text) := by
  rintro ⟨d, rest, ahead, hd⟩
  rw [skipSpace_cons_of_not_isSpace hspace] at ahead
  cases ahead
  exact hc hd

section

variable {body : List Char} {members : List (String × Json)}

theorem Outcome.suffix_or_stuck {rest : List Char} {phrase : Phrase}
    (h : Outcome body members rest phrase) : '\x7b' :: body <:+ rest ∨ ¬ Separated rest := by
  unfold Outcome at h
  split at h
  · rcases h with hsuffix | ⟨-, rfl⟩
    · exact .inl hsuffix
    · exact .inr not_separated_nil
  · exact h
  · exact h
  · exact .inl h
  · exact .inl h

theorem Outcome.suffix {rest : List Char} {phrase : Phrase}
    (h : Outcome body members rest phrase) (hseparated : Separated rest) :
    '\x7b' :: body <:+ rest :=
  h.suffix_or_stuck.resolve_right fun hstuck => hstuck hseparated

theorem brace_suffix_of_inert (used : List Char) {rest : List Char}
    (h : '\x7b' :: body <:+ used ++ rest) (hused : ∀ c ∈ used, Inert c) :
    '\x7b' :: body <:+ rest :=
  brace_suffix_of_append (fun hmem => (hused _ hmem).2.2 rfl) h

theorem brace_suffix_of_cons {c : Char} {text : List Char} (h : '\x7b' :: body <:+ c :: text)
    (hc : c ≠ '\x7b') : '\x7b' :: body <:+ text := by
  rcases List.suffix_cons_iff.mp h with heq | hlater
  · exact absurd (List.cons.inj heq).1.symm hc
  · exact hlater

/-- A hexadecimal escape stands in front of the object. -/
theorem brace_suffix_of_unit {a b c d : Char} {v : Nat} {text : List Char}
    (hv : hexUnit? a b c d = some v)
    (h : '\x7b' :: body <:+ '\\' :: 'u' :: a :: b :: c :: d :: text) :
    '\x7b' :: body <:+ text := by
  have hdigits := brace_suffix_of_cons (brace_suffix_of_cons h (by decide)) (by decide)
  exact brace_suffix_of_inert [a, b, c, d] hdigits (inert_of_hexUnit? hv)

theorem brace_suffix_of_ahead {text inner : List Char} {c : Char}
    (h : '\x7b' :: body <:+ text) (ahead : skipSpace text = c :: inner) (hc : c ≠ '\x7b') :
    '\x7b' :: body <:+ inner := by
  obtain ⟨blanks, hsplit, hblanks⟩ := exists_blanks_append text
  rw [hsplit, ahead] at h
  have hbrace := brace_suffix_of_inert _ h fun d hd => inert_of_isSpace (hblanks d hd)
  exact brace_suffix_of_cons hbrace hc

/-- A string that goes on with blanks and a quote ends there. -/
theorem Body.rest_eq_of_quote_ahead {text cs rest name : List Char} (h : Body text cs rest)
    (ahead : skipSpace text = '"' :: name) : rest = name := by
  induction h with
  | close =>
      rw [skipSpace_cons_of_not_isSpace (by decide)] at ahead
      exact (List.cons.inj ahead).2
  | @plain c text cs rest hquote hescape hcontrol next ih =>
      by_cases hc : isSpace c = true
      · rw [skipSpace_cons_of_isSpace hc] at ahead
        exact ih ahead
      · rw [Bool.not_eq_true] at hc
        rw [skipSpace_cons_of_not_isSpace hc] at ahead
        exact absurd (List.cons.inj ahead).1 hquote
  | letter _ _ _ =>
      rw [skipSpace_cons_of_not_isSpace (by decide)] at ahead
      cases ahead
  | unit _ _ _ _ =>
      rw [skipSpace_cons_of_not_isSpace (by decide)] at ahead
      cases ahead
  | pair _ _ _ _ _ _ _ _ =>
      rw [skipSpace_cons_of_not_isSpace (by decide)] at ahead
      cases ahead

/-- A string that starts in front of the object ends there, or at the first quote inside. -/
theorem Body.approach {text cs rest : List Char} (h : Body text cs rest)
    (anchored : Anchored body members) (hsuffix : '\x7b' :: body <:+ text) :
    '\x7b' :: body <:+ rest ∨ ¬ Separated rest := by
  obtain ⟨name, hname, hstuck⟩ := anchored.key
  induction h with
  | close => exact .inl (brace_suffix_of_cons hsuffix (by decide))
  | plain _ _ _ next ih =>
      rcases List.suffix_cons_iff.mp hsuffix with heq | hlater
      · -- the object opens inside the string, and its first quote ends the string
        cases heq
        rw [next.rest_eq_of_quote_ahead hname]
        exact .inr hstuck
      · exact ih hlater
  | letter hc _ ih =>
      have hletter := brace_suffix_of_cons hsuffix (by decide)
      refine ih (brace_suffix_of_cons hletter ?_)
      rintro rfl
      simp [simpleEscape?] at hc
  | unit hv _ _ ih => exact ih (brace_suffix_of_unit hv hsuffix)
  | pair hhigh _ _ hlow _ _ _ ih =>
      exact ih (brace_suffix_of_unit hlow (brace_suffix_of_unit hhigh hsuffix))

theorem brace_suffix_of_numberBody {isNegative : Bool} {text rest : List Char} {n : Number}
    (number : numberBody true isNegative text = .ok (n, rest))
    (h : '\x7b' :: body <:+ text) : '\x7b' :: body <:+ rest := by
  obtain ⟨used, hsplit, hused⟩ := (numberBody_takes number).split
  rw [hsplit] at h
  exact brace_suffix_of_inert _ h fun c hc => inert_of_isNumeral (hused c hc)

/-- An opening brace in front of the object is that of the object, or it stands in front of it. -/
theorem eq_or_brace_suffix {text inner : List Char} (h : '\x7b' :: body <:+ text)
    (ahead : skipSpace text = '\x7b' :: inner) :
    inner = body ∨ '\x7b' :: body <:+ inner := by
  obtain ⟨blanks, hsplit, hblanks⟩ := exists_blanks_append text
  rw [hsplit, ahead] at h
  have hbrace := brace_suffix_of_inert _ h fun d hd => inert_of_isSpace (hblanks d hd)
  rcases List.suffix_cons_iff.mp hbrace with heq | hlater
  · exact .inl (List.cons.inj heq).2.symm
  · exact .inr hlater

/-- What starts with the object's own brace is the object. -/
theorem Anchored.eq_of_ahead {depth : Nat} {text rest : List Char} {ms : List (String × Json)}
    (anchored : Anchored body members) (h : Reads depth text (.value (.object ms)) rest)
    (ahead : skipSpace text = '\x7b' :: body) : ms = members ∧ rest = [] := by
  have hbrace : skipSpace ('\x7b' :: body) = '\x7b' :: body :=
    skipSpace_cons_of_not_isSpace (by decide)
  obtain ⟨hvalue, hrest⟩ := (h.of_skipSpace_eq (hbrace.trans ahead.symm)).unique anchored.whole
  cases hvalue
  exact ⟨rfl, hrest⟩

/--
A reading that starts in front of the object takes nothing of it, or all of it, or it ends
where no separator is ahead.
-/
theorem Reads.approach {depth : Nat} {text rest : List Char} {phrase : Phrase}
    (h : Reads depth text phrase rest) (anchored : Anchored body members)
    (hsuffix : '\x7b' :: body <:+ text) : Outcome body members rest phrase := by
  induction h with
  | nullWord ahead =>
      have hword := brace_suffix_of_ahead hsuffix ahead (by decide)
      exact .inl (brace_suffix_of_inert ['u', 'l', 'l'] hword (by simp [Inert]))
  | trueWord ahead =>
      have hword := brace_suffix_of_ahead hsuffix ahead (by decide)
      exact .inl (brace_suffix_of_inert ['r', 'u', 'e'] hword (by simp [Inert]))
  | falseWord ahead =>
      have hword := brace_suffix_of_ahead hsuffix ahead (by decide)
      exact .inl (brace_suffix_of_inert ['a', 'l', 's', 'e'] hword (by simp [Inert]))
  | negative ahead number =>
      have hbody := brace_suffix_of_ahead hsuffix ahead (by decide)
      exact .inl (brace_suffix_of_numberBody number hbody)
  | unsigned ahead digit number =>
      have hinert := inert_of_isNumeral (isNumeral_of_isDigit digit)
      have hdigit := brace_suffix_of_ahead hsuffix ahead hinert.2.2
      exact .inl (brace_suffix_of_numberBody number (hdigit.trans (List.suffix_cons _ _)))
  | string ahead chars =>
      exact chars.approach anchored (brace_suffix_of_ahead hsuffix ahead (by decide))
  | emptyArray ahead close =>
      have hinner := brace_suffix_of_ahead hsuffix ahead (by decide)
      exact .inl (brace_suffix_of_ahead hinner close (by decide))
  | array ahead first others hfirst hothers =>
      have hinner := brace_suffix_of_ahead hsuffix ahead (by decide)
      exact .inl (hothers ((hfirst hinner).suffix others.separated_items))
  | itemsEnd close => exact brace_suffix_of_ahead hsuffix close (by decide)
  | itemsMore comma _ others hfirst hothers =>
      have hnext := brace_suffix_of_ahead hsuffix comma (by decide)
      exact hothers ((hfirst hnext).suffix others.separated_items)
  | member ahead name colon value hvalue =>
      have hname := brace_suffix_of_ahead hsuffix ahead (by decide)
      have hafter := (name.approach anchored hname).resolve_right fun hstuck =>
        hstuck ⟨_, _, colon, by simp⟩
      exact (hvalue (brace_suffix_of_ahead hafter colon (by decide))).suffix_or_stuck
  | emptyObject ahead close =>
      rcases eq_or_brace_suffix hsuffix ahead with rfl | hinner
      · have hobject : Reads maxDepth _ (.value (.object [])) _ := .emptyObject ahead close
        exact .inr (anchored.eq_of_ahead hobject ahead)
      · exact .inl (brace_suffix_of_ahead hinner close (by decide))
  | object ahead first others hfirst hothers =>
      rcases eq_or_brace_suffix hsuffix ahead with rfl | hinner
      · exact .inr (anchored.eq_of_ahead (.object ahead first others) ahead)
      · exact .inl (hothers ((hfirst hinner).suffix others.separated_members))
  | membersEnd close => exact brace_suffix_of_ahead hsuffix close (by decide)
  | membersMore comma _ others hfirst hothers =>
      have hnext := brace_suffix_of_ahead hsuffix comma (by decide)
      exact hothers ((hfirst hnext).suffix others.separated_members)

end

end Json

end Marginalia
