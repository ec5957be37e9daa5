import Marginalia.Proofs.Json.Contained

/-!
# What a phrase was read from

A phrase that is read in front of some text is read without this text just the same: what
was taken off is a phrase by itself.  A number alone asks for something that delimits it.
-/

namespace Marginalia

namespace Json

theorem Body.exists_front {text cs rest more : List Char} (h : Body text cs (rest ++ more)) :
    ∃ front, text = front ++ more ∧ Body front cs rest := by
  generalize htail : rest ++ more = tail at h
  induction h with
  | close =>
      subst htail
      exact ⟨'"' :: rest, rfl, .close⟩
  | @plain c _ _ _ hquote hescape hcontrol _ ih =>
      obtain ⟨front, rfl, hbody⟩ := ih htail
      exact ⟨c :: front, rfl, .plain hquote hescape hcontrol hbody⟩
  | @letter c _ _ _ _ hc _ ih =>
      obtain ⟨front, rfl, hbody⟩ := ih htail
      exact ⟨'\\' :: c :: front, rfl, .letter hc hbody⟩
  | @unit a b c d _ _ _ _ hv hbelow _ ih =>
      obtain ⟨front, rfl, hbody⟩ := ih htail
      exact ⟨'\\' :: 'u' :: a :: b :: c :: d :: front, rfl, .unit hv hbelow hbody⟩
  | @pair a b c d e f g h _ _ _ _ _ hhigh high_ge high_le hlow low_ge low_le _ ih =>
      obtain ⟨front, rfl, hbody⟩ := ih htail
      exact ⟨'\\' :: 'u' :: a :: b :: c :: d :: '\\' :: 'u' :: e :: f :: g :: h :: front, rfl,
        .pair hhigh high_ge high_le hlow low_ge low_le hbody⟩

/-- A number in front of a text that is delimited is taken off in the same way without it. -/
theorem exists_front_of_numberBody {isNegative : Bool} {text rest more : List Char} {n : Number}
    (h : numberBody true isNegative text = .ok (n, rest ++ more))
    (hdelimited : Delimited (rest ++ more)) :
    ∃ front, text = front ++ more ∧ numberBody true isNegative front = .ok (n, rest) := by
  obtain ⟨used, hsplit, -⟩ := (numberBody_takes h).split
  rw [hsplit] at h
  refine ⟨used ++ rest, ?_, numberBody_of_delimited h hdelimited hdelimited.of_append⟩
  rw [hsplit, List.append_assoc]

/-- The token ahead stands at the same place when what follows it is cut short. -/
theorem exists_front_of_skipSpace {text after more : List Char} {c : Char}
    (h : skipSpace text = c :: (after ++ more)) :
    ∃ front, text = front ++ more ∧ skipSpace front = c :: after := by
  obtain ⟨blanks, hsplit, hblanks⟩ := exists_blanks_append text
  refine ⟨blanks ++ c :: after, ?_, ?_⟩
  · rw [hsplit, h, List.append_assoc, List.cons_append]
  · rw [skipSpace_blanks_append hblanks,
      skipSpace_cons_of_not_isSpace (isSpace_of_skipSpace_eq_cons h)]

namespace Reads

/-- What is read in front of some text is read without it, and leaves what is in between. -/
theorem exists_front {depth : Nat} {text rest more : List Char} {phrase : Phrase}
    (h : Reads depth text phrase (rest ++ more))
    (hrest : phrase.EndsInNumber → Delimited (rest ++ more)) :
    ∃ front, text = front ++ more ∧ Reads depth front phrase rest := by
  generalize htail : rest ++ more = tail at h hrest
  induction h generalizing rest with
  | nullWord ahead =>
      subst htail
      obtain ⟨front, hsplit, hahead⟩ :=
        @exists_front_of_skipSpace _ ('u' :: 'l' :: 'l' :: rest) _ _ ahead
      exact ⟨front, hsplit, .nullWord hahead⟩
  | trueWord ahead =>
      subst htail
      obtain ⟨front, hsplit, hahead⟩ :=
        @exists_front_of_skipSpace _ ('r' :: 'u' :: 'e' :: rest) _ _ ahead
      exact ⟨front, hsplit, .trueWord hahead⟩
  | falseWord ahead =>
      subst htail
      obtain ⟨front, hsplit, hahead⟩ :=
        @exists_front_of_skipSpace _ ('a' :: 'l' :: 's' :: 'e' :: rest) _ _ ahead
      exact ⟨front, hsplit, .falseWord hahead⟩
  | negative ahead number =>
      subst htail
      obtain ⟨body, rfl, hnumber⟩ := exists_front_of_numberBody number (hrest trivial)
      obtain ⟨front, hsplit, hahead⟩ := exists_front_of_skipSpace ahead
      exact ⟨front, hsplit, .negative hahead hnumber⟩
  | unsigned ahead digit number =>
      subst htail
      obtain ⟨body, hbody, hnumber⟩ := exists_front_of_numberBody number (hrest trivial)
      cases body with
      | nil => cases hnumber
      | cons c body =>
          cases hbody
          obtain ⟨front, hsplit, hahead⟩ := exists_front_of_skipSpace ahead
          exact ⟨front, hsplit, .unsigned hahead digit hnumber⟩
  | string ahead chars =>
      subst htail
      obtain ⟨body, rfl, hbody⟩ := chars.exists_front
      obtain ⟨front, hsplit, hahead⟩ := exists_front_of_skipSpace ahead
      exact ⟨front, hsplit, .string hahead hbody⟩
  | emptyArray ahead close =>
      subst htail
      obtain ⟨inner, rfl, hclose⟩ := exists_front_of_skipSpace close
      obtain ⟨front, hsplit, hahead⟩ := exists_front_of_skipSpace ahead
      exact ⟨front, hsplit, .emptyArray hahead hclose⟩
  | array ahead _ others hfirst hothers =>
      obtain ⟨after, hafter, hitems⟩ := hothers htail False.elim
      obtain ⟨inner, rfl, hitem⟩ := hfirst hafter.symm fun _ => others.separated_items.delimited
      obtain ⟨front, hsplit, hahead⟩ := exists_front_of_skipSpace ahead
      exact ⟨front, hsplit, .array hahead hitem hitems⟩
  | itemsEnd close =>
      subst htail
      obtain ⟨front, hsplit, hclose⟩ := exists_front_of_skipSpace close
      exact ⟨front, hsplit, .itemsEnd hclose⟩
  | itemsMore comma _ others hfirst hothers =>
      obtain ⟨after, hafter, hitems⟩ := hothers htail False.elim
      obtain ⟨next, rfl, hitem⟩ := hfirst hafter.symm fun _ => others.separated_items.delimited
      obtain ⟨front, hsplit, hcomma⟩ := exists_front_of_skipSpace comma
      exact ⟨front, hsplit, .itemsMore hcomma hitem hitems⟩
  | member ahead name colon _ hvalue =>
      obtain ⟨next, rfl, hread⟩ := hvalue htail hrest
      obtain ⟨after, rfl, hcolon⟩ := exists_front_of_skipSpace colon
      obtain ⟨body, rfl, hname⟩ := name.exists_front
      obtain ⟨front, hsplit, hahead⟩ := exists_front_of_skipSpace ahead
      exact ⟨front, hsplit, .member hahead hname hcolon hread⟩
  | emptyObject ahead close =>
      subst htail
      obtain ⟨inner, rfl, hclose⟩ := exists_front_of_skipSpace close
      obtain ⟨front, hsplit, hahead⟩ := exists_front_of_skipSpace ahead
      exact ⟨front, hsplit, .emptyObject hahead hclose⟩
  | object ahead _ others hfirst hothers =>
      obtain ⟨after, hafter, hmembers⟩ := hothers htail False.elim
      obtain ⟨inner, rfl, hmember⟩ :=
        hfirst hafter.symm fun _ => others.separated_members.delimited
      obtain ⟨front, hsplit, hahead⟩ := exists_front_of_skipSpace ahead
      exact ⟨front, hsplit, .object hahead hmember hmembers⟩
  | membersEnd close =>
      subst htail
      obtain ⟨front, hsplit, hclose⟩ := exists_front_of_skipSpace close
      exact ⟨front, hsplit, .membersEnd hclose⟩
  | membersMore comma _ others hfirst hothers =>
      obtain ⟨after, hafter, hmembers⟩ := hothers htail False.elim
      obtain ⟨next, rfl, hmember⟩ :=
        hfirst hafter.symm fun _ => others.separated_members.delimited
      obtain ⟨front, hsplit, hcomma⟩ := exists_front_of_skipSpace comma
      exact ⟨front, hsplit, .membersMore hcomma hmember hmembers⟩

end Reads

end Json

end Marginalia
