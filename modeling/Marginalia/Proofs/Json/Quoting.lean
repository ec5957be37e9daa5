import Marginalia.Proofs.Json.Accepted

/-!
# Readings that start inside a string

A text is well quoted when every string that closes is followed by what may follow a
string, and no escape stands outside of one.  A reading that starts inside a string takes
the text between two strings for a string, and the strings for what stands between.  It
keeps out of step to its end, and no key it reads starts with a letter.
-/

namespace Marginalia

namespace Json

/-! ## The objects in a value -/

/-- The members of every object in a value, those of the value itself among them. -/
def objects : Json → List (List (String × Json))
  | array items => ofItems items
  | object members => members :: ofMembers members
  | _ => []
where
  ofItems : List Json → List (List (String × Json))
    | [] => []
    | item :: items => objects item ++ ofItems items
  ofMembers : List (String × Json) → List (List (String × Json))
    | [] => []
    | (_, value) :: members => objects value ++ ofMembers members

def Phrase.objects : Phrase → List (List (String × Json))
  | .value v => v.objects
  | .member m => m.2.objects
  | .items vs => Json.objects.ofItems vs
  | .members ms => Json.objects.ofMembers ms

def Phrase.keys : Phrase → List String
  | .value (.object ms) => ms.map (·.1)
  | .member m => [m.1]
  | .members ms => ms.map (·.1)
  | _ => []

/-! ## Well quoted texts -/

/-- Where a character stands with respect to strings. -/
inductive Place where
  | outside
  | string
  /-- Inside a string, behind a backslash. -/
  | escape
  deriving DecidableEq, Repr

/-- Whether a text may follow a string: it is at its end, or goes on with a blank or a separator. -/
def Delimited (text : List Char) : Prop :=
  ∀ c ∈ text.head?, isSpace c = true ∨ c = ',' ∨ c = ':' ∨ c = ']' ∨ c = '\x7d'

/--
A text with its first character at the given place: each string that closes is delimited,
no backslash stands outside a string, and each opening brace there is followed by a text
that `opens` allows.
-/
def WellQuoted (opens : List Char → Prop) : Place → List Char → Prop
  | _, [] => True
  | .outside, c :: text =>
      c ≠ '\\' ∧ (c = '\x7b' → opens text) ∧
        if c = '"' then WellQuoted opens .string text else WellQuoted opens .outside text
  | .string, c :: text =>
      if c = '"' then Delimited text ∧ WellQuoted opens .outside text
      else if c = '\\' then WellQuoted opens .escape text
      else WellQuoted opens .string text
  | .escape, _ :: text => WellQuoted opens .string text

theorem delimited_nil : Delimited [] := by
  simp [Delimited]

theorem Delimited.of_append {text more : List Char} (h : Delimited (text ++ more)) :
    Delimited text := by
  cases text with
  | nil => exact delimited_nil
  | cons c text => simpa [Delimited] using h

theorem Delimited.isNumeral_eq_false {text : List Char} {c : Char} (h : Delimited text)
    (hc : c ∈ text.head?) : isNumeral c = false := by
  rcases h c hc with hspace | rfl | rfl | rfl | rfl
  · simp only [isSpace, Bool.or_eq_true, beq_iff_eq] at hspace
    rcases hspace with ((rfl | rfl) | rfl) | rfl
    all_goals decide
  all_goals decide

def Separated (text : List Char) : Prop :=
  ∃ c rest, skipSpace text = c :: rest ∧ (c = ',' ∨ c = ':' ∨ c = ']' ∨ c = '\x7d')

theorem Separated.delimited {text : List Char} (h : Separated text) : Delimited text := by
  obtain ⟨c, rest, h, hc⟩ := h
  cases text with
  | nil => exact delimited_nil
  | cons d text =>
      intro e he
      cases he
      by_cases hd : isSpace d = true
      · exact .inl hd
      · rw [Bool.not_eq_true] at hd
        rw [skipSpace_cons_of_not_isSpace hd] at h
        cases h
        exact .inr hc

/-- Whether a character neither opens nor ends a string nor opens an object. -/
def Inert (c : Char) : Prop :=
  c ≠ '"' ∧ c ≠ '\\' ∧ c ≠ '\x7b'

instance (c : Char) : Decidable (Inert c) :=
  inferInstanceAs (Decidable (_ ∧ _))

theorem inert_of_isSpace {c : Char} (h : isSpace c = true) : Inert c := by
  refine ⟨?_, ?_, ?_⟩ <;> rintro rfl <;> simp [isSpace] at h

theorem inert_of_isNumeral {c : Char} (h : isNumeral c = true) : Inert c := by
  refine ⟨?_, ?_, ?_⟩ <;> rintro rfl <;> simp [isNumeral, Text.isDigit] at h

theorem inert_of_hexValue? {c : Char} {v : Nat} (h : Text.hexValue? c = some v) : Inert c := by
  refine ⟨?_, ?_, ?_⟩ <;> rintro rfl <;> simp [Text.hexValue?] at h

theorem inert_of_hexUnit? {a b c d : Char} {v : Nat} (h : hexUnit? a b c d = some v) :
    ∀ e ∈ [a, b, c, d], Inert e := by
  obtain ⟨va, vb, vc, vd, ha, hb, hc, hd, -⟩ := hexUnit?_eq_some_iff.mp h
  intro e he
  simp only [List.mem_cons, List.not_mem_nil, or_false] at he
  rcases he with rfl | rfl | rfl | rfl
  · exact inert_of_hexValue? ha
  · exact inert_of_hexValue? hb
  · exact inert_of_hexValue? hc
  · exact inert_of_hexValue? hd

section

variable {opens : List Char → Prop}

theorem wellQuoted_outside_cons {c : Char} {text : List Char} (hquote : c ≠ '"')
    (hescape : c ≠ '\\') (hbrace : c = '\x7b' → opens text) :
    WellQuoted opens .outside (c :: text) ↔ WellQuoted opens .outside text := by
  simp only [WellQuoted, if_neg hquote]
  exact ⟨fun h => h.2.2, fun h => ⟨hescape, hbrace, h⟩⟩

theorem wellQuoted_string_cons {c : Char} {text : List Char} (hquote : c ≠ '"')
    (hescape : c ≠ '\\') :
    WellQuoted opens .string (c :: text) ↔ WellQuoted opens .string text := by
  simp only [WellQuoted, if_neg hquote, if_neg hescape]

theorem wellQuoted_append {place : Place} (used : List Char) {text : List Char}
    (hplace : place ≠ .escape) (hused : ∀ c ∈ used, Inert c) :
    WellQuoted opens place (used ++ text) ↔ WellQuoted opens place text := by
  induction used with
  | nil => rfl
  | cons c used ih =>
      obtain ⟨hquote, hescape, hbrace⟩ := hused c List.mem_cons_self
      rw [← ih fun d hd => hused d (List.mem_cons_of_mem c hd), List.cons_append]
      cases place with
      | outside => exact wellQuoted_outside_cons hquote hescape fun hc => absurd hc hbrace
      | string => exact wellQuoted_string_cons hquote hescape
      | escape => exact absurd rfl hplace

theorem wellQuoted_skipSpace {place : Place} {text : List Char} (hplace : place ≠ .escape) :
    WellQuoted opens place (skipSpace text) ↔ WellQuoted opens place text := by
  obtain ⟨blanks, hsplit, hblanks⟩ := exists_blanks_append text
  conv_rhs => rw [hsplit]
  exact (wellQuoted_append _ hplace fun c hc => inert_of_isSpace (hblanks c hc)).symm

theorem wellQuoted_numberBody {place : Place} {isNegative : Bool} {text rest : List Char}
    {n : Number} (hplace : place ≠ .escape)
    (number : numberBody true isNegative text = .ok (n, rest)) :
    WellQuoted opens place text ↔ WellQuoted opens place rest := by
  obtain ⟨used, hsplit, hused⟩ := (numberBody_takes number).split
  rw [hsplit]
  exact wellQuoted_append _ hplace fun c hc => inert_of_isNumeral (hused c hc)

theorem wellQuoted_outside_of_ahead {c : Char} {text inner : List Char}
    (ahead : skipSpace text = c :: inner) (hquote : c ≠ '"') (hescape : c ≠ '\\')
    (hbrace : c = '\x7b' → opens inner) (h : WellQuoted opens .outside inner) :
    WellQuoted opens .outside text := by
  rw [← wellQuoted_skipSpace (by decide), ahead]
  exact (wellQuoted_outside_cons hquote hescape hbrace).mpr h

theorem wellQuoted_string_of_ahead {c : Char} {text inner : List Char}
    (ahead : skipSpace text = c :: inner) (hquote : c ≠ '"') (hescape : c ≠ '\\')
    (h : WellQuoted opens .string text) : WellQuoted opens .string inner := by
  rw [← wellQuoted_skipSpace (by decide), ahead] at h
  exact (wellQuoted_string_cons hquote hescape).mp h

theorem wellQuoted_of_quote_ahead {text inner : List Char}
    (ahead : skipSpace text = '"' :: inner) (h : WellQuoted opens .string text) :
    Delimited inner ∧ WellQuoted opens .outside inner := by
  rw [← wellQuoted_skipSpace (by decide), ahead] at h
  exact h

theorem WellQuoted.of_append {place : Place} {text more : List Char}
    (h : WellQuoted opens place (text ++ more)) :
    WellQuoted (fun inner => opens (inner ++ more)) place text := by
  induction text generalizing place with
  | nil => cases place <;> trivial
  | cons c text ih =>
      cases place with
      | outside =>
          obtain ⟨hescape, hbrace, hnext⟩ := h
          refine ⟨hescape, hbrace, ?_⟩
          split at hnext
          · next hc =>
              rw [if_pos hc]
              exact ih hnext
          · next hc =>
              rw [if_neg hc]
              exact ih hnext
      | string =>
          rw [List.cons_append, WellQuoted] at h
          rw [WellQuoted]
          split at h
          · next hc =>
              rw [if_pos hc]
              exact ⟨h.1.of_append, ih h.2⟩
          · next hquote =>
              rw [if_neg hquote]
              split at h
              · next hc =>
                  rw [if_pos hc]
                  exact ih h
              · next hc =>
                  rw [if_neg hc]
                  exact ih h
      | escape => exact ih h

/-! ## Readings in step -/

theorem wellQuoted_string_unit {a b c d : Char} {v : Nat} {text : List Char}
    (hv : hexUnit? a b c d = some v) :
    WellQuoted opens .string ('\\' :: 'u' :: a :: b :: c :: d :: text) ↔
      WellQuoted opens .string text := by
  rw [WellQuoted, if_neg (by decide), if_pos rfl, WellQuoted]
  exact wellQuoted_append [a, b, c, d] (by decide) (inert_of_hexUnit? hv)

theorem Body.wellQuoted {text cs rest : List Char} (h : Body text cs rest)
    (hdelimited : Delimited rest) (hrest : WellQuoted opens .outside rest) :
    WellQuoted opens .string text := by
  induction h with
  | close => exact ⟨hdelimited, hrest⟩
  | plain hquote hescape _ _ ih =>
      exact (wellQuoted_string_cons hquote hescape).mpr (ih hdelimited hrest)
  | letter _ _ ih => exact ih hdelimited hrest
  | unit hv _ _ ih => exact (wellQuoted_string_unit hv).mpr (ih hdelimited hrest)
  | pair hhigh _ _ hlow _ _ _ ih =>
      rw [wellQuoted_string_unit hhigh, wellQuoted_string_unit hlow]
      exact ih hdelimited hrest

theorem Reads.separated_items {depth : Nat} {text rest : List Char} {vs : List Json}
    (h : Reads depth text (.items vs) rest) : Separated text := by
  cases h with
  | itemsEnd close => exact ⟨_, _, close, by simp⟩
  | itemsMore comma _ _ => exact ⟨_, _, comma, by simp⟩

theorem Reads.separated_members {depth : Nat} {text rest : List Char}
    {ms : List (String × Json)} (h : Reads depth text (.members ms) rest) : Separated text := by
  cases h with
  | membersEnd close => exact ⟨_, _, close, by simp⟩
  | membersMore comma _ _ => exact ⟨_, _, comma, by simp⟩

/--
What a reading in step takes is well quoted if the text after it is, where `opens` allows
what follows the opening brace of each object that is read.
-/
theorem Reads.wellQuoted {depth bound : Nat} {text rest : List Char} {phrase : Phrase}
    (h : Reads depth text phrase rest) (hdepth : depth ≤ bound)
    (hopens : ∀ inner ms rest, ms ∈ phrase.objects →
      Reads bound ('\x7b' :: inner) (.value (.object ms)) rest → opens inner)
    (hdelimited : Delimited rest) (hrest : WellQuoted opens .outside rest) :
    WellQuoted opens .outside text := by
  induction h with
  | nullWord ahead =>
      rw [← wellQuoted_skipSpace (by decide), ahead]
      exact (wellQuoted_append ['n', 'u', 'l', 'l'] (by decide) (by simp [Inert])).mpr hrest
  | trueWord ahead =>
      rw [← wellQuoted_skipSpace (by decide), ahead]
      exact (wellQuoted_append ['t', 'r', 'u', 'e'] (by decide) (by simp [Inert])).mpr hrest
  | falseWord ahead =>
      rw [← wellQuoted_skipSpace (by decide), ahead]
      exact (wellQuoted_append ['f', 'a', 'l', 's', 'e'] (by decide) (by simp [Inert])).mpr hrest
  | negative ahead number =>
      exact wellQuoted_outside_of_ahead ahead (by decide) (by decide) nofun
        ((wellQuoted_numberBody (by decide) number).mpr hrest)
  | unsigned ahead _ number =>
      rw [← wellQuoted_skipSpace (by decide), ahead]
      exact (wellQuoted_numberBody (by decide) number).mpr hrest
  | string ahead chars =>
      rw [← wellQuoted_skipSpace (by decide), ahead]
      exact ⟨by decide, nofun, chars.wellQuoted hdelimited hrest⟩
  | emptyArray ahead close =>
      exact wellQuoted_outside_of_ahead ahead (by decide) (by decide) nofun
        (wellQuoted_outside_of_ahead close (by decide) (by decide) nofun hrest)
  | array ahead first others hfirst hothers =>
      have hafter := hothers (Nat.le_of_succ_le hdepth)
        (fun inner ms rest hms => hopens inner ms rest (List.mem_append_right _ hms))
        hdelimited hrest
      exact wellQuoted_outside_of_ahead ahead (by decide) (by decide) nofun
        (hfirst (Nat.le_of_succ_le hdepth)
          (fun inner ms rest hms => hopens inner ms rest (List.mem_append_left _ hms))
          others.separated_items.delimited hafter)
  | itemsEnd close =>
      exact wellQuoted_outside_of_ahead close (by decide) (by decide) nofun hrest
  | itemsMore comma first others hfirst hothers =>
      have hafter := hothers hdepth
        (fun inner ms rest hms => hopens inner ms rest (List.mem_append_right _ hms))
        hdelimited hrest
      exact wellQuoted_outside_of_ahead comma (by decide) (by decide) nofun
        (hfirst hdepth
          (fun inner ms rest hms => hopens inner ms rest (List.mem_append_left _ hms))
          others.separated_items.delimited hafter)
  | member ahead name colon _ hvalue =>
      have hnext := hvalue hdepth hopens hdelimited hrest
      have hafter := wellQuoted_outside_of_ahead colon (by decide) (by decide) nofun hnext
      rw [← wellQuoted_skipSpace (by decide), ahead]
      have hcolon : Separated _ := ⟨_, _, colon, by simp⟩
      exact ⟨by decide, nofun, name.wellQuoted hcolon.delimited hafter⟩
  | emptyObject ahead close =>
      refine wellQuoted_outside_of_ahead ahead (by decide) (by decide) (fun _ => ?_)
        (wellQuoted_outside_of_ahead close (by decide) (by decide) nofun hrest)
      exact hopens _ [] _ List.mem_cons_self ((Reads.emptyObject rfl close).deepen hdepth)
  | @object depth text inner after rest m ms ahead first others hfirst hothers =>
      have hinner : ∀ inner ms' rest, ms' ∈ Json.objects.ofMembers (m :: ms) →
          Reads bound ('\x7b' :: inner) (.value (.object ms')) rest → opens inner :=
        fun inner ms' rest hms => hopens inner ms' rest (List.mem_cons_of_mem _ hms)
      have hafter := hothers (Nat.le_of_succ_le hdepth)
        (fun inner ms rest hms => hinner inner ms rest (List.mem_append_right _ hms))
        hdelimited hrest
      refine wellQuoted_outside_of_ahead ahead (by decide) (by decide) (fun _ => ?_)
        (hfirst (Nat.le_of_succ_le hdepth)
          (fun inner ms rest hms => hinner inner ms rest (List.mem_append_left _ hms))
          others.separated_members.delimited hafter)
      exact hopens _ (m :: ms) _ List.mem_cons_self
        ((Reads.object rfl first others).deepen hdepth)
  | membersEnd close =>
      exact wellQuoted_outside_of_ahead close (by decide) (by decide) nofun hrest
  | membersMore comma first others hfirst hothers =>
      have hafter := hothers hdepth
        (fun inner ms rest hms => hopens inner ms rest (List.mem_append_right _ hms))
        hdelimited hrest
      exact wellQuoted_outside_of_ahead comma (by decide) (by decide) nofun
        (hfirst hdepth
          (fun inner ms rest hms => hopens inner ms rest (List.mem_append_left _ hms))
          others.separated_members.delimited hafter)

theorem Reads.wellQuoted_inside {depth bound : Nat} {body rest : List Char}
    {ms : List (String × Json)} (h : Reads depth ('\x7b' :: body) (.value (.object ms)) rest)
    (hdepth : depth ≤ bound)
    (hopens : ∀ inner ms' rest, ms' ∈ Json.objects.ofMembers ms →
      Reads bound ('\x7b' :: inner) (.value (.object ms')) rest → opens inner)
    (hdelimited : Delimited rest) (hrest : WellQuoted opens .outside rest) :
    WellQuoted opens .outside body := by
  have hbrace : skipSpace ('\x7b' :: body) = '\x7b' :: body :=
    skipSpace_cons_of_not_isSpace (by decide)
  cases h with
  | emptyObject ahead close =>
      cases hbrace.symm.trans ahead
      exact wellQuoted_outside_of_ahead close (by decide) (by decide) nofun hrest
  | object ahead first others =>
      cases hbrace.symm.trans ahead
      have hafter := others.wellQuoted (Nat.le_of_succ_le hdepth)
        (fun inner ms rest hms => hopens inner ms rest (List.mem_append_right _ hms))
        hdelimited hrest
      exact first.wellQuoted (Nat.le_of_succ_le hdepth)
        (fun inner ms rest hms => hopens inner ms rest (List.mem_append_left _ hms))
        others.separated_members.delimited hafter

/-! ## Readings out of step -/

/-- A string that starts where one ends is closed where one starts. -/
theorem Body.misaligned {text cs rest : List Char} (h : Body text cs rest)
    (hquoted : WellQuoted opens .outside text) : WellQuoted opens .string rest := by
  induction h with
  | close => exact hquoted.2.2
  | plain hquote _ _ _ ih =>
      obtain ⟨-, -, hnext⟩ := hquoted
      rw [if_neg hquote] at hnext
      exact ih hnext
  | letter _ _ _ => exact absurd rfl hquoted.1
  | unit _ _ _ _ => exact absurd rfl hquoted.1
  | pair _ _ _ _ _ _ _ _ => exact absurd rfl hquoted.1

theorem Body.head_of_misaligned {text cs rest : List Char} (h : Body text cs rest)
    (hquoted : WellQuoted opens .outside text) (hdelimited : Delimited text) : Delimited cs := by
  cases h with
  | close => exact delimited_nil
  | plain _ _ _ _ => exact hdelimited
  | letter _ _ => exact absurd rfl hquoted.1
  | unit _ _ _ => exact absurd rfl hquoted.1
  | pair _ _ _ _ _ _ _ => exact absurd rfl hquoted.1

/--
A reading that starts inside a string ends inside a string, and no key on its outermost
level could stand anywhere but between two strings.
-/
theorem Reads.misaligned {depth : Nat} {text rest : List Char} {phrase : Phrase}
    (h : Reads depth text phrase rest) (hquoted : WellQuoted opens .string text) :
    WellQuoted opens .string rest ∧ ∀ key ∈ phrase.keys, Delimited key.toList := by
  induction h with
  | nullWord ahead =>
      rw [← wellQuoted_skipSpace (by decide), ahead] at hquoted
      exact ⟨(wellQuoted_append ['n', 'u', 'l', 'l'] (by decide) (by simp [Inert])).mp hquoted,
        nofun⟩
  | trueWord ahead =>
      rw [← wellQuoted_skipSpace (by decide), ahead] at hquoted
      exact ⟨(wellQuoted_append ['t', 'r', 'u', 'e'] (by decide) (by simp [Inert])).mp hquoted,
        nofun⟩
  | falseWord ahead =>
      rw [← wellQuoted_skipSpace (by decide), ahead] at hquoted
      exact ⟨(wellQuoted_append ['f', 'a', 'l', 's', 'e'] (by decide) (by simp [Inert])).mp
        hquoted, nofun⟩
  | negative ahead number =>
      have hbody := wellQuoted_string_of_ahead ahead (by decide) (by decide) hquoted
      exact ⟨(wellQuoted_numberBody (by decide) number).mp hbody, nofun⟩
  | unsigned ahead _ number =>
      rw [← wellQuoted_skipSpace (by decide), ahead] at hquoted
      exact ⟨(wellQuoted_numberBody (by decide) number).mp hquoted, nofun⟩
  | string ahead chars =>
      -- what is read as a string is what stands between two strings of the text
      obtain ⟨-, hbody⟩ := wellQuoted_of_quote_ahead ahead hquoted
      exact ⟨chars.misaligned hbody, nofun⟩
  | emptyArray ahead close =>
      have hinner := wellQuoted_string_of_ahead ahead (by decide) (by decide) hquoted
      exact ⟨wellQuoted_string_of_ahead close (by decide) (by decide) hinner, nofun⟩
  | array ahead _ _ hfirst hothers =>
      have hinner := wellQuoted_string_of_ahead ahead (by decide) (by decide) hquoted
      exact ⟨(hothers (hfirst hinner).1).1, nofun⟩
  | itemsEnd close =>
      exact ⟨wellQuoted_string_of_ahead close (by decide) (by decide) hquoted, nofun⟩
  | itemsMore comma _ _ hfirst hothers =>
      have hnext := wellQuoted_string_of_ahead comma (by decide) (by decide) hquoted
      exact ⟨(hothers (hfirst hnext).1).1, nofun⟩
  | member ahead name colon _ hvalue =>
      obtain ⟨hdelimited, hbody⟩ := wellQuoted_of_quote_ahead ahead hquoted
      have hafter := name.misaligned hbody
      have hnext := wellQuoted_string_of_ahead colon (by decide) (by decide) hafter
      refine ⟨(hvalue hnext).1, ?_⟩
      intro key hkey
      rw [Phrase.keys, List.mem_singleton] at hkey
      rw [hkey, String.toList_ofList]
      exact name.head_of_misaligned hbody hdelimited
  | emptyObject ahead close =>
      have hinner := wellQuoted_string_of_ahead ahead (by decide) (by decide) hquoted
      exact ⟨wellQuoted_string_of_ahead close (by decide) (by decide) hinner, nofun⟩
  | object ahead _ _ hfirst hothers =>
      have hinner := wellQuoted_string_of_ahead ahead (by decide) (by decide) hquoted
      obtain ⟨hafter, hfirstKey⟩ := hfirst hinner
      obtain ⟨hrest, hotherKeys⟩ := hothers hafter
      exact ⟨hrest, List.forall_mem_cons.mpr ⟨hfirstKey _ List.mem_cons_self, hotherKeys⟩⟩
  | membersEnd close =>
      exact ⟨wellQuoted_string_of_ahead close (by decide) (by decide) hquoted, nofun⟩
  | membersMore comma _ _ hfirst hothers =>
      have hnext := wellQuoted_string_of_ahead comma (by decide) (by decide) hquoted
      obtain ⟨hafter, hfirstKey⟩ := hfirst hnext
      obtain ⟨hrest, hotherKeys⟩ := hothers hafter
      exact ⟨hrest, List.forall_mem_cons.mpr ⟨hfirstKey _ List.mem_cons_self, hotherKeys⟩⟩

end

/-! ## Opening braces -/

theorem eq_of_first_brace {lead lead' after after' : List Char} (hlead : '\x7b' ∉ lead)
    (hlead' : '\x7b' ∉ lead') (h : lead ++ '\x7b' :: after = lead' ++ '\x7b' :: after') :
    after = after' := by
  induction lead generalizing lead' with
  | nil =>
      cases lead' with
      | nil => exact (List.cons.inj h).2
      | cons d lead' =>
          have hd := (List.cons.inj h).1
          exact absurd (hd ▸ List.mem_cons_self) hlead'
  | cons c lead ih =>
      cases lead' with
      | nil =>
          have hc := (List.cons.inj h).1
          exact absurd (hc ▸ List.mem_cons_self) hlead
      | cons d lead' =>
          exact ih (fun hmem => hlead (List.mem_cons_of_mem c hmem))
            (fun hmem => hlead' (List.mem_cons_of_mem d hmem)) (List.cons.inj h).2

/-- A text without opening braces holds none of those of the text it stands in front of. -/
theorem brace_suffix_of_append {lead text inner : List Char} (hlead : '\x7b' ∉ lead)
    (h : '\x7b' :: inner <:+ lead ++ text) : '\x7b' :: inner <:+ text := by
  induction lead with
  | nil => exact h
  | cons c lead ih =>
      rw [List.cons_append, List.suffix_cons_iff] at h
      rcases h with h | h
      · have hc := (List.cons.inj h).1
        exact absurd (hc ▸ List.mem_cons_self) hlead
      · exact ih (fun hmem => hlead (List.mem_cons_of_mem c hmem)) h

/-- An opening brace of a well quoted text is allowed, or it stands inside a string. -/
theorem WellQuoted.of_brace_suffix {opens : List Char → Prop} {place : Place}
    {text inner : List Char} (h : WellQuoted opens place text) (hbrace : '\x7b' :: inner <:+ text) :
    opens inner ∨ WellQuoted opens .string inner := by
  induction text generalizing place with
  | nil => exact absurd (List.suffix_nil.mp hbrace) (List.cons_ne_nil _ _)
  | cons c text ih =>
      rw [List.suffix_cons_iff] at hbrace
      cases place with
      | outside =>
          obtain ⟨-, hopens, hnext⟩ := h
          rcases hbrace with heq | hlater
          · cases heq
            exact .inl (hopens rfl)
          · split at hnext
            · exact ih hnext hlater
            · exact ih hnext hlater
      | string =>
          rw [WellQuoted] at h
          rcases hbrace with heq | hlater
          · cases heq
            rw [if_neg (by decide), if_neg (by decide)] at h
            exact .inr h
          · split at h
            · exact ih h.2 hlater
            · split at h
              · exact ih h hlater
              · exact ih h hlater
      | escape =>
          rcases hbrace with heq | hlater
          · cases heq
            exact .inr h
          · exact ih h hlater

/-- An object starts at an opening brace, with blanks in front at most. -/
theorem Reads.exists_blanks {depth : Nat} {text rest : List Char} {ms : List (String × Json)}
    (h : Reads depth text (.value (.object ms)) rest) :
    ∃ blanks inner, text = blanks ++ '\x7b' :: inner ∧ (∀ c ∈ blanks, isSpace c = true) ∧
      Reads depth ('\x7b' :: inner) (.value (.object ms)) rest := by
  obtain ⟨inner, hinner⟩ : ∃ inner, skipSpace text = '\x7b' :: inner := by
    cases h with
    | emptyObject ahead _ => exact ⟨_, ahead⟩
    | object ahead _ _ => exact ⟨_, ahead⟩
  obtain ⟨blanks, hsplit, hblanks⟩ := exists_blanks_append text
  rw [hinner] at hsplit
  refine ⟨blanks, inner, hsplit, hblanks, h.of_skipSpace_eq ?_⟩
  rw [hinner]
  exact skipSpace_cons_of_not_isSpace (by decide)

/-- In front of the brace that an object starts at there is no other one. -/
theorem Reads.exists_brace {depth : Nat} {text rest : List Char} {ms : List (String × Json)}
    (h : Reads depth text (.value (.object ms)) rest) :
    ∃ blanks inner, text = blanks ++ '\x7b' :: inner ∧ '\x7b' ∉ blanks ∧
      Reads depth ('\x7b' :: inner) (.value (.object ms)) rest := by
  obtain ⟨blanks, inner, hsplit, hblanks, hinner⟩ := h.exists_blanks
  refine ⟨blanks, inner, hsplit, fun hmem => ?_, hinner⟩
  exact (inert_of_isSpace (hblanks _ hmem)).2.2 rfl

/-- A text with an object inside has the brace inside that the object starts at. -/
theorem Reads.exists_brace_suffix {depth : Nat} {text start rest : List Char}
    {ms : List (String × Json)} (h : Reads depth start (.value (.object ms)) rest)
    (hstart : start <:+ text) :
    ∃ inner, '\x7b' :: inner <:+ text ∧ Reads depth ('\x7b' :: inner) (.value (.object ms)) rest := by
  obtain ⟨blanks, inner, hsplit, -, hinner⟩ := h.exists_blanks
  rw [hsplit] at hstart
  exact ⟨inner, (List.suffix_append blanks _).trans hstart, hinner⟩

end Json

end Marginalia
