import Marginalia.Proofs.Json.Contained

/-!
# Texts laid out anew

Where blanks stand between the tokens of a text, others may stand as well: the same is read.
Inside of a string this holds of no blank, but a line feed stands in no string.
-/

namespace Marginalia

namespace Json

/-! ## Characters of tokens -/

def Inked (c : Char) : Prop :=
  isSpace c = false ∧ ¬ c.toNat < 0x20

instance (c : Char) : Decidable (Inked c) :=
  inferInstanceAs (Decidable (_ ∧ _))

theorem inked_of_simpleEscape? {c d : Char} (h : simpleEscape? c = some d) : Inked c := by
  unfold simpleEscape? at h
  split at h
  any_goals decide
  cases h

theorem inked_of_lt {c : Char} (h : 0x20 < c.toNat) : Inked c := by
  refine ⟨?_, by omega⟩
  rw [← Bool.not_eq_true]
  intro hspace
  simp only [isSpace, Bool.or_eq_true, beq_iff_eq] at hspace
  rcases hspace with ((rfl | rfl) | rfl) | rfl <;> revert h <;> decide

theorem inked_of_hexValue? {c : Char} {v : Nat} (h : Text.hexValue? c = some v) : Inked c := by
  refine inked_of_lt ?_
  have hle : ('0' : Char).toNat ≤ c.toNat ∨ ('a' : Char).toNat ≤ c.toNat ∨
      ('A' : Char).toNat ≤ c.toNat := by
    unfold Text.hexValue? at h
    split at h
    · next hc => exact .inl hc.1
    · split at h
      · next hc => exact .inr (.inl hc.1)
      · split at h
        · next hc => exact .inr (.inr hc.1)
        · cases h
  have hlow : 0x30 ≤ c.toNat := by
    rcases hle with hle | hle | hle
    · exact hle
    · exact Nat.le_trans (by decide) hle
    · exact Nat.le_trans (by decide) hle
  omega

theorem inked_of_isNumeral {c : Char} (h : isNumeral c = true) : Inked c := by
  simp only [isNumeral, Bool.or_eq_true, beq_iff_eq] at h
  rcases h with ((((hdigit | rfl) | rfl) | rfl) | rfl) | rfl
  · simp only [Text.isDigit, Bool.and_eq_true, decide_eq_true_eq] at hdigit
    have hlow : ('0' : Char).toNat ≤ c.toNat := hdigit.1
    exact inked_of_lt (Nat.lt_of_lt_of_le (by decide) hlow)
  all_goals decide

theorem inked_of_unit {a b c d : Char} {v : Nat} (h : hexUnit? a b c d = some v) :
    ∀ e ∈ ['\\', 'u', a, b, c, d], Inked e := by
  obtain ⟨va, vb, vc, vd, ha, hb, hc, hd, -⟩ := hexUnit?_eq_some_iff.mp h
  simp only [List.forall_mem_cons]
  exact ⟨by decide, by decide, inked_of_hexValue? ha, inked_of_hexValue? hb,
    inked_of_hexValue? hc, inked_of_hexValue? hd, nofun⟩

/-! ## Blanks in the place of others -/

/-- Blanks that can stand between two tokens, and nowhere else: they start with a line's end. -/
def IsGap (blanks : List Char) : Prop :=
  (∀ c ∈ blanks, isSpace c = true) ∧ ∃ c ∈ blanks.head?, c.toNat < 0x20

/-- Two texts that differ in the gaps between their tokens, and in the blanks at their ends. -/
inductive Relaid : List Char → List Char → Prop where
  | same (c : Char) {text text' : List Char} (next : Relaid text text') :
      Relaid (c :: text) (c :: text')
  | gap {blanks blanks' text text' : List Char} (hblanks : IsGap blanks)
      (hblanks' : IsGap blanks') (next : Relaid text text') :
      Relaid (blanks ++ text) (blanks' ++ text')
  | ended {blanks blanks' : List Char} (hblanks : ∀ c ∈ blanks, isSpace c = true)
      (hblanks' : ∀ c ∈ blanks', isSpace c = true) : Relaid blanks blanks'

namespace Relaid

variable {text text' : List Char}

theorem refl (text : List Char) : Relaid text text := by
  induction text with
  | nil => exact .ended nofun nofun
  | cons c text ih => exact .same c ih

theorem append_left (h : Relaid text text') (front : List Char) :
    Relaid (front ++ text) (front ++ text') := by
  induction front with
  | nil => exact h
  | cons c front ih => exact .same c ih

/-- The next token stands at the same place. -/
theorem skipSpace (h : Relaid text text') {c : Char} {after : List Char}
    (hahead : Json.skipSpace text = c :: after) :
    ∃ after', Json.skipSpace text' = c :: after' ∧ Relaid after after' := by
  induction h with
  | @same d text text' next ih =>
      by_cases hd : isSpace d = true
      · rw [skipSpace_cons_of_isSpace hd] at hahead
        obtain ⟨after', hahead', hafter⟩ := ih hahead
        exact ⟨after', by rw [skipSpace_cons_of_isSpace hd, hahead'], hafter⟩
      · rw [Bool.not_eq_true] at hd
        rw [skipSpace_cons_of_not_isSpace hd] at hahead
        cases hahead
        exact ⟨text', skipSpace_cons_of_not_isSpace hd, next⟩
  | gap hblanks hblanks' next ih =>
      rw [skipSpace_blanks_append hblanks.1] at hahead
      obtain ⟨after', hahead', hafter⟩ := ih hahead
      exact ⟨after', by rw [skipSpace_blanks_append hblanks'.1, hahead'], hafter⟩
  | @ended blanks _ hblanks _ =>
      have hnone := skipSpace_blanks_append hblanks []
      rw [List.append_nil, hahead] at hnone
      cases hnone

theorem skipSpace_nil (h : Relaid text text') (hnone : Json.skipSpace text = []) :
    Json.skipSpace text' = [] := by
  induction h with
  | @same d text text' next ih =>
      by_cases hd : isSpace d = true
      · rw [skipSpace_cons_of_isSpace hd] at hnone ⊢
        exact ih hnone
      · rw [Bool.not_eq_true] at hd
        rw [skipSpace_cons_of_not_isSpace hd] at hnone
        cases hnone
  | gap hblanks hblanks' next ih =>
      rw [skipSpace_blanks_append hblanks.1] at hnone
      rw [skipSpace_blanks_append hblanks'.1]
      exact ih hnone
  | @ended _ blanks' _ hblanks' =>
      have hnone := skipSpace_blanks_append hblanks' []
      rwa [List.append_nil] at hnone

/-- A character that no gap starts with stands in both texts, unless only blanks follow. -/
theorem of_cons {c d : Char} (h : Relaid (c :: text) text') (hc : ¬ c.toNat < 0x20)
    (hd : d ∈ c :: text) (hinked : isSpace d = false) :
    ∃ after, text' = c :: after ∧ Relaid text after := by
  generalize hwhole : c :: text = whole at h hd
  cases h with
  | same e next =>
      cases hwhole
      exact ⟨_, rfl, next⟩
  | @gap blanks _ after _ hblanks _ next =>
      obtain ⟨e, he, hcontrol⟩ := hblanks.2
      cases blanks with
      | nil => cases he
      | cons b blanks =>
          cases he
          cases hwhole
          exact absurd hcontrol hc
  | ended hblanks _ =>
      rw [hblanks d hd] at hinked
      cases hinked

theorem of_append (used : List Char) {rest : List Char} (h : Relaid (used ++ rest) text')
    (hused : ∀ c ∈ used, Inked c) : ∃ after, text' = used ++ after ∧ Relaid rest after := by
  induction used generalizing text' with
  | nil => exact ⟨text', rfl, h⟩
  | cons c used ih =>
      obtain ⟨hspace, hcontrol⟩ := hused c List.mem_cons_self
      obtain ⟨after, rfl, hafter⟩ := h.of_cons hcontrol List.mem_cons_self hspace
      obtain ⟨last, rfl, hlast⟩ := ih hafter fun d hd => hused d (List.mem_cons_of_mem c hd)
      exact ⟨last, rfl, hlast⟩

theorem ahead (h : Relaid text text') {c : Char} (used : List Char) {rest : List Char}
    (hahead : Json.skipSpace text = c :: (used ++ rest)) (hused : ∀ d ∈ used, Inked d) :
    ∃ after, Json.skipSpace text' = c :: (used ++ after) ∧ Relaid rest after := by
  obtain ⟨behind, hahead', hbehind⟩ := h.skipSpace hahead
  obtain ⟨after, rfl, hafter⟩ := hbehind.of_append used hused
  exact ⟨after, hahead', hafter⟩

theorem delimited (h : Relaid text text') (hdelimited : Delimited text) : Delimited text' := by
  intro d hd
  cases h with
  | same c next =>
      cases hd
      exact hdelimited d rfl
  | gap hblanks hblanks' next =>
      obtain ⟨c, hc, -⟩ := hblanks'.2
      obtain ⟨blanks, hsplit⟩ := List.head?_eq_some_iff.mp hc
      subst hsplit
      cases hd
      exact .inl (hblanks'.1 d List.mem_cons_self)
  | ended hblanks hblanks' => exact .inl (hblanks' d (List.mem_of_mem_head? hd))

end Relaid

/-! ## Reading -/

/-- A string stands in both texts as it is. -/
theorem Body.relaid {text cs rest text' : List Char} (h : Body text cs rest)
    (hrelaid : Relaid text text') : ∃ rest', Body text' cs rest' ∧ Relaid rest rest' := by
  induction h generalizing text' with
  | close =>
      obtain ⟨after, rfl, hafter⟩ := hrelaid.of_cons (by decide) List.mem_cons_self (by decide)
      exact ⟨after, .close, hafter⟩
  | @plain c text cs rest hquote hescape hcontrol next ih =>
      have hmem : '"' ∈ c :: text :=
        List.mem_cons_of_mem c (next.quote_suffix.subset List.mem_cons_self)
      obtain ⟨after, rfl, hafter⟩ := hrelaid.of_cons hcontrol hmem (by decide)
      obtain ⟨rest', hbody, hrest⟩ := ih hafter
      exact ⟨rest', .plain hquote hescape hcontrol hbody, hrest⟩
  | @letter c d text cs rest hc next ih =>
      obtain ⟨after, rfl, hafter⟩ := hrelaid.of_append ['\\', c] fun e he => by
        simp only [List.mem_cons, List.not_mem_nil, or_false] at he
        rcases he with rfl | rfl
        · decide
        · exact inked_of_simpleEscape? hc
      obtain ⟨rest', hbody, hrest⟩ := ih hafter
      exact ⟨rest', .letter hc hbody, hrest⟩
  | @unit a b c d v text cs rest hv hbelow next ih =>
      obtain ⟨after, rfl, hafter⟩ :=
        hrelaid.of_append ['\\', 'u', a, b, c, d] (inked_of_unit hv)
      obtain ⟨rest', hbody, hrest⟩ := ih hafter
      exact ⟨rest', .unit hv hbelow hbody, hrest⟩
  | @pair a b c d e f g h high low text cs rest hhigh high_ge high_le hlow low_ge low_le next ih =>
      obtain ⟨after, rfl, hafter⟩ :=
        hrelaid.of_append ['\\', 'u', a, b, c, d] (inked_of_unit hhigh)
      obtain ⟨last, rfl, hlast⟩ :=
        hafter.of_append ['\\', 'u', e, f, g, h] (inked_of_unit hlow)
      obtain ⟨rest', hbody, hrest⟩ := ih hlast
      exact ⟨rest', .pair hhigh high_ge high_le hlow low_ge low_le hbody, hrest⟩

theorem numberBody_relaid {isNegative : Bool} {text rest text' : List Char} {n : Number}
    (h : numberBody true isNegative text = .ok (n, rest)) (hrest : Delimited rest)
    (hrelaid : Relaid text text') :
    ∃ rest', numberBody true isNegative text' = .ok (n, rest') ∧ Relaid rest rest' := by
  obtain ⟨used, rfl, hused⟩ := (numberBody_takes h).split
  obtain ⟨after, rfl, hafter⟩ := hrelaid.of_append used fun c hc => inked_of_isNumeral (hused c hc)
  exact ⟨after, numberBody_of_delimited h hrest (hafter.delimited hrest), hafter⟩

/--
What is read from a text is read from the text with other gaps, and what follows is the same but
for gaps.  Only a number asks for something of what follows it.
-/
theorem Reads.relaid {depth : Nat} {text rest text' : List Char} {phrase : Phrase}
    (h : Reads depth text phrase rest) (hrest : phrase.EndsInNumber → Delimited rest)
    (hrelaid : Relaid text text') :
    ∃ rest', Reads depth text' phrase rest' ∧ Relaid rest rest' := by
  induction h generalizing text' with
  | nullWord ahead =>
      obtain ⟨after, hahead, hafter⟩ :=
        hrelaid.ahead ['u', 'l', 'l'] ahead (by simp [Inked, isSpace])
      exact ⟨after, .nullWord hahead, hafter⟩
  | trueWord ahead =>
      obtain ⟨after, hahead, hafter⟩ :=
        hrelaid.ahead ['r', 'u', 'e'] ahead (by simp [Inked, isSpace])
      exact ⟨after, .trueWord hahead, hafter⟩
  | falseWord ahead =>
      obtain ⟨after, hahead, hafter⟩ :=
        hrelaid.ahead ['a', 'l', 's', 'e'] ahead (by simp [Inked, isSpace])
      exact ⟨after, .falseWord hahead, hafter⟩
  | negative ahead number =>
      obtain ⟨body, hahead, hbody⟩ := hrelaid.skipSpace ahead
      obtain ⟨after, hnumber, hafter⟩ := numberBody_relaid number (hrest trivial) hbody
      exact ⟨after, .negative hahead hnumber, hafter⟩
  | unsigned ahead digit number =>
      obtain ⟨body, hahead, hbody⟩ := hrelaid.skipSpace ahead
      obtain ⟨after, hnumber, hafter⟩ := numberBody_relaid number (hrest trivial) (.same _ hbody)
      exact ⟨after, .unsigned hahead digit hnumber, hafter⟩
  | string ahead chars =>
      obtain ⟨body, hahead, hbody⟩ := hrelaid.skipSpace ahead
      obtain ⟨after, hchars, hafter⟩ := chars.relaid hbody
      exact ⟨after, .string hahead hchars, hafter⟩
  | emptyArray ahead close =>
      obtain ⟨inner, hahead, hinner⟩ := hrelaid.skipSpace ahead
      obtain ⟨after, hclose, hafter⟩ := hinner.skipSpace close
      exact ⟨after, .emptyArray hahead hclose, hafter⟩
  | array ahead _ others hfirst hothers =>
      obtain ⟨inner, hahead, hinner⟩ := hrelaid.skipSpace ahead
      obtain ⟨behind, hitem, hbehind⟩ := hfirst (fun _ => others.separated_items.delimited) hinner
      obtain ⟨after, hitems, hafter⟩ := hothers False.elim hbehind
      exact ⟨after, .array hahead hitem hitems, hafter⟩
  | itemsEnd close =>
      obtain ⟨after, hclose, hafter⟩ := hrelaid.skipSpace close
      exact ⟨after, .itemsEnd hclose, hafter⟩
  | itemsMore comma _ others hfirst hothers =>
      obtain ⟨next, hcomma, hnext⟩ := hrelaid.skipSpace comma
      obtain ⟨behind, hitem, hbehind⟩ := hfirst (fun _ => others.separated_items.delimited) hnext
      obtain ⟨after, hitems, hafter⟩ := hothers False.elim hbehind
      exact ⟨after, .itemsMore hcomma hitem hitems, hafter⟩
  | member ahead name colon _ hvalue =>
      obtain ⟨body, hahead, hbody⟩ := hrelaid.skipSpace ahead
      obtain ⟨behind, hname, hbehind⟩ := name.relaid hbody
      obtain ⟨next, hcolon, hnext⟩ := hbehind.skipSpace colon
      obtain ⟨after, hread, hafter⟩ := hvalue hrest hnext
      exact ⟨after, .member hahead hname hcolon hread, hafter⟩
  | emptyObject ahead close =>
      obtain ⟨inner, hahead, hinner⟩ := hrelaid.skipSpace ahead
      obtain ⟨after, hclose, hafter⟩ := hinner.skipSpace close
      exact ⟨after, .emptyObject hahead hclose, hafter⟩
  | object ahead _ others hfirst hothers =>
      obtain ⟨inner, hahead, hinner⟩ := hrelaid.skipSpace ahead
      obtain ⟨behind, hmember, hbehind⟩ :=
        hfirst (fun _ => others.separated_members.delimited) hinner
      obtain ⟨after, hmembers, hafter⟩ := hothers False.elim hbehind
      exact ⟨after, .object hahead hmember hmembers, hafter⟩
  | membersEnd close =>
      obtain ⟨after, hclose, hafter⟩ := hrelaid.skipSpace close
      exact ⟨after, .membersEnd hclose, hafter⟩
  | membersMore comma _ others hfirst hothers =>
      obtain ⟨next, hcomma, hnext⟩ := hrelaid.skipSpace comma
      obtain ⟨behind, hmember, hbehind⟩ :=
        hfirst (fun _ => others.separated_members.delimited) hnext
      obtain ⟨after, hmembers, hafter⟩ := hothers False.elim hbehind
      exact ⟨after, .membersMore hcomma hmember hmembers, hafter⟩

/-! ## Whole texts -/

def Spells (text : List Char) (v : Json) : Prop :=
  ∃ rest, Reads maxDepth text (.value v) rest ∧ skipSpace rest = []

theorem delimited_of_skipSpace_eq_nil {text : List Char} (h : skipSpace text = []) :
    Delimited text := by
  obtain ⟨blanks, hsplit, hblanks⟩ := exists_blanks_append text
  rw [h, List.append_nil] at hsplit
  subst hsplit
  intro c hc
  exact .inl (hblanks c (List.mem_of_mem_head? hc))

theorem Spells.relaid {text text' : List Char} {v : Json} (h : Spells text v)
    (hrelaid : Relaid text text') : Spells text' v := by
  obtain ⟨rest, hread, hrest⟩ := h
  obtain ⟨rest', hread', hrest'⟩ :=
    hread.relaid (fun _ => delimited_of_skipSpace_eq_nil hrest) hrelaid
  exact ⟨rest', hread', hrest'.skipSpace_nil hrest⟩

theorem Spells.of_skipSpace_eq {text text' : List Char} {v : Json} (h : Spells text v)
    (hsame : skipSpace text = skipSpace text') : Spells text' v := by
  obtain ⟨rest, hread, hrest⟩ := h
  exact ⟨rest, hread.of_skipSpace_eq hsame.symm, hrest⟩

theorem parseChars_eq_ok_iff {text : List Char} {v : Json} :
    parseChars text = .ok v ↔ Spells text v := by
  have hfuel : text.length ≤ fuelFor text := Nat.le_succ _
  constructor
  · intro h
    obtain ⟨⟨found, rest⟩, hfirst, hended⟩ := bind_eq_ok_iff.mp h
    unfold ended at hended
    split at hended
    · next hrest =>
        cases hended
        exact ⟨rest, (value_eq_ok_iff hfuel).mp hfirst, hrest⟩
    · cases hended
  · rintro ⟨rest, hread, hrest⟩
    refine bind_eq_ok_iff.mpr ⟨(v, rest), (value_eq_ok_iff hfuel).mpr hread, ?_⟩
    simp only [ended, hrest]

end Json

end Marginalia
