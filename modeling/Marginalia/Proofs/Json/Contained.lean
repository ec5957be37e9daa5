import Marginalia.Proofs.Json.Quoting

/-!
# Numbers in front of other text

Only the text behind a number shows where it ends.  Any text that is delimited will do, so
one may be put in the place of another.
-/

namespace Marginalia

namespace Json

theorem Delimited.isDigit_eq_false {text : List Char} (h : Delimited text) {c : Char}
    (hc : c ∈ text.head?) : Text.isDigit c = false := by
  rw [← Bool.not_eq_true]
  intro hdigit
  have hnumeral := h.isNumeral_eq_false hc
  rw [isNumeral_of_isDigit hdigit] at hnumeral
  cases hnumeral

theorem digits_of_delimited (text : List Char) {rest : List Char} (h : Delimited rest) :
    (text ++ rest).takeWhile Text.isDigit = text.takeWhile Text.isDigit ∧
      (text ++ rest).dropWhile Text.isDigit = text.dropWhile Text.isDigit ++ rest := by
  have hrest : rest.takeWhile Text.isDigit = [] ∧ rest.dropWhile Text.isDigit = rest := by
    cases rest with
    | nil => exact ⟨rfl, rfl⟩
    | cons c rest =>
        have hc := h.isDigit_eq_false (c := c) rfl
        simp [hc]
  induction text with
  | nil => simpa using hrest
  | cons c text ih =>
      by_cases hc : Text.isDigit c = true
      · simp [hc, ih]
      · simp [hc]

def Contained {α : Type} (reader : Reader α) : Prop :=
  ∀ text rest, Delimited rest → (reader (text ++ rest)).toOption =
    (reader text).toOption.map fun found => (found.1, found.2 ++ rest)

theorem wholePart_contained (strict : Bool) : Contained (wholePart strict) := by
  intro text rest hrest
  cases text with
  | nil =>
      cases rest with
      | nil => rfl
      | cons c rest =>
          have hc := hrest.isDigit_eq_false (c := c) rfl
          have hzero : c ≠ '0' := by
            rintro rfl
            cases hc
          simp [wholePart, hc, faultAt, faultAtEnd, Except.toOption]
  | cons c text =>
      by_cases hzero : c = '0'
      · subst hzero
        cases text with
        | nil =>
            cases rest with
            | nil => rfl
            | cons d rest =>
                have hd := hrest.isDigit_eq_false (c := d) rfl
                simp [wholePart, hd, Except.toOption]
        | cons d text =>
            by_cases hd : Text.isDigit d = true
            · simp [wholePart, hd, faultAt, Except.toOption]
            · simp [wholePart, hd, Except.toOption]
      · by_cases hc : Text.isDigit c = true
        · have hdigits := digits_of_delimited text hrest
          simp [wholePart, hc, hdigits, List.span_eq_takeWhile_dropWhile, Except.toOption]
        · simp [wholePart, hc, faultAt, Except.toOption]

theorem optionalFraction_contained (strict : Bool) :
    Contained fun text => optionalFraction strict text := by
  intro text rest hrest
  cases text with
  | nil =>
      cases rest with
      | nil => rfl
      | cons c rest =>
          have hc := hrest.isNumeral_eq_false (c := c) rfl
          have hpoint : c ≠ '.' := by
            rintro rfl
            cases hc
          simp [optionalFraction, hpoint, Except.toOption]
  | cons c text =>
      by_cases hpoint : c = '.'
      · subst hpoint
        obtain ⟨htake, hdrop⟩ := digits_of_delimited text hrest
        simp only [optionalFraction, List.cons_append, List.span_eq_takeWhile_dropWhile, htake,
          hdrop]
        cases text.takeWhile Text.isDigit with
        | cons d digits => rfl
        | nil =>
            cases text.dropWhile Text.isDigit with
            | cons d after => rfl
            | nil =>
                cases rest with
                | nil => rfl
                | cons d rest => rfl
      · simp [optionalFraction, hpoint, Except.toOption]

theorem exponentDigits_contained (strict : Bool) (sign : Option Char) :
    Contained (exponentDigits strict sign) := by
  intro text rest hrest
  cases text with
  | nil =>
      cases rest with
      | nil => rfl
      | cons c rest =>
          have hc := hrest.isDigit_eq_false (c := c) rfl
          simp [exponentDigits, hc, faultAt, faultAtEnd, Except.toOption]
  | cons c text =>
      by_cases hc : Text.isDigit c = true
      · have hdigits := digits_of_delimited text hrest
        simp [exponentDigits, hc, hdigits, List.span_eq_takeWhile_dropWhile, Except.toOption]
      · simp [exponentDigits, hc, faultAt, Except.toOption]

theorem exponentPart_contained (strict : Bool) : Contained (exponentPart strict) := by
  intro text rest hrest
  have hdigits := fun sign => exponentDigits_contained strict sign
  cases text with
  | nil =>
      cases rest with
      | nil => rfl
      | cons c rest =>
          have hc := hrest.isNumeral_eq_false (c := c) rfl
          have hplus : c ≠ '+' := by
            rintro rfl
            cases hc
          have hminus : c ≠ '-' := by
            rintro rfl
            cases hc
          have hnone := hdigits none [] (c :: rest) hrest
          simpa [exponentPart, hplus, hminus] using hnone
  | cons c text =>
      by_cases hplus : c = '+'
      · subst hplus
        exact hdigits (some '+') text rest hrest
      · by_cases hminus : c = '-'
        · subst hminus
          exact hdigits (some '-') text rest hrest
        · have hnone := hdigits none (c :: text) rest hrest
          simpa [exponentPart, hplus, hminus] using hnone

theorem optionalExponent_contained (strict : Bool) :
    Contained fun text => optionalExponent strict text := by
  intro text rest hrest
  cases text with
  | nil =>
      cases rest with
      | nil => rfl
      | cons c rest =>
          have hc := hrest.isNumeral_eq_false (c := c) rfl
          have hmark : ¬ (c = 'e' ∨ c = 'E') := by
            rintro (rfl | rfl)
            · cases hc
            · cases hc
          simp [optionalExponent, hmark, Except.toOption]
  | cons c text =>
      have hpart := exponentPart_contained strict text rest hrest
      simp only [optionalExponent, List.cons_append]
      split
      · cases hlong : exponentPart strict (text ++ rest) with
        | error _ =>
            cases hshort : exponentPart strict text with
            | error _ => rfl
            | ok _ => simp [hlong, hshort, Except.toOption] at hpart
        | ok found =>
            cases hshort : exponentPart strict text with
            | error _ => simp [hlong, hshort, Except.toOption] at hpart
            | ok found' =>
                simp only [hlong, hshort, Except.toOption, Option.map_some,
                  Option.some.injEq] at hpart
                rw [hpart]
                rfl
      · rfl

section

variable {α : Type} {reader : Reader α} {text rest after : List Char} {a : α}

theorem Contained.append (h : Contained reader) (hrest : Delimited rest)
    (hread : reader text = .ok (a, after)) : reader (text ++ rest) = .ok (a, after ++ rest) := by
  have hsame := h text rest hrest
  rw [hread] at hsame
  cases hlong : reader (text ++ rest) with
  | error fault =>
      rw [hlong] at hsame
      cases hsame
  | ok found =>
      rw [hlong] at hsame
      simpa [Except.toOption] using hsame

theorem Contained.of_append (h : Contained reader) (hrest : Delimited rest)
    (hread : reader (text ++ rest) = .ok (a, after)) :
    ∃ front, after = front ++ rest ∧ reader text = .ok (a, front) := by
  have hsame := h text rest hrest
  rw [hread] at hsame
  cases hshort : reader text with
  | error fault =>
      rw [hshort] at hsame
      cases hsame
  | ok found =>
      rw [hshort] at hsame
      simp only [Except.toOption, Option.map_some, Option.some.injEq, Prod.mk.injEq] at hsame
      exact ⟨found.2, hsame.2, by rw [hsame.1]⟩

end

theorem numberBody_of_delimited {strict isNegative : Bool} {text rest rest' : List Char}
    {n : Number} (h : numberBody strict isNegative (text ++ rest) = .ok (n, rest))
    (hrest : Delimited rest) (hrest' : Delimited rest') :
    numberBody strict isNegative (text ++ rest') = .ok (n, rest') := by
  obtain ⟨whole, afterWhole, fraction, afterFraction, exponent, hwhole, hfraction, hexponent,
    hvalue⟩ := numberBody_eq_ok_iff.mp h
  obtain ⟨front, rfl, hwhole'⟩ := (wholePart_contained strict).of_append hrest hwhole
  obtain ⟨front', rfl, hfraction'⟩ := (optionalFraction_contained strict).of_append hrest hfraction
  obtain ⟨front'', hall, hexponent'⟩ :=
    (optionalExponent_contained strict).of_append hrest hexponent
  have hnone : front'' = [] := List.append_left_eq_self.mp hall.symm
  subst hnone
  exact numberBody_eq_ok_iff.mpr ⟨whole, front ++ rest', fraction, front' ++ rest', exponent,
    (wholePart_contained strict).append hrest' hwhole',
    (optionalFraction_contained strict).append hrest' hfraction',
    (optionalExponent_contained strict).append hrest' hexponent', hvalue⟩

end Json

end Marginalia
