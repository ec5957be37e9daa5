import Mathlib.Data.List.TakeDrop
import Marginalia.Proofs.Json.Grammar

/-!
# How far a number reaches

A number takes digits, signs, points and exponent marks off a text and stops at the first
other character.  Where something follows the number, text further on has no say in it.
-/

namespace Marginalia

namespace Json

theorem bind_eq_ok_iff {ε α β : Type} {x : Except ε α} {f : α → Except ε β} {b : β} :
    x >>= f = .ok b ↔ ∃ a, x = .ok a ∧ f a = .ok b := by
  cases x with
  | error e => simp [bind, Except.bind]
  | ok a => simp [bind, Except.bind]

def isNumeral (c : Char) : Bool :=
  Text.isDigit c || c == '-' || c == '+' || c == '.' || c == 'e' || c == 'E'

theorem isNumeral_of_isDigit {c : Char} (h : Text.isDigit c = true) : isNumeral c = true := by
  simp [isNumeral, h]

/--
A reader has taken numeral characters off a text.  Had the text been longer and the reader
not stopped at its end, it would have taken the same ones.
-/
structure Takes {α : Type} (reader : Reader α) (text : List Char) (a : α)
    (rest : List Char) : Prop where
  split : ∃ used, text = used ++ rest ∧ ∀ c ∈ used, isNumeral c = true
  longer : rest ≠ [] → ∀ more, reader (text ++ more) = .ok (a, rest ++ more)

theorem Takes.none {α : Type} {reader : Reader α} {text : List Char} {a : α}
    (longer : text ≠ [] → ∀ more, reader (text ++ more) = .ok (a, text ++ more)) :
    Takes reader text a text :=
  ⟨⟨[], rfl, by simp⟩, longer⟩

theorem Takes.rest_ne_nil {α : Type} {reader : Reader α} {text rest : List Char} {a : α}
    (h : Takes reader text a rest) (hrest : rest ≠ []) : text ≠ [] := by
  obtain ⟨used, rfl, -⟩ := h.split
  simp [hrest]

/-! ## Digits -/

theorem span_isDigit_append {text : List Char} (more : List Char)
    (h : text.dropWhile Text.isDigit ≠ []) :
    (text ++ more).span Text.isDigit =
      (text.takeWhile Text.isDigit, text.dropWhile Text.isDigit ++ more) := by
  rw [List.span_eq_takeWhile_dropWhile, List.takeWhile_append, List.dropWhile_append]
  have hlen : (text.takeWhile Text.isDigit).length ≠ text.length := by
    intro hlen
    have hsplit := congrArg List.length (List.takeWhile_append_dropWhile (l := text)
      (p := Text.isDigit))
    rw [List.length_append] at hsplit
    exact h (List.eq_nil_of_length_eq_zero (by omega))
  simp [hlen, h]

theorem isNumeral_of_mem_takeWhile {text : List Char} {c : Char}
    (h : c ∈ text.takeWhile Text.isDigit) : isNumeral c = true :=
  isNumeral_of_isDigit (List.all_eq_true.mp List.all_takeWhile c h)

theorem wholePart_takes {strict : Bool} {text whole rest : List Char}
    (h : wholePart strict text = .ok (whole, rest)) :
    Takes (wholePart strict) text whole rest := by
  unfold wholePart at h
  split at h
  · simp [faultAtEnd] at h
  · next after =>
      split at h
      · next c tail =>
          split at h
          · simp [faultAt] at h
          · next hc =>
              cases h
              refine ⟨⟨['0'], rfl, List.forall_mem_singleton.mpr rfl⟩, fun _ more => ?_⟩
              simp [wholePart, hc]
      · cases h
        exact ⟨⟨['0'], rfl, List.forall_mem_singleton.mpr rfl⟩, fun hrest => absurd rfl hrest⟩
  · next c tail hzero =>
      split at h
      · next hc =>
          rw [List.span_eq_takeWhile_dropWhile] at h
          cases h
          refine ⟨⟨_, (List.takeWhile_append_dropWhile ..).symm,
            fun d hd => isNumeral_of_mem_takeWhile hd⟩, fun hrest more => ?_⟩
          have hspan := span_isDigit_append more hrest
          simp only [wholePart, List.cons_append, if_pos hc]
          exact congrArg Except.ok hspan
      · simp [faultAt] at h

theorem wholePart_length_lt {strict : Bool} {text whole rest : List Char}
    (h : wholePart strict text = .ok (whole, rest)) : rest.length < text.length := by
  unfold wholePart at h
  split at h
  · simp [faultAtEnd] at h
  · split at h
    · split at h
      · simp [faultAt] at h
      · cases h
        simp
    · cases h
      simp
  · next c tail hzero =>
      split at h
      · next hc =>
          rw [List.span_eq_takeWhile_dropWhile] at h
          cases h
          rw [List.dropWhile_cons_of_pos hc, List.length_cons]
          exact Nat.lt_succ_of_le (List.dropWhile_suffix _).length_le
      · simp [faultAt] at h

/-! ## Fractions and exponents -/

theorem optionalFraction_takes {strict : Bool} {text rest : List Char}
    {fraction : Option (List Char)} (h : optionalFraction strict text = .ok (fraction, rest)) :
    Takes (optionalFraction strict) text fraction rest := by
  unfold optionalFraction at h
  split at h
  · next after =>
      cases hdigits : after.takeWhile Text.isDigit with
      | nil =>
          rw [List.span_eq_takeWhile_dropWhile, hdigits] at h
          cases hafter : after.dropWhile Text.isDigit with
          | nil => simp [hafter, faultAtEnd] at h
          | cons c tail => simp [hafter, faultAt] at h
      | cons d digits =>
          rw [List.span_eq_takeWhile_dropWhile, hdigits] at h
          cases h
          refine ⟨⟨'.' :: after.takeWhile Text.isDigit, ?_, ?_⟩, fun hrest more => ?_⟩
          · rw [List.cons_append, List.takeWhile_append_dropWhile]
          · intro c hc
            rcases List.mem_cons.mp hc with rfl | hc
            · decide
            · exact isNumeral_of_mem_takeWhile hc
          · have hspan := span_isDigit_append more hrest
            simp only [optionalFraction, List.cons_append, hspan, hdigits]
  · next hdot =>
      cases h
      refine .none fun hrest more => ?_
      cases text with
      | nil => exact absurd rfl hrest
      | cons c tail =>
          have hc : c ≠ '.' := fun hc => hdot tail (by rw [hc])
          simp [optionalFraction, hc]

theorem exponentDigits_takes {strict : Bool} {sign : Option Char} {text rest : List Char}
    {exponent : Option Char × Bool × List Char}
    (h : exponentDigits strict sign text = .ok (exponent, rest)) :
    Takes (exponentDigits strict sign) text exponent rest := by
  unfold exponentDigits at h
  split at h
  · simp [faultAtEnd] at h
  · next c tail =>
      split at h
      · next hc =>
          rw [List.span_eq_takeWhile_dropWhile] at h
          cases h
          refine ⟨⟨_, (List.takeWhile_append_dropWhile ..).symm,
            fun d hd => isNumeral_of_mem_takeWhile hd⟩, fun hrest more => ?_⟩
          have hspan := span_isDigit_append more hrest
          rw [List.cons_append] at hspan
          simp only [exponentDigits, List.cons_append, if_pos hc, hspan]
      · simp [faultAt] at h

theorem Takes.cons {α : Type} {reader outer : Reader α} {text rest : List Char} {a : α} {c : Char}
    (h : Takes reader text a rest) (hc : isNumeral c = true)
    (houter : ∀ more, outer (c :: text ++ more) = reader (text ++ more)) :
    Takes outer (c :: text) a rest := by
  obtain ⟨used, hsplit, hused⟩ := h.split
  refine ⟨⟨c :: used, by rw [hsplit, List.cons_append], ?_⟩, fun hrest more => ?_⟩
  · intro d hd
    rcases List.mem_cons.mp hd with rfl | hd
    · exact hc
    · exact hused d hd
  · rw [houter, h.longer hrest]

theorem exponentPart_takes {strict : Bool} {text rest : List Char}
    {exponent : Option Char × Bool × List Char}
    (h : exponentPart strict text = .ok (exponent, rest)) :
    Takes (exponentPart strict) text exponent rest := by
  unfold exponentPart at h
  split at h
  · exact (exponentDigits_takes h).cons (by decide) fun _ => rfl
  · exact (exponentDigits_takes h).cons (by decide) fun _ => rfl
  · next hplus hminus =>
      have htakes := exponentDigits_takes h
      refine ⟨htakes.split, fun hrest more => ?_⟩
      cases text with
      | nil => exact absurd rfl (htakes.rest_ne_nil hrest)
      | cons c tail =>
          have hplus' : c ≠ '+' := fun hc => hplus tail (by rw [hc])
          have hminus' : c ≠ '-' := fun hc => hminus tail (by rw [hc])
          rw [← htakes.longer hrest more]
          simp [exponentPart, hplus', hminus']

theorem optionalExponent_takes {strict : Bool} {text rest : List Char}
    {exponent : Option (Option Char × Bool × List Char)}
    (h : optionalExponent strict text = .ok (exponent, rest)) :
    Takes (optionalExponent strict) text exponent rest := by
  unfold optionalExponent at h
  split at h
  · next c after =>
      split at h
      · next hmark =>
          obtain ⟨⟨read, tail⟩, hread, hpure⟩ := bind_eq_ok_iff.mp h
          cases hpure
          obtain ⟨⟨used, hsplit, hused⟩, hlonger⟩ := exponentPart_takes hread
          refine ⟨⟨c :: used, by rw [hsplit, List.cons_append], ?_⟩, fun hrest more => ?_⟩
          · intro d hd
            rcases List.mem_cons.mp hd with rfl | hd
            · rcases hmark with rfl | rfl <;> decide
            · exact hused d hd
          · simp only [optionalExponent, List.cons_append, if_pos hmark, hlonger hrest more]
            rfl
      · next hmark =>
          cases h
          exact .none fun _ more => by simp [optionalExponent, hmark]
  · cases h
    exact .none fun hrest => absurd rfl hrest

/-! ## Numbers -/

/-- A number is a whole part, perhaps a fraction and an exponent, and within range. -/
theorem numberBody_eq_ok_iff {strict isNegative : Bool} {text rest : List Char} {n : Number} :
    numberBody strict isNegative text = .ok (n, rest) ↔
      ∃ whole afterWhole fraction afterFraction exponent,
        wholePart strict text = .ok (whole, afterWhole) ∧
          optionalFraction strict afterWhole = .ok (fraction, afterFraction) ∧
            optionalExponent strict afterFraction = .ok (exponent, rest) ∧
              Literal.value? strict ⟨isNegative, whole, fraction, exponent⟩ = some n := by
  unfold numberBody
  simp only [bind_eq_ok_iff, Prod.exists]
  constructor
  · rintro ⟨whole, afterWhole, hwhole, fraction, afterFraction, hfraction, exponent, after,
      hexponent, hvalue⟩
    split at hvalue
    · next hn =>
        cases hvalue
        exact ⟨whole, afterWhole, fraction, afterFraction, exponent, hwhole, hfraction,
          hexponent, hn⟩
    · cases hvalue
  · rintro ⟨whole, afterWhole, fraction, afterFraction, exponent, hwhole, hfraction,
      hexponent, hvalue⟩
    refine ⟨whole, afterWhole, hwhole, fraction, afterFraction, hfraction, exponent, rest,
      hexponent, ?_⟩
    rw [hvalue]
    rfl

theorem numberBody_takes {strict isNegative : Bool} {text rest : List Char} {n : Number}
    (h : numberBody strict isNegative text = .ok (n, rest)) :
    Takes (numberBody strict isNegative) text n rest := by
  obtain ⟨whole, afterWhole, fraction, afterFraction, exponent, hwhole, hfraction, hexponent,
    hvalue⟩ := numberBody_eq_ok_iff.mp h
  have hwhole' := wholePart_takes hwhole
  have hfraction' := optionalFraction_takes hfraction
  have hexponent' := optionalExponent_takes hexponent
  obtain ⟨used, hused, hnumeral⟩ := hwhole'.split
  obtain ⟨used', hused', hnumeral'⟩ := hfraction'.split
  obtain ⟨used'', hused'', hnumeral''⟩ := hexponent'.split
  constructor
  · refine ⟨used ++ used' ++ used'', ?_, ?_⟩
    · rw [hused, hused', hused'', List.append_assoc, List.append_assoc]
    · intro c hc
      rcases List.mem_append.mp hc with hc | hc
      · rcases List.mem_append.mp hc with hc | hc
        · exact hnumeral c hc
        · exact hnumeral' c hc
      · exact hnumeral'' c hc
  · intro hrest more
    have hne := hexponent'.rest_ne_nil hrest
    exact numberBody_eq_ok_iff.mpr ⟨whole, afterWhole ++ more, fraction, afterFraction ++ more,
      exponent, hwhole'.longer (hfraction'.rest_ne_nil hne) more, hfraction'.longer hne more,
      hexponent'.longer hrest more, hvalue⟩

theorem numberBody_length_lt {strict isNegative : Bool} {text rest : List Char} {n : Number}
    (h : numberBody strict isNegative text = .ok (n, rest)) : rest.length < text.length := by
  obtain ⟨whole, afterWhole, fraction, afterFraction, exponent, hwhole, hfraction, hexponent,
    -⟩ := numberBody_eq_ok_iff.mp h
  have hlt := wholePart_length_lt hwhole
  obtain ⟨used, hused, -⟩ := (optionalFraction_takes hfraction).split
  obtain ⟨used', hused', -⟩ := (optionalExponent_takes hexponent).split
  rw [hused, hused', List.length_append, List.length_append] at hlt
  omega

end Json

end Marginalia
