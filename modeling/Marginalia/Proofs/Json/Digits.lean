import Marginalia.Proofs.Json.Numeral

/-!
# Natural numbers in decimal digits

A natural number written in decimal digits, with no zero in front, is read as itself, and no
other text is read as a natural number.
-/

namespace Marginalia

namespace Json

theorem isDigit_eq (c : Char) : Text.isDigit c = c.isDigit := by
  simp only [Text.isDigit, Char.isDigit, Char.le_def]

theorem isDigit_of_mem_toDigits {n : Nat} {c : Char} (h : c ∈ Nat.toDigits 10 n) :
    Text.isDigit c = true := by
  rw [isDigit_eq]
  exact Nat.isDigit_of_mem_toDigits (by decide) (by decide) h

theorem isSpace_eq_false_of_isDigit {c : Char} (h : Text.isDigit c = true) :
    isSpace c = false := by
  rw [← Bool.not_eq_true]
  intro hspace
  simp only [isSpace, Bool.or_eq_true, beq_iff_eq] at hspace
  rcases hspace with ((rfl | rfl) | rfl) | rfl
  all_goals exact absurd h (by decide)

theorem head?_toDigits_ne {n : Nat} (h : 0 < n) : (Nat.toDigits 10 n).head? ≠ some '0' := by
  induction n using Nat.strongRecOn with
  | ind n ih =>
      rw [Nat.toDigits_eq_if (by decide)]
      by_cases hn : n < 10
      · rw [if_pos hn]
        intro hhead
        have hzero := Nat.toNat_digitChar_sub_48_of_lt_ten hn
        rw [Option.some.inj hhead] at hzero
        exact absurd hzero.symm (Nat.ne_of_gt h)
      · rw [if_neg hn]
        have hhead := ih (n / 10) (by omega) (by omega)
        cases hdigits : Nat.toDigits 10 (n / 10) with
        | nil => exact absurd hdigits Nat.toDigits_ne_nil
        | cons c digits =>
            rw [hdigits] at hhead
            exact hhead

theorem le_ofDigitChars (digits : List Char) (n : Nat) : n ≤ Nat.ofDigitChars 10 digits n := by
  induction digits generalizing n with
  | nil => simp
  | cons c digits ih =>
      rw [Nat.ofDigitChars_cons]
      exact Nat.le_trans (by omega) (ih _)

theorem absorbDigits_eq {digits : List Char} {n : Nat}
    (h : Nat.ofDigitChars 10 digits n ≤ maxSignificand) :
    absorbDigits n digits = (Nat.ofDigitChars 10 digits n, 0) := by
  induction digits generalizing n with
  | nil => simp [absorbDigits]
  | cons c digits ih =>
      rw [Nat.ofDigitChars_cons, Nat.mul_comm] at h ⊢
      have hle : n * 10 + (c.toNat - 48) ≤ maxSignificand :=
        Nat.le_trans (le_ofDigitChars digits _) h
      rw [absorbDigits, if_pos hle]
      exact ih h

theorem wholePart_toDigits {strict : Bool} {n : Nat} {rest : List Char}
    (hrest : ∀ c ∈ rest.head?, Text.isDigit c = false) :
    wholePart strict (Nat.toDigits 10 n ++ rest) = .ok (Nat.toDigits 10 n, rest) := by
  have htake : (Nat.toDigits 10 n ++ rest).span Text.isDigit = (Nat.toDigits 10 n, rest) := by
    rw [List.span_eq_takeWhile_dropWhile,
      List.takeWhile_append_of_pos fun c hc => isDigit_of_mem_toDigits hc,
      List.dropWhile_append_of_pos fun c hc => isDigit_of_mem_toDigits hc]
    cases rest with
    | nil => simp
    | cons c rest => simp [hrest c rfl]
  rcases Nat.eq_zero_or_pos n with rfl | hpos
  · rw [Nat.toDigits_zero, List.singleton_append]
    cases rest with
    | nil => rfl
    | cons c rest => simp [wholePart, hrest c rfl]
  · have hhead := head?_toDigits_ne hpos
    have hdigit := @isDigit_of_mem_toDigits n
    cases hdigits : Nat.toDigits 10 n with
    | nil => exact absurd hdigits Nat.toDigits_ne_nil
    | cons c digits =>
        rw [hdigits] at htake hhead hdigit
        have hc : c ≠ '0' := fun hc => hhead (by rw [hc]; rfl)
        rw [List.cons_append] at htake ⊢
        rw [wholePart]
        · rw [if_pos (hdigit List.mem_cons_self), htake]
        · exact hc

/-- Behind a number, anything but a numeral character ends it. -/
theorem numberBody_toDigits {n : Nat} {rest : List Char} (hn : n ≤ maxSignificand)
    (hrest : ∀ c ∈ rest.head?, isNumeral c = false) :
    numberBody true false (Nat.toDigits 10 n ++ rest) = .ok (.natural n, rest) := by
  have hdigit : ∀ c ∈ rest.head?, Text.isDigit c = false := by
    intro c hc
    rw [← Bool.not_eq_true]
    intro hdigit
    have hnumeral := hrest c hc
    rw [isNumeral_of_isDigit hdigit] at hnumeral
    cases hnumeral
  have hvalue : Literal.value? true ⟨false, Nat.toDigits 10 n, none, none⟩ =
      some (.natural n) := by
    have habsorb : absorbDigits 0 (Nat.toDigits 10 n) = (n, 0) := by
      have hread := Nat.ofDigitChars_ten_toDigits (n := n)
      rw [absorbDigits_eq (by rw [hread]; exact hn), hread]
    simp [Literal.value?, Literal.number?, habsorb]
  refine numberBody_eq_ok_iff.mpr ⟨_, rest, none, rest, none, wholePart_toDigits hdigit, ?_, ?_,
    hvalue⟩
  · cases rest with
    | nil => rfl
    | cons c rest =>
        have hc := hrest c rfl
        rw [optionalFraction]
        intro rest' hpoint
        rw [(List.cons.inj hpoint).1] at hc
        simp [isNumeral] at hc
  · cases rest with
    | nil => rfl
    | cons c rest =>
        have hc := hrest c rfl
        rw [optionalExponent, if_neg]
        rintro (rfl | rfl)
        · simp [isNumeral] at hc
        · simp [isNumeral] at hc

theorem reads_natural {depth n : Nat} {rest : List Char} (hn : n ≤ maxSignificand)
    (hrest : ∀ c ∈ rest.head?, isNumeral c = false) :
    Reads depth (Nat.toDigits 10 n ++ rest) (.value (.number (.natural n))) rest := by
  have hbody := numberBody_toDigits hn hrest
  cases hdigits : Nat.toDigits 10 n with
  | nil => exact absurd hdigits Nat.toDigits_ne_nil
  | cons c digits =>
      have hdigit : Text.isDigit c = true :=
        isDigit_of_mem_toDigits (n := n) (by rw [hdigits]; exact List.mem_cons_self)
      rw [hdigits] at hbody
      have hspace := isSpace_eq_false_of_isDigit hdigit
      exact .unsigned (skipSpace_cons_of_not_isSpace hspace) hdigit hbody

/-! ## Texts that are numbers -/

theorem ofDigitChars_of_absorbDigits {digits : List Char} {n value : Nat}
    (h : absorbDigits n digits = (value, 0)) : Nat.ofDigitChars 10 digits n = value := by
  induction digits generalizing n with
  | nil => simpa [absorbDigits] using h
  | cons c digits ih =>
      rw [absorbDigits] at h
      rw [Nat.ofDigitChars_cons, Nat.mul_comm]
      by_cases hle : n * 10 + (c.toNat - 48) ≤ maxSignificand
      · rw [if_pos hle] at h
        exact ih h
      · rw [if_neg hle] at h
        simp at h

/-- Only a literal without a sign, a fraction and an exponent is natural. -/
theorem Literal.natural_of_value? {l : Literal} {n : Nat}
    (h : l.value? true = some (.natural n)) :
    l.isNegative = false ∧ l.fraction = none ∧ l.exponent = none ∧
      absorbDigits 0 l.whole = (n, 0) := by
  obtain ⟨isNegative, whole, fraction, exponent⟩ := l
  have hnumber : Literal.number? ⟨isNegative, whole, fraction, exponent⟩ = some (.natural n) := by
    unfold Literal.value? at h
    cases exponent with
    | none => exact h
    | some e =>
        simp only [Bool.not_true, Bool.false_eq_true, if_false] at h
        split at h
        · split at h
          · cases h
          · cases h
        · exact h
  unfold Literal.number? at hnumber
  dsimp only at hnumber
  split at hnumber
  · next hwhole =>
      obtain ⟨hfraction, hexponent, hleft⟩ := hwhole
      cases isNegative with
      | true =>
          simp only [Bool.not_true, Bool.false_eq_true, if_false] at hnumber
          split at hnumber
          · cases hnumber
          · cases hnumber
      | false =>
          simp only [Bool.not_false, if_true, Option.some.injEq, Number.natural.injEq] at hnumber
          exact ⟨rfl, Option.isNone_iff_eq_none.mp hfraction,
            Option.isNone_iff_eq_none.mp hexponent, Prod.ext hnumber hleft⟩
  · split at hnumber
    · cases hnumber
    · cases hnumber

theorem eq_of_optionalFraction {strict : Bool} {text rest : List Char}
    (h : optionalFraction strict text = .ok (none, rest)) : rest = text := by
  unfold optionalFraction at h
  split at h
  · split at h
    · cases h
    · cases h
    · cases h
  · cases h
    rfl

theorem eq_of_optionalExponent {strict : Bool} {text rest : List Char}
    (h : optionalExponent strict text = .ok (none, rest)) : rest = text := by
  unfold optionalExponent at h
  split at h
  · split at h
    · obtain ⟨found, -, hpure⟩ := bind_eq_ok_iff.mp h
      cases hpure
    · cases h
      rfl
  · cases h
    rfl

theorem wholePart_eq_ok_nil {strict : Bool} {text whole : List Char}
    (h : wholePart strict text = .ok (whole, [])) :
    whole = text ∧ ∀ c ∈ text, Text.isDigit c = true := by
  unfold wholePart at h
  split at h
  · cases h
  · split at h
    · split at h
      · cases h
      · cases h
    · cases h
      exact ⟨rfl, List.forall_mem_singleton.mpr rfl⟩
  · next c rest _ =>
      split at h
      · rw [List.span_eq_takeWhile_dropWhile, Except.ok.injEq, Prod.mk.injEq] at h
        have hall := @List.takeWhile_append_dropWhile _ Text.isDigit (c :: rest)
        rw [h.2, List.append_nil] at hall
        refine ⟨h.1.symm.trans hall, fun d hd => ?_⟩
        rw [← hall] at hd
        exact List.all_eq_true.mp List.all_takeWhile d hd
      · cases h

theorem wholePart_of_digits {strict : Bool} {text whole rest : List Char}
    (hdigits : ∀ c ∈ text, Text.isDigit c = true) (h : wholePart strict text = .ok (whole, rest)) :
    whole = text ∧ rest = [] := by
  unfold wholePart at h
  split at h
  · cases h
  · next rest' =>
      split at h
      · next c _ =>
          rw [if_pos (hdigits c (by simp))] at h
          cases h
      · cases h
        exact ⟨rfl, rfl⟩
  · next c rest' _ =>
      rw [if_pos (hdigits c List.mem_cons_self), List.span_eq_takeWhile_dropWhile,
        Except.ok.injEq, Prod.mk.injEq] at h
      rw [← h.1, ← h.2, ← List.append_nil (c :: rest'), List.takeWhile_append_of_pos hdigits,
        List.dropWhile_append_of_pos hdigits]
      simp

theorem natural_of_numberBody {isNegative : Bool} {text : List Char} {n : Nat}
    (h : numberBody true isNegative text = .ok (.natural n, [])) :
    isNegative = false ∧ (∀ c ∈ text, Text.isDigit c = true) ∧
      Nat.ofDigitChars 10 text 0 = n := by
  obtain ⟨whole, afterWhole, fraction, afterFraction, exponent, hwhole, hfraction, hexponent,
    hvalue⟩ := numberBody_eq_ok_iff.mp h
  obtain ⟨hsign, hnone, hnone', habsorb⟩ := Literal.natural_of_value? hvalue
  dsimp only at hsign hnone hnone' habsorb
  subst hnone hnone'
  cases eq_of_optionalExponent hexponent
  cases eq_of_optionalFraction hfraction
  obtain ⟨hsame, hdigits⟩ := wholePart_eq_ok_nil hwhole
  rw [hsame] at habsorb
  exact ⟨hsign, hdigits, ofDigitChars_of_absorbDigits habsorb⟩

theorem numberBody_of_digits {text rest : List Char} {n : Number}
    (hdigits : ∀ c ∈ text, Text.isDigit c = true)
    (hsmall : Nat.ofDigitChars 10 text 0 ≤ maxSignificand)
    (h : numberBody true false text = .ok (n, rest)) :
    n = .natural (Nat.ofDigitChars 10 text 0) := by
  obtain ⟨whole, afterWhole, fraction, afterFraction, exponent, hwhole, hfraction, hexponent,
    hvalue⟩ := numberBody_eq_ok_iff.mp h
  obtain ⟨rfl, rfl⟩ := wholePart_of_digits hdigits hwhole
  cases hfraction
  cases hexponent
  simp [Literal.value?, Literal.number?, absorbDigits_eq hsmall] at hvalue
  exact hvalue.symm

/-- A token is that of a natural number exactly when it is in digits. -/
theorem reads_natural_iff {depth n : Nat} {text : List Char} {v : Json}
    (htight : skipSpace text = text) (h : Reads depth text (.value v) [])
    (hn : n ≤ maxSignificand) :
    v = .number (.natural n) ↔
      (∀ c ∈ text, Text.isDigit c = true) ∧ Nat.ofDigitChars 10 text 0 = n := by
  constructor
  · rintro rfl
    cases h with
    | negative ahead number =>
        obtain ⟨hsign, -, -⟩ := natural_of_numberBody number
        cases hsign
    | unsigned ahead digit number =>
        rw [← htight, ahead]
        exact (natural_of_numberBody number).2
  · rintro ⟨hdigits, hvalue⟩
    have hhead {c : Char} {after : List Char} (ahead : skipSpace text = c :: after) :
        Text.isDigit c = true := by
      apply hdigits
      rw [← htight, ahead]
      exact List.mem_cons_self
    cases h with
    | @unsigned _ _ body _ c m ahead digit number =>
        rw [← ahead, htight] at number
        rw [numberBody_of_digits hdigits (by rw [hvalue]; exact hn) number, hvalue]
    | nullWord ahead | trueWord ahead | falseWord ahead | negative ahead _ | string ahead _
    | emptyArray ahead _ | array ahead _ _ | emptyObject ahead _ | object ahead _ _ =>
        exact absurd (hhead ahead) (by decide)

end Json

end Marginalia
