import Marginalia.Proofs.Json.Numeral

/-!
# Strings against the grammar

The string reader walks through small states; the grammar takes an escape as a whole.
Both give the same characters and stop after the same quote.
-/

namespace Marginalia

namespace Json

/-! ## Hexadecimal escapes -/

variable {strict : Bool}

theorem utf8Size_of_hexValue? {c : Char} {v : Nat} (h : Text.hexValue? c = some v) :
    c.utf8Size = 1 := by
  have hle : c.toNat ≤ 0x66 := by
    unfold Text.hexValue? at h
    split at h
    · next hc =>
        have h9 : c.toNat ≤ ('9' : Char).toNat := hc.2
        exact Nat.le_trans h9 (by decide)
    · split at h
      · next hc => exact hc.2
      · split at h
        · next hc =>
            have hF : c.toNat ≤ ('F' : Char).toNat := hc.2
            exact Nat.le_trans hF (by decide)
        · simp at h
  have hval : c.val ≤ 0x7f := Nat.le_trans hle (by decide : 0x66 ≤ 0x7f)
  simp [Char.utf8Size, hval]

theorem stringBody_hex_none {taken : Nat} {high : Option Nat} {acc text : List Char}
    {result : String × List Char} :
    stringBody strict (.hex taken none high) acc text ≠ .ok result := by
  induction text generalizing taken with
  | nil => simp [stringBody, faultAtEnd]
  | cons c text ih =>
      rw [stringBody]
      simp only [Option.bind_none]
      split
      · exact ih
      · simp

theorem stringBody_hex_digit {taken v : Nat} {high : Option Nat} {acc text : List Char} {c : Char}
    {result : String × List Char} (htaken : taken < 3)
    (h : stringBody strict (.hex taken (some v) high) acc (c :: text) = .ok result) :
    ∃ digit, Text.hexValue? c = some digit ∧
      stringBody strict (.hex (taken + 1) (some (v * 16 + digit)) high) acc text = .ok result := by
  rw [stringBody] at h
  cases hc : Text.hexValue? c with
  | none =>
      simp only [hc, Option.bind_some, Option.map_none] at h
      split at h
      · exact absurd h stringBody_hex_none
      · simp at h
  | some digit =>
      have hsize := utf8Size_of_hexValue? hc
      have hlt : taken + 1 < 4 := by omega
      simp only [hc, hsize, Option.bind_some, Option.map_some, if_pos hlt] at h
      exact ⟨digit, rfl, h⟩

theorem stringBody_hex_last {v : Nat} {high : Option Nat} {acc text : List Char} {c : Char}
    {result : String × List Char}
    (h : stringBody strict (.hex 3 (some v) high) acc (c :: text) = .ok result) :
    ∃ digit state char?, Text.hexValue? c = some digit ∧
      closeHex strict (v * 16 + digit) high = .ok (state, char?) ∧
        stringBody strict state (char?.toList ++ acc) text = .ok result := by
  rw [stringBody] at h
  have hpos : ¬ 3 + c.utf8Size < 4 := by
    have := c.utf8Size_pos
    omega
  simp only [if_neg hpos] at h
  cases hc : Text.hexValue? c with
  | none => simp [hc] at h
  | some digit =>
      simp only [hc, Option.bind_some, Option.map_some] at h
      split at h
      · simp [faultAt] at h
      · next state d hclose => exact ⟨digit, state, some d, rfl, hclose, h⟩
      · next state hclose => exact ⟨digit, state, none, rfl, hclose, h⟩

theorem stringBody_hex {high : Option Nat} {acc text : List Char} {result : String × List Char}
    (h : stringBody strict (.hex 0 (some 0) high) acc text = .ok result) :
    ∃ a b c d v after state char?, text = a :: b :: c :: d :: after ∧ hexUnit? a b c d = some v ∧
      closeHex strict v high = .ok (state, char?) ∧
        stringBody strict state (char?.toList ++ acc) after = .ok result := by
  rcases text with _ | ⟨a, text⟩
  · simp [stringBody, faultAtEnd] at h
  obtain ⟨va, ha, h⟩ := stringBody_hex_digit (by omega) h
  rcases text with _ | ⟨b, text⟩
  · simp [stringBody, faultAtEnd] at h
  obtain ⟨vb, hb, h⟩ := stringBody_hex_digit (by omega) h
  rcases text with _ | ⟨c, text⟩
  · simp [stringBody, faultAtEnd] at h
  obtain ⟨vc, hc, h⟩ := stringBody_hex_digit (by omega) h
  rcases text with _ | ⟨d, after⟩
  · simp [stringBody, faultAtEnd] at h
  obtain ⟨vd, state, char?, hd, hclose, h⟩ := stringBody_hex_last h
  refine ⟨a, b, c, d, _, after, state, char?, rfl, ?_, hclose, h⟩
  simp [hexUnit?, ha, hb, hc, hd]

theorem hexUnit?_eq_some_iff {a b c d : Char} {v : Nat} :
    hexUnit? a b c d = some v ↔
      ∃ va vb vc vd, Text.hexValue? a = some va ∧ Text.hexValue? b = some vb ∧
        Text.hexValue? c = some vc ∧ Text.hexValue? d = some vd ∧
          ((va * 16 + vb) * 16 + vc) * 16 + vd = v := by
  simp [hexUnit?, Option.bind_eq_some_iff]

theorem stringBody_hex_of_unit {a b c d : Char} {v : Nat} {state : StringState}
    {char? : Option Char} {high : Option Nat} (hv : hexUnit? a b c d = some v)
    (hclose : closeHex strict v high = .ok (state, char?)) (acc text : List Char) :
    stringBody strict (.hex 0 (some 0) high) acc (a :: b :: c :: d :: text) =
      stringBody strict state (char?.toList ++ acc) text := by
  obtain ⟨va, vb, vc, vd, ha, hb, hc, hd, hsum⟩ := hexUnit?_eq_some_iff.mp hv
  have hsum' : (((0 * 16 + va) * 16 + vb) * 16 + vc) * 16 + vd = v := by omega
  simp only [stringBody, ha, hb, hc, hd, utf8Size_of_hexValue? ha, utf8Size_of_hexValue? hb,
    utf8Size_of_hexValue? hc, utf8Size_of_hexValue? hd, Option.bind_some, Option.map_some, hsum',
    hclose]
  cases char? <;> rfl

/-! ## What a completed escape leads to -/

theorem closeHex_unit {v : Nat} {state : StringState} {char? : Option Char}
    (h : closeHex true v none = .ok (state, char?)) :
    (v < 0xD800 ∨ 0xDFFF < v) ∧ state = .plain ∧ char? = some (Char.ofNat v) ∨
      0xD800 ≤ v ∧ v ≤ 0xDBFF ∧ state = .lowBackslash v ∧ char? = none := by
  simp only [closeHex, if_true] at h
  split at h
  · cases h
  · split at h
    · next hhigh =>
        cases h
        exact .inr ⟨hhigh.1, hhigh.2, rfl, rfl⟩
    · next hlow hhigh =>
        cases h
        exact .inl ⟨by omega, rfl, rfl⟩

theorem closeHex_pair {v high : Nat} {state : StringState} {char? : Option Char}
    (h : closeHex true v (some high) = .ok (state, char?)) :
    0xDC00 ≤ v ∧ v ≤ 0xDFFF ∧ state = .plain ∧ char? = some (pairChar high v) := by
  simp only [closeHex, if_true] at h
  split at h
  · next hlow =>
      cases h
      exact ⟨hlow.1, hlow.2, rfl, rfl⟩
  · cases h

theorem closeHex_of_unit {v : Nat} (h : v < 0xD800 ∨ 0xDFFF < v) :
    closeHex true v none = .ok (.plain, some (Char.ofNat v)) := by
  have hlow : ¬ (0xDC00 ≤ v ∧ v ≤ 0xDFFF) := by omega
  have hhigh : ¬ (0xD800 ≤ v ∧ v ≤ 0xDBFF) := by omega
  simp only [closeHex, if_true, if_neg hlow, if_neg hhigh]

theorem closeHex_of_high {v : Nat} (hge : 0xD800 ≤ v) (hle : v ≤ 0xDBFF) :
    closeHex true v none = .ok (.lowBackslash v, none) := by
  have hlow : ¬ (0xDC00 ≤ v ∧ v ≤ 0xDFFF) := by omega
  simp only [closeHex, if_true, if_neg hlow, if_pos (And.intro hge hle)]

theorem closeHex_of_low {v : Nat} (high : Nat) (hge : 0xDC00 ≤ v) (hle : v ≤ 0xDFFF) :
    closeHex true v (some high) = .ok (.plain, some (pairChar high v)) := by
  simp only [closeHex, if_true, if_pos (And.intro hge hle)]
  rfl

/-! ## Both directions -/

theorem stringBody_lowBackslash {high : Nat} {acc text : List Char} {result : String × List Char}
    (h : stringBody true (.lowBackslash high) acc text = .ok result) :
    ∃ a b c d low after, text = '\\' :: 'u' :: a :: b :: c :: d :: after ∧
      hexUnit? a b c d = some low ∧ 0xDC00 ≤ low ∧ low ≤ 0xDFFF ∧
        stringBody true .plain (pairChar high low :: acc) after = .ok result := by
  rcases text with _ | ⟨c₁, text⟩
  · simp [stringBody, faultAtEnd] at h
  rw [stringBody] at h
  split at h
  · next hc₁ =>
      rcases text with _ | ⟨c₂, text⟩
      · simp [stringBody, faultAtEnd] at h
      rw [stringBody] at h
      split at h
      · next hc₂ =>
          obtain ⟨a, b, c, d, low, after, state, char?, htext, hlow, hclose, h⟩ := stringBody_hex h
          obtain ⟨hge, hle, rfl, rfl⟩ := closeHex_pair hclose
          exact ⟨a, b, c, d, low, after, by rw [hc₁, hc₂, htext], hlow, hge, hle, h⟩
      · simp [faultAt] at h
  · simp [faultAt] at h

theorem Body.of_stringBody {acc text rest : List Char} {s : String}
    (h : stringBody true .plain acc text = .ok (s, rest)) :
    ∃ cs, s = String.ofList (acc.reverse ++ cs) ∧ Body text cs rest := by
  induction hlen : text.length using Nat.strongRecOn generalizing text acc with
  | _ length ih =>
      subst hlen
      have go : ∀ {d : Char} {after : List Char}, after.length < text.length →
          stringBody true .plain (d :: acc) after = .ok (s, rest) →
            ∃ cs, s = String.ofList (acc.reverse ++ d :: cs) ∧ Body after cs rest := by
        intro d after hlt hafter
        obtain ⟨cs, hs, hbody⟩ := ih _ hlt hafter rfl
        exact ⟨cs, by simpa using hs, hbody⟩
      rcases text with _ | ⟨c, text⟩
      · simp [stringBody, faultAtEnd] at h
      rw [stringBody] at h
      split at h
      · next hc =>
          cases h
          exact ⟨[], by simp, hc ▸ .close⟩
      split at h
      · next hc =>
          subst hc
          rcases text with _ | ⟨e, text⟩
          · simp [stringBody, faultAtEnd] at h
          rw [stringBody] at h
          split at h
          · next he =>
              subst he
              obtain ⟨a, b, c', d, v, after, state, char?, rfl, hv, hclose, h⟩ := stringBody_hex h
              rcases closeHex_unit hclose with ⟨hv', rfl, rfl⟩ | ⟨hge, hle, rfl, rfl⟩
              · obtain ⟨cs, hs, hbody⟩ := go (by simp only [List.length_cons]; omega) h
                exact ⟨_, hs, .unit hv hv' hbody⟩
              · obtain ⟨a₂, b₂, c₂, d₂, low, after₂, rfl, hlow, hlow', hlow'', h⟩ :=
                  stringBody_lowBackslash h
                obtain ⟨cs, hs, hbody⟩ := go (by simp only [List.length_cons]; omega) h
                exact ⟨_, hs, .pair hv hge hle hlow hlow' hlow'' hbody⟩
          · split at h
            · next d hd =>
                obtain ⟨cs, hs, hbody⟩ := go (by simp only [List.length_cons]; omega) h
                exact ⟨_, hs, .letter hd hbody⟩
            · simp [faultAt] at h
      split at h
      · simp [faultAt] at h
      · next hquote hescape hcontrol =>
          obtain ⟨cs, hs, hbody⟩ := go (by simp) h
          exact ⟨_, hs, .plain hquote hescape hcontrol hbody⟩

theorem Body.stringBody_eq {text cs rest : List Char} (h : Body text cs rest) (acc : List Char) :
    stringBody true .plain acc text = .ok (String.ofList (acc.reverse ++ cs), rest) := by
  induction h generalizing acc with
  | close => simp [stringBody]
  | plain hquote hescape hcontrol _ ih =>
      simp only [stringBody, if_neg hquote, if_neg hescape, if_neg hcontrol]
      simpa using ih (_ :: acc)
  | @letter c d text cs rest hc _ ih =>
      have hu : c ≠ 'u' := by
        rintro rfl
        simp [simpleEscape?] at hc
      simp only [stringBody, if_neg hu, hc]
      simpa using ih (d :: acc)
  | @unit a b c d v text cs rest hv hbelow _ ih =>
      have hhex := stringBody_hex_of_unit hv (closeHex_of_unit hbelow) acc text
      rw [stringBody, if_neg (by decide), if_pos rfl, stringBody, if_pos rfl, hhex]
      simpa using ih (Char.ofNat v :: acc)
  | @pair a b c d e f g h high low text cs rest hhigh high_ge high_le hlow low_ge low_le _ ih =>
      have hfirst := stringBody_hex_of_unit hhigh (closeHex_of_high high_ge high_le) acc
        ('\\' :: 'u' :: e :: f :: g :: h :: text)
      have hsecond := stringBody_hex_of_unit hlow (closeHex_of_low high low_ge low_le) acc text
      rw [stringBody, if_neg (by decide), if_pos rfl, stringBody, if_pos rfl, hfirst]
      rw [Option.toList_none, List.nil_append, stringBody, if_pos rfl, stringBody, if_pos rfl,
        hsecond]
      simpa using ih (pairChar high low :: acc)

end Json

end Marginalia
