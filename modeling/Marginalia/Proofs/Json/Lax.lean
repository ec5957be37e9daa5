import Marginalia.Proofs.Json.Sequence

/-!
# What is passed over

A value nobody looks at is read in a lax way: an escape with four hexadecimal digits stands for
no character, whatever the digits are, a number may be of any size, and containers may be as
deep as the text is long.  The reader passes over exactly what this grammar derives.
-/

namespace Marginalia

namespace Json

/-! ## Strings -/

/-- A text that goes on inside a string that is read in the lax way, and what is kept of it. -/
inductive LaxBody : List Char → List Char → List Char → Prop where
  | close {rest : List Char} : LaxBody ('"' :: rest) [] rest
  | plain {c : Char} {text cs rest : List Char} (hquote : c ≠ '"') (hescape : c ≠ '\\')
      (hcontrol : ¬ c.toNat < 0x20) (next : LaxBody text cs rest) :
      LaxBody (c :: text) (c :: cs) rest
  | letter {c d : Char} {text cs rest : List Char} (hc : simpleEscape? c = some d)
      (next : LaxBody text cs rest) : LaxBody ('\\' :: c :: text) (d :: cs) rest
  | unit {a b c d : Char} {v : Nat} {text cs rest : List Char} (hv : hexUnit? a b c d = some v)
      (next : LaxBody text cs rest) :
      LaxBody ('\\' :: 'u' :: a :: b :: c :: d :: text) cs rest

theorem closeHex_lax (v : Nat) : closeHex false v none = .ok (.plain, none) := by
  simp [closeHex]

theorem LaxBody.length_lt {text cs rest : List Char} (h : LaxBody text cs rest) :
    rest.length < text.length := by
  induction h with
  | close => exact Nat.lt_succ_self _
  | plain _ _ _ _ ih => exact Nat.lt_succ_of_lt ih
  | letter _ _ ih =>
      simp only [List.length_cons]
      omega
  | unit _ _ ih =>
      simp only [List.length_cons]
      omega

theorem LaxBody.of_stringBody {acc text rest : List Char} {s : String}
    (h : stringBody false .plain acc text = .ok (s, rest)) :
    ∃ cs, s = String.ofList (acc.reverse ++ cs) ∧ LaxBody text cs rest := by
  induction hlen : text.length using Nat.strongRecOn generalizing text acc with
  | _ length ih =>
      subst hlen
      rcases text with _ | ⟨c, text⟩
      · simp [stringBody, faultAtEnd] at h
      rw [stringBody] at h
      split at h
      · next hc =>
          cases h
          exact ⟨[], by simp, hc ▸ .close⟩
      split at h
      · next hc =>
          subst hc
          rcases text with _ | ⟨e, text⟩
          · simp [stringBody, faultAtEnd] at h
          rw [stringBody] at h
          split at h
          · next he =>
              subst he
              obtain ⟨a, b, c', d, v, after, state, char?, rfl, hv, hclose, h⟩ := stringBody_hex h
              rw [closeHex_lax] at hclose
              cases hclose
              obtain ⟨cs, hs, hbody⟩ := ih _ (by simp only [List.length_cons]; omega) h rfl
              exact ⟨cs, hs, .unit hv hbody⟩
          · split at h
            · next d hd =>
                obtain ⟨cs, hs, hbody⟩ := ih _ (by simp only [List.length_cons]; omega) h rfl
                exact ⟨d :: cs, by simpa using hs, .letter hd hbody⟩
            · simp [faultAt] at h
      split at h
      · simp [faultAt] at h
      · next hquote hescape hcontrol =>
          obtain ⟨cs, hs, hbody⟩ := ih _ (by simp) h rfl
          exact ⟨c :: cs, by simpa using hs, .plain hquote hescape hcontrol hbody⟩

theorem LaxBody.stringBody_eq {text cs rest : List Char} (h : LaxBody text cs rest)
    (acc : List Char) :
    stringBody false .plain acc text = .ok (String.ofList (acc.reverse ++ cs), rest) := by
  induction h generalizing acc with
  | close => simp [stringBody]
  | plain hquote hescape hcontrol _ ih =>
      simp only [stringBody, if_neg hquote, if_neg hescape, if_neg hcontrol]
      simpa using ih (_ :: acc)
  | @letter c d text cs rest hc _ ih =>
      have hu : c ≠ 'u' := by
        rintro rfl
        simp [simpleEscape?] at hc
      simp only [stringBody, if_neg hu, hc]
      simpa using ih (d :: acc)
  | @unit a b c d v text cs rest hv _ ih =>
      have hhex := stringBody_hex_of_unit hv (closeHex_lax v) acc text
      rw [stringBody, if_neg (by decide), if_pos rfl, stringBody, if_pos rfl, hhex]
      exact ih acc

theorem LaxBody.spelling : Spelling false LaxBody := by
  refine ⟨⟨fun h => ?_, ?_⟩, LaxBody.length_lt⟩
  · obtain ⟨cs, rfl, hbody⟩ := of_stringBody h
    exact ⟨cs, by simp, hbody⟩
  · rintro ⟨cs, rfl, hbody⟩
    simpa using hbody.stringBody_eq []

theorem Body.spelling : Spelling true Body := by
  refine ⟨⟨fun h => ?_, ?_⟩, fun h => ?_⟩
  · obtain ⟨cs, rfl, hbody⟩ := of_stringBody h
    exact ⟨cs, by simp, hbody⟩
  · rintro ⟨cs, rfl, hbody⟩
    simpa using hbody.stringBody_eq []
  · have hle := h.quote_suffix.length_le
    rwa [List.length_cons] at hle

/-! ## Values -/

/-- A text with a value at its front that is read in the lax way, and what is kept of it. -/
inductive Skims : List Char → Json → List Char → Prop where
  | nullWord {text rest : List Char} (ahead : skipSpace text = 'n' :: 'u' :: 'l' :: 'l' :: rest) :
      Skims text .null rest
  | trueWord {text rest : List Char} (ahead : skipSpace text = 't' :: 'r' :: 'u' :: 'e' :: rest) :
      Skims text (.bool true) rest
  | falseWord {text rest : List Char}
      (ahead : skipSpace text = 'f' :: 'a' :: 'l' :: 's' :: 'e' :: rest) :
      Skims text (.bool false) rest
  | negative {text body rest : List Char} {n : Number} (ahead : skipSpace text = '-' :: body)
      (number : numberBody false true body = .ok (n, rest)) : Skims text (.number n) rest
  | unsigned {text body rest : List Char} {c : Char} {n : Number}
      (ahead : skipSpace text = c :: body) (digit : Text.isDigit c = true)
      (number : numberBody false false (c :: body) = .ok (n, rest)) : Skims text (.number n) rest
  | string {text body cs rest : List Char} (ahead : skipSpace text = '"' :: body)
      (chars : LaxBody body cs rest) : Skims text (.string (String.ofList cs)) rest
  | array {text inner rest : List Char} {vs : List Json} (ahead : skipSpace text = '[' :: inner)
      (items : Items Skims true inner vs rest) : Skims text (.array vs) rest
  | object {text inner rest : List Char} {ms : List (String × Json)}
      (ahead : skipSpace text = '\x7b' :: inner)
      (members : Members LaxBody (fun _ => Skims) true inner ms rest) :
      Skims text (.object ms) rest

theorem not_skims_nil {v : Json} {rest : List Char} : ¬ Skims [] v rest := by
  intro h
  cases h with
  | nullWord ahead => cases ahead
  | trueWord ahead => cases ahead
  | falseWord ahead => cases ahead
  | negative ahead _ => cases ahead
  | unsigned ahead _ _ => cases ahead
  | string ahead _ => cases ahead
  | array ahead _ => cases ahead
  | object ahead _ => cases ahead

theorem foldlM_push {α : Type} (acc items : List α) :
    items.foldlM (fun acc a => some (a :: acc)) acc = some (items.reverse ++ acc) := by
  induction items generalizing acc with
  | nil => rfl
  | cons a items ih => simp [ih]

section

variable {bound fuel depth : Nat}

/-- Members of any name are collected by a reader of values. -/
theorem Realizes.collects {nested : Reader Json} {reads : List Char → Json → List Char → Prop}
    (h : Realizes bound nested reads) :
    Collects bound (member nested) (fun _ => reads) fun acc m => some (m :: acc) := by
  refine ⟨fun {acc acc' name text rest} hbound => ⟨fun hmember => ?_, ?_⟩,
    fun hbound hreads => Nat.le_of_lt (h.length_lt hbound hreads)⟩
  · obtain ⟨⟨v, after⟩, hkeyed, hpure⟩ := bind_eq_ok_iff.mp hmember
    cases hpure
    obtain ⟨next, ahead, hv⟩ := keyed_eq_ok_iff.mp hkeyed
    have hlt := length_lt_of_skipSpace_eq ahead
    exact ⟨next, v, ahead, (h.iff (by omega)).mp hv, rfl⟩
  · rintro ⟨next, v, ahead, hreads, hstep⟩
    have hlt := length_lt_of_skipSpace_eq ahead
    have hv := (h.iff (by omega)).mpr hreads
    cases hstep
    exact bind_eq_ok_iff.mpr ⟨_, keyed_eq_ok_iff.mpr ⟨next, ahead, hv⟩, rfl⟩

/-- One level of the lax reader, given what holds of the values inside containers. -/
theorem Skims.of_valueWith (h : Realizes bound (value false fuel depth) Skims)
    {text rest : List Char} {v : Json} (hbound : text.length ≤ bound + 1)
    (hvalue : value false fuel (depth + 1) text = .ok (v, rest)) : Skims text v rest := by
  unfold value valueWith at hvalue
  split at hvalue
  · simp [faultAtEnd] at hvalue
  · next c after ahead =>
      have hlt := length_lt_of_skipSpace_eq ahead
      split at hvalue
      · next hc =>
          obtain ⟨rfl, rfl⟩ := wordBody_eq_ok_iff.mp hvalue
          exact .nullWord (hc ▸ ahead)
      split at hvalue
      · next hc =>
          obtain ⟨rfl, rfl⟩ := wordBody_eq_ok_iff.mp hvalue
          exact .trueWord (hc ▸ ahead)
      split at hvalue
      · next hc =>
          obtain ⟨rfl, rfl⟩ := wordBody_eq_ok_iff.mp hvalue
          exact .falseWord (hc ▸ ahead)
      split at hvalue
      · next hc =>
          obtain ⟨⟨n, rest'⟩, hnumber, hpure⟩ := bind_eq_ok_iff.mp hvalue
          cases hpure
          exact .negative (hc ▸ ahead) hnumber
      split at hvalue
      · next hc =>
          obtain ⟨⟨n, rest'⟩, hnumber, hpure⟩ := bind_eq_ok_iff.mp hvalue
          cases hpure
          exact .unsigned ahead hc hnumber
      split at hvalue
      · next hc =>
          obtain ⟨⟨s, rest'⟩, hstring, hpure⟩ := bind_eq_ok_iff.mp hvalue
          cases hpure
          obtain ⟨cs, rfl, hchars⟩ := LaxBody.spelling.iff.mp hstring
          exact .string (hc ▸ ahead) hchars
      split at hvalue
      · next hc =>
          obtain ⟨⟨vs, rest'⟩, hitems, hpure⟩ := bind_eq_ok_iff.mp hvalue
          cases hpure
          obtain ⟨as, rfl, hderived⟩ := Items.of_foldItems h (by omega) hitems
          simpa using Skims.array (hc ▸ ahead) hderived
      split at hvalue
      · next hc =>
          obtain ⟨⟨ms, rest'⟩, hmembers, hpure⟩ := bind_eq_ok_iff.mp hvalue
          cases hpure
          obtain ⟨ms', hstep, hderived⟩ :=
            Members.of_foldMembers LaxBody.spelling h.collects (by omega) hmembers
          rw [foldlM_push] at hstep
          cases hstep
          simpa using Skims.object (hc ▸ ahead) hderived
      · simp [faultAt] at hvalue

theorem Skims.valueWith_eq (h : Realizes bound (value false fuel depth) Skims)
    {text rest : List Char} {v : Json} (hbound : text.length ≤ bound + 1) (hfuel : bound < fuel)
    (hskims : Skims text v rest) : value false fuel (depth + 1) text = .ok (v, rest) := by
  cases hskims with
  | nullWord ahead => simp [value, valueWith, ahead, wordBody]
  | trueWord ahead => simp [value, valueWith, ahead, wordBody]
  | falseWord ahead => simp [value, valueWith, ahead, wordBody]
  | negative ahead number =>
      simp [value, valueWith, ahead, number, bind, Except.bind, pure, Except.pure]
  | @unsigned _ _ _ c _ ahead digit number =>
      have hne : c ≠ 'n' ∧ c ≠ 't' ∧ c ≠ 'f' ∧ c ≠ '-' := by
        refine ⟨?_, ?_, ?_, ?_⟩ <;> rintro rfl <;> simp [Text.isDigit] at digit
      simp [value, valueWith, ahead, hne, digit, number, bind, Except.bind, pure, Except.pure]
  | string ahead chars =>
      have hbody := chars.stringBody_eq []
      simp [value, valueWith, ahead, Text.isDigit, hbody, bind, Except.bind, pure, Except.pure]
  | @array _ inner _ _ ahead items =>
      have hlt := length_lt_of_skipSpace_eq ahead
      have hinner : inner.length < fuel := by omega
      have hitems := items.foldItems_eq h (by omega) hinner []
      have hsame : item (value false fuel depth) = pushing (value false fuel depth) := rfl
      simp [value, valueWith, ahead, Text.isDigit, hsame, hitems, bind, Except.bind, pure,
        Except.pure]
  | @object _ inner _ _ ahead members =>
      have hlt := length_lt_of_skipSpace_eq ahead
      have hinner : inner.length < fuel := by omega
      have hmembers := members.foldMembers_eq LaxBody.spelling h.collects (by omega) hinner
        (foldlM_push [] _)
      simp [value, valueWith, ahead, Text.isDigit, hmembers, bind, Except.bind, pure, Except.pure]

theorem Skims.ahead (h : Realizes bound (value false fuel depth) Skims) {text rest : List Char}
    {v : Json} (hbound : text.length ≤ bound + 1) (hskims : Skims text v rest) :
    ∃ c after, skipSpace text = c :: after ∧ c ≠ ']' ∧ rest.length ≤ after.length := by
  cases hskims with
  | nullWord ahead => exact ⟨_, _, ahead, by decide, by simp only [List.length_cons]; omega⟩
  | trueWord ahead => exact ⟨_, _, ahead, by decide, by simp only [List.length_cons]; omega⟩
  | falseWord ahead => exact ⟨_, _, ahead, by decide, by simp only [List.length_cons]; omega⟩
  | negative ahead number =>
      exact ⟨_, _, ahead, by decide, Nat.le_of_lt (numberBody_length_lt number)⟩
  | unsigned ahead digit number =>
      refine ⟨_, _, ahead, ?_, Nat.le_of_lt_succ (numberBody_length_lt number)⟩
      rintro rfl
      simp [Text.isDigit] at digit
  | string ahead chars => exact ⟨_, _, ahead, by decide, Nat.le_of_lt chars.length_lt⟩
  | array ahead items =>
      have hlt := length_lt_of_skipSpace_eq ahead
      exact ⟨_, _, ahead, by decide, Nat.le_of_lt (items.length_lt h (by omega))⟩
  | object ahead members =>
      have hlt := length_lt_of_skipSpace_eq ahead
      have hmembers := members.length_lt LaxBody.spelling h.collects (by omega)
      exact ⟨_, _, ahead, by decide, Nat.le_of_lt hmembers⟩

end

theorem realizes_skims_zero (fuel depth : Nat) : Realizes 0 (value false fuel depth) Skims := by
  have hnil : ∀ {text : List Char}, text.length ≤ 0 → text = [] := fun h =>
    List.eq_nil_of_length_eq_zero (Nat.le_zero.mp h)
  refine ⟨fun {text v rest} h => ⟨fun hvalue => ?_, fun hskims => ?_⟩, fun text => ?_,
    fun h hskims => ?_⟩
  · rw [hnil h] at hvalue
    cases depth with
    | _ => simp [value, valueWith, faultAtEnd] at hvalue
  · rw [hnil h] at hskims
    exact absurd hskims not_skims_nil
  · cases depth with
    | _ => simp [value, valueWith, skipSpace_skipSpace]
  · rw [hnil h] at hskims
    exact absurd hskims not_skims_nil

/-- The lax reader passes over what the grammar derives, as deep as the text is long. -/
theorem value_realizes_skims {bound fuel depth : Nat} (hfuel : bound ≤ fuel)
    (hdepth : bound ≤ depth) : Realizes bound (value false fuel depth) Skims := by
  induction bound generalizing depth with
  | zero => exact realizes_skims_zero fuel depth
  | succ bound ih =>
      obtain ⟨depth, rfl⟩ := Nat.exists_eq_succ_of_ne_zero (by omega : depth ≠ 0)
      have hinner := @ih depth (by omega) (by omega)
      refine ⟨fun {text v rest} h => ⟨?_, ?_⟩, fun text => ?_, fun h hskims => ?_⟩
      · exact Skims.of_valueWith hinner h
      · exact Skims.valueWith_eq hinner h (by omega)
      · simp [value, valueWith, skipSpace_skipSpace]
      · exact Skims.ahead hinner h hskims

end Json

end Marginalia
