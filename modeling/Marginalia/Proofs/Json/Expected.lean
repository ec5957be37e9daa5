import Marginalia.Json.Expect
import Marginalia.Proofs.Json.Compact
import Marginalia.Proofs.Json.Lax

/-!
# Readers of an expected kind

The readers of strings and of lists take what the grammar takes.  A reader recovers a value that
was written in compact form, and a record is recovered where the members that were written fill
its fields.  What every field keeps holds of each record that is read, from an object or a list.
-/

namespace Marginalia

namespace Json

/-- A text with a string at its front. -/
inductive Quotes : List Char → String → List Char → Prop where
  | intro {text body cs rest : List Char} (ahead : skipSpace text = '"' :: body)
      (chars : Body body cs rest) : Quotes text (String.ofList cs) rest

namespace Expect

theorem mismatch_ne_ok {α : Type} {text : List Char} {result : α × List Char} :
    (mismatch text : Except Fault (α × List Char)) ≠ .ok result := by
  unfold mismatch
  split
  · nofun
  · nofun
  · split
    · nofun
    · nofun

theorem string_eq_ok_iff {text rest : List Char} {s : String} :
    string text = .ok (s, rest) ↔ Quotes text s rest := by
  constructor
  · intro h
    unfold string at h
    split at h
    · cases h
    · next body ahead =>
        obtain ⟨cs, rfl, hchars⟩ := Body.spelling.iff.mp h
        exact .intro ahead hchars
    · exact absurd h mismatch_ne_ok
  · rintro ⟨ahead, chars⟩
    simp only [string, ahead]
    exact Body.spelling.iff.mpr ⟨_, rfl, chars⟩

theorem string_realizes (bound : Nat) : Realizes bound string Quotes := by
  refine ⟨fun _ => string_eq_ok_iff, fun text => ?_, fun _ h => ?_⟩
  · simp only [string, skipSpace_skipSpace]
  · cases h with
    | intro ahead chars =>
        exact ⟨_, _, ahead, by decide, Nat.le_of_lt (Body.spelling.length_lt chars)⟩

theorem list_eq_ok_iff {α : Type} {bound fuel : Nat} {item : Reader α}
    {reads : List Char → α → List Char → Prop} (h : Realizes bound item reads)
    {text rest : List Char} {as : List α} (hbound : text.length ≤ bound)
    (hfuel : text.length ≤ fuel) :
    list fuel item text = .ok (as, rest) ↔
      ∃ inner, skipSpace text = '[' :: inner ∧ Items reads true inner as rest := by
  constructor
  · intro hlist
    unfold list at hlist
    split at hlist
    · cases hlist
    · next inner ahead =>
        have hlt := length_lt_of_skipSpace_eq ahead
        obtain ⟨⟨acc, after⟩, hfold, hpure⟩ := bind_eq_ok_iff.mp hlist
        cases hpure
        obtain ⟨as, rfl, hitems⟩ := (h.foldItems_eq_ok_iff (by omega) (by omega)).mp hfold
        exact ⟨inner, ahead, by simpa using hitems⟩
    · exact absurd hlist mismatch_ne_ok
  · rintro ⟨inner, ahead, hitems⟩
    have hlt := length_lt_of_skipSpace_eq ahead
    have hinner : inner.length < fuel := by omega
    have hfold :=
      (h.foldItems_eq_ok_iff (by omega) hinner).mpr ⟨as, (List.append_nil _).symm, hitems⟩
    simp only [list, ahead]
    refine bind_eq_ok_iff.mpr ⟨_, hfold, ?_⟩
    simp [pure, Except.pure]

/-! ## What is written is recovered -/

/-- Whether a reader takes the compact form of a value for `a`, whatever delimits it. -/
def Recovers {α : Type} (reader : Reader α) (v : Json) (a : α) : Prop :=
  ∀ rest, Delimited rest → reader (v.compact.toList ++ rest) = .ok (a, rest)

theorem skipSpace_quoted_append (s : String) (rest : List Char) :
    skipSpace ((quoted s).toList ++ rest) =
      '"' :: (s.toList.flatMap escapeChar ++ '"' :: rest) := by
  rw [toList_quoted_append]
  exact skipSpace_cons_of_not_isSpace (by decide)

theorem stringBody_escaped (s : String) (rest : List Char) :
    stringBody true .plain [] (s.toList.flatMap escapeChar ++ '"' :: rest) = .ok (s, rest) := by
  have hbody := (body_escaped s.toList rest).stringBody_eq []
  simpa using hbody

theorem recovers_string (s : String) : Recovers string (.string s) s := by
  intro rest _
  simp only [compact, string, skipSpace_quoted_append]
  exact stringBody_escaped s rest

theorem recovers_natural {bound n : Nat} (hn : n ≤ bound) (hexact : n ≤ maxSignificand) :
    Recovers (natural bound) (.number (.natural n)) n := by
  intro rest hrest
  have hbody := numberBody_toDigits hexact fun c hc => hrest.isNumeral_eq_false hc
  rw [compact, Number.render, Nat.toString_eq_ofList_toDigits, String.toList_ofList]
  cases hdigits : Nat.toDigits 10 n with
  | nil => exact absurd hdigits Nat.toDigits_ne_nil
  | cons c digits =>
      have hdigit : Text.isDigit c = true :=
        isDigit_of_mem_toDigits (n := n) (by rw [hdigits]; exact List.mem_cons_self)
      have hsign : c ≠ '-' := by
        rintro rfl
        exact absurd hdigit (by decide)
      rw [hdigits, List.cons_append] at hbody
      rw [List.cons_append, natural,
        skipSpace_cons_of_not_isSpace (isSpace_eq_false_of_isDigit hdigit)]
      simp only [if_neg hsign, if_pos hdigit, hbody]
      simp [bind, Except.bind, pure, Except.pure, hn]

theorem le_of_natural {bound n : Nat} {text rest : List Char}
    (hread : natural bound text = .ok (n, rest)) : n ≤ bound := by
  unfold natural at hread
  split at hread
  · cases hread
  · dsimp only at hread
    split at hread
    case' isFalse => split at hread
    -- whatever begins the number, it is compared with the bound at its end
    all_goals
      obtain ⟨⟨number, after⟩, -, hnumber⟩ := bind_eq_ok_iff.mp hread
      cases number with
      | natural value =>
          dsimp only at hnumber
          split at hnumber
          · next hle =>
              cases hnumber
              exact hle
          · cases hnumber
      | negative magnitude => cases hnumber
      | float literal => cases hnumber

theorem recovers_word {α : Type} {ofWord? : String → Option α} {label : String} {a : α}
    (h : ofWord? label = some a) : Recovers (word ofWord?) (.string label) a := by
  intro rest _
  simp only [compact, word, skipSpace_quoted_append, stringBody_escaped]
  simp [bind, Except.bind, pure, Except.pure, h]

theorem checked_eq_ok_iff {α β : Type} {reader : Reader α} {check? : α → Option β}
    {text rest : List Char} {b : β} :
    checked reader check? text = .ok (b, rest) ↔
      ∃ a, reader text = .ok (a, rest) ∧ check? a = some b := by
  rw [checked, bind_eq_ok_iff]
  constructor
  · rintro ⟨⟨a, after⟩, hread, hcheck⟩
    dsimp only at hcheck
    split at hcheck
    · next b' hsome =>
        cases hcheck
        exact ⟨a, hread, hsome⟩
    · cases hcheck
  · rintro ⟨a, hread, hsome⟩
    refine ⟨(a, rest), hread, ?_⟩
    simp [hsome, pure, Except.pure]

theorem Recovers.checked {α β : Type} {reader : Reader α} {v : Json} {a : α}
    (h : Recovers reader v a) {check? : α → Option β} {b : β} (hcheck : check? a = some b) :
    Recovers (checked reader check?) v b := by
  intro rest hrest
  exact checked_eq_ok_iff.mpr ⟨a, h rest hrest, hcheck⟩

/-! ## Records that are written -/

section

variable {σ α : Type} {fields : List (Field σ)} {acc acc' : σ} {members : List (String × Json)}

/-- Whether members fill a record, each a field of it that was not read before. -/
inductive Fills (fields : List (Field σ)) : σ → List (String × Json) → σ → Prop where
  | done {acc : σ} : Fills fields acc [] acc
  | member {acc acc₁ acc' : σ} {f : Field σ} {name : String} {v : Json}
      {members : List (String × Json)}
      (find : fields.find? (fun field => field.key == name) = some f)
      (unread : f.isRead acc = false) (value : Recovers (f.read acc) v acc₁)
      (others : Fills fields acc₁ members acc') : Fills fields acc ((name, v) :: members) acc'

theorem delimited_members (members : List (String × Json)) (rest : List Char) :
    Delimited ((members.flatMap fun m => ',' :: memberChars m) ++ '\x7d' :: rest) := by
  cases members with
  | nil => simp [Delimited]
  | cons m members => simp [Delimited]

theorem key_memberChars (name : String) (v : Json) (rest : List Char) :
    Json.key true (skipSpace (memberChars (name, v) ++ rest)) =
      .ok (name, ':' :: (v.compact.toList ++ rest)) := by
  rw [memberChars, List.append_assoc, skipSpace_quoted_append, key_eq_ok_iff]
  exact ⟨_, rfl, stringBody_escaped name _⟩

theorem member_eq_ok (fuel : Nat) {f : Field σ} {name : String} {v : Json} {rest : List Char}
    (find : fields.find? (fun field => field.key == name) = some f)
    (unread : f.isRead acc = false) (value : Recovers (f.read acc) v acc')
    (hrest : Delimited rest) :
    member fuel fields acc name (':' :: (v.compact.toList ++ rest)) = .ok (acc', rest) := by
  have hcolon : skipSpace (':' :: (v.compact.toList ++ rest)) = ':' :: (v.compact.toList ++ rest) :=
    skipSpace_cons_of_not_isSpace (by decide)
  simp only [member, find, unread]
  exact keyed_eq_ok_iff.mpr ⟨_, hcolon, value rest hrest⟩

theorem Fills.foldMembers_eq (h : Fills fields acc members acc') (fuel : Nat) {n : Nat}
    (hn : members.length < n) (rest : List Char) :
    foldMembers true (Expect.member fuel fields) n false acc
      ((members.flatMap fun m => ',' :: memberChars m) ++ '\x7d' :: rest) = .ok (acc', rest) := by
  induction h generalizing n with
  | done =>
      obtain ⟨n, rfl⟩ := Nat.exists_eq_succ_of_ne_zero (by omega : n ≠ 0)
      have hclose : skipSpace ('\x7d' :: rest) = '\x7d' :: rest :=
        skipSpace_cons_of_not_isSpace (by decide)
      simp [foldMembers, hclose]
  | @member acc acc₁ acc' f name v members find unread value others ih =>
      obtain ⟨n, rfl⟩ := Nat.exists_eq_succ_of_ne_zero (by omega : n ≠ 0)
      rw [List.length_cons] at hn
      have hothers := ih (n := n) (by omega)
      generalize hbehind : (members.flatMap fun m => ',' :: memberChars m) ++ '\x7d' :: rest =
        behind at hothers
      have hbehind' : Delimited behind := hbehind ▸ delimited_members members rest
      have hcomma : skipSpace (',' :: (memberChars (name, v) ++ behind)) =
          ',' :: (memberChars (name, v) ++ behind) := skipSpace_cons_of_not_isSpace (by decide)
      have hname := key_memberChars name v behind
      have hvalue := member_eq_ok fuel find unread value hbehind'
      rw [List.flatMap_cons, List.append_assoc, hbehind, List.cons_append, foldMembers, hcomma]
      simp [hname, hvalue, hothers, bind, Except.bind]

theorem Fills.recovers {empty : σ} (h : Fills fields empty members acc)
    {complete? : σ → Option α} {a : α} (hcomplete : complete? acc = some a) {fuel : Nat}
    (hfuel : members.length < fuel) :
    Recovers (record fuel fields empty complete?) (.object members) a := by
  intro rest _
  have hbrace (text : List Char) : skipSpace ('\x7b' :: text) = '\x7b' :: text :=
    skipSpace_cons_of_not_isSpace (by decide)
  obtain ⟨n, rfl⟩ := Nat.exists_eq_succ_of_ne_zero (by omega : fuel ≠ 0)
  obtain ⟨text, htext, hfold⟩ : ∃ text, (object members).compact.toList ++ rest = '\x7b' :: text ∧
      foldMembers true (Expect.member (n + 1) fields) (n + 1) true empty text =
        .ok (acc, rest) := by
    cases h with
    | done =>
        have hclose : skipSpace ('\x7d' :: rest) = '\x7d' :: rest :=
          skipSpace_cons_of_not_isSpace (by decide)
        exact ⟨'\x7d' :: rest, rfl, by simp [foldMembers, hclose]⟩
    | @member _ acc₁ _ f name v members find unread value others =>
        rw [List.length_cons] at hfuel
        have hothers := others.foldMembers_eq (n + 1) (n := n) (by omega) rest
        have hdelimited := delimited_members members rest
        rw [toList_compact_object, List.cons_append, List.append_assoc, List.append_assoc,
          List.singleton_append]
        refine ⟨_, rfl, ?_⟩
        generalize (members.flatMap fun m => ',' :: memberChars m) ++ '\x7d' :: rest = behind at *
        have hquote : skipSpace (memberChars (name, v) ++ behind) = '"' ::
            (name.toList.flatMap escapeChar ++ '"' :: ':' :: (v.compact.toList ++ behind)) := by
          rw [memberChars, List.append_assoc, skipSpace_quoted_append, List.cons_append]
        have hname := key_memberChars name v behind
        have hvalue := member_eq_ok (n + 1) find unread value hdelimited
        rw [hquote] at hname
        simp [foldMembers, hquote, hname, hvalue, hothers, bind, Except.bind]
  rw [htext, record, hbrace]
  simp [hfold, hcomplete, bind, Except.bind, pure, Except.pure]

theorem length_lt_fuelFor_compact (members : List (String × Json)) :
    members.length < fuelFor (object members).compact.toList := by
  have hlength (members : List (String × Json)) :
      members.length ≤ (members.flatMap fun m => ',' :: memberChars m).length := by
    induction members with
    | nil => exact Nat.le_refl 0
    | cons m members ih =>
        rw [List.flatMap_cons, List.length_append, List.length_cons, List.length_cons]
        omega
  rw [fuelFor]
  cases members with
  | nil => exact Nat.succ_pos _
  | cons m members =>
      have hbehind := hlength members
      simp only [toList_compact_object, List.length_cons, List.length_append]
      omega

/-! ## Records that are read -/

/-- Whether reading a field keeps a fact about the record under way. -/
def Field.Keeps (field : Field σ) (Inv : σ → Prop) : Prop :=
  ∀ acc text acc' rest, Inv acc → field.read acc text = .ok (acc', rest) → Inv acc'

variable {Inv : σ → Prop}

theorem positional_keeps (h : ∀ field ∈ fields, field.Keeps Inv) {isFirst : Bool}
    {text rest : List Char} (hacc : Inv acc)
    (hread : positional fields isFirst acc text = .ok (acc', rest)) : Inv acc' := by
  induction fields generalizing isFirst acc text with
  | nil =>
      unfold positional at hread
      split at hread
      · cases hread
      · cases hread
        exact hacc
      · cases hread
  | cons field fields ih =>
      obtain ⟨ahead, -, hitem⟩ := bind_eq_ok_iff.mp hread
      cases ahead with
      | closed after => cases hitem
      | item ahead =>
          obtain ⟨⟨acc₁, after⟩, hfield, hothers⟩ := bind_eq_ok_iff.mp hitem
          have hacc₁ := h field List.mem_cons_self _ _ _ _ hacc hfield
          exact ih (fun other hother => h other (List.mem_cons_of_mem field hother)) hacc₁ hothers

theorem member_keeps (h : ∀ field ∈ fields, field.Keeps Inv) {fuel : Nat} {name : String}
    {text rest : List Char} (hacc : Inv acc)
    (hread : Expect.member fuel fields acc name text = .ok (acc', rest)) : Inv acc' := by
  unfold Expect.member at hread
  split at hread
  · next field hfind =>
      split at hread
      · cases hread
      · obtain ⟨next, -, hfield⟩ := keyed_eq_ok_iff.mp hread
        exact h field (List.mem_of_find?_eq_some hfind) _ _ _ _ hacc hfield
  · obtain ⟨_, -, hpure⟩ := bind_eq_ok_iff.mp hread
    cases hpure
    exact hacc

theorem foldMembers_keeps {strict : Bool} {member : σ → String → Reader σ}
    (h : ∀ {acc acc' name text rest}, Inv acc → member acc name text = .ok (acc', rest) → Inv acc')
    {fuel : Nat} {isFirst : Bool} {text rest : List Char} (hacc : Inv acc)
    (hread : foldMembers strict member fuel isFirst acc text = .ok (acc', rest)) : Inv acc' := by
  induction fuel generalizing isFirst acc text with
  | zero => cases hread
  | succ fuel ih =>
      rw [foldMembers] at hread
      split at hread
      · cases hread
      · split at hread
        · cases hread
          exact hacc
        · split at hread
          case' isFalse => split at hread
          case' isFalse => cases hread
          all_goals
            obtain ⟨⟨name, behind⟩, -, hnamed⟩ := bind_eq_ok_iff.mp hread
            obtain ⟨⟨acc₁, after⟩, hmember, hothers⟩ := bind_eq_ok_iff.mp hnamed
            exact ih (h hacc hmember) hothers

/-- What every field keeps holds of a record that is read. -/
theorem exists_complete_of_record {empty : σ} {complete? : σ → Option α} {fuel : Nat} {a : α}
    {text rest : List Char} (hread : record fuel fields empty complete? text = .ok (a, rest))
    (h : ∀ field ∈ fields, field.Keeps Inv) (hempty : Inv empty) :
    ∃ acc, Inv acc ∧ complete? acc = some a := by
  unfold record at hread
  split at hread
  · cases hread
  · next items _ =>
      have hchecked : checked (positional fields true empty) complete? items = .ok (a, rest) :=
        hread
      obtain ⟨acc, hacc, hcomplete⟩ := checked_eq_ok_iff.mp hchecked
      exact ⟨acc, positional_keeps h hempty hacc, hcomplete⟩
  · next members _ =>
      have hchecked : checked (foldMembers true (Expect.member fuel fields) fuel true empty)
          complete? members = .ok (a, rest) := hread
      obtain ⟨acc, hacc, hcomplete⟩ := checked_eq_ok_iff.mp hchecked
      exact ⟨acc, foldMembers_keeps (member_keeps h) hempty hacc, hcomplete⟩
  · exact absurd hread mismatch_ne_ok

end

end Expect

end Json

end Marginalia
