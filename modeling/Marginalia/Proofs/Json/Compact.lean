import Marginalia.Json.Writer
import Marginalia.Proofs.Json.Digits
import Marginalia.Proofs.Json.Relaid

/-!
# What is written is read back

The compact form of a value spells the value, as long as its numbers are natural and its
containers are nested no deeper than the reader goes.
-/

namespace Marginalia

namespace Json

/-! ## Strings -/

theorem hexValue?_hexDigit {n : Nat} (h : n < 16) : Text.hexValue? (Text.hexDigit n) = some n := by
  revert n
  decide

theorem hexUnit?_hexDigit {n : Nat} (h : n < 0x20) :
    hexUnit? '0' '0' (Text.hexDigit (n / 16)) (Text.hexDigit (n % 16)) = some n := by
  have hzero : Text.hexValue? '0' = some 0 := by decide
  have hhigh := hexValue?_hexDigit (n := n / 16) (by omega)
  have hlow := hexValue?_hexDigit (n := n % 16) (by omega)
  refine hexUnit?_eq_some_iff.mpr ⟨0, 0, n / 16, n % 16, hzero, hzero, hhigh, hlow, ?_⟩
  omega

theorem Body.escapeChar (c : Char) {text cs rest : List Char} (next : Body text cs rest) :
    Body (escapeChar c ++ text) (c :: cs) rest := by
  by_cases hquote : c = '"'
  · subst hquote
    exact .letter rfl next
  by_cases hescape : c = '\\'
  · subst hescape
    exact .letter rfl next
  by_cases hbackspace : c = '\x08'
  · subst hbackspace
    exact .letter rfl next
  by_cases hform : c = '\x0c'
  · subst hform
    exact .letter rfl next
  by_cases hfeed : c = '\n'
  · subst hfeed
    exact .letter rfl next
  by_cases hreturn : c = '\r'
  · subst hreturn
    exact .letter rfl next
  by_cases htab : c = '\t'
  · subst htab
    exact .letter rfl next
  unfold Json.escapeChar
  rw [if_neg hquote, if_neg hescape, if_neg hbackspace, if_neg hform, if_neg hfeed,
    if_neg hreturn, if_neg htab]
  by_cases hcontrol : c.toNat < 0x20
  · rw [if_pos hcontrol]
    have hunit := Body.unit (hexUnit?_hexDigit hcontrol) (by omega) next
    rwa [Char.ofNat_toNat] at hunit
  · rw [if_neg hcontrol]
    exact .plain hquote hescape hcontrol next

theorem body_escaped (cs rest : List Char) :
    Body (cs.flatMap escapeChar ++ '"' :: rest) cs rest := by
  induction cs with
  | nil => exact .close
  | cons c cs ih =>
      rw [List.flatMap_cons, List.append_assoc]
      exact .escapeChar c ih

theorem toList_quoted_append (s : String) (rest : List Char) :
    (quoted s).toList ++ rest = '"' :: (s.toList.flatMap escapeChar ++ '"' :: rest) := by
  simp [quoted, quotedChars]

/-! ## Values -/

/-- A value with natural numbers only, at most `depth` containers deep. -/
inductive Fits : Nat → Json → Prop where
  | null {depth : Nat} : Fits depth null
  | bool {depth : Nat} (b : Bool) : Fits depth (bool b)
  | natural {depth n : Nat} (hn : n ≤ maxSignificand) : Fits depth (number (.natural n))
  | string {depth : Nat} (s : String) : Fits depth (string s)
  | array {depth : Nat} {items : List Json} (h : ∀ item ∈ items, Fits depth item) :
      Fits (depth + 1) (array items)
  | object {depth : Nat} {members : List (String × Json)} (h : ∀ m ∈ members, Fits depth m.2) :
      Fits (depth + 1) (object members)

/-- Whether the compact form of a value is read as the value, whatever delimits it. -/
def ReadsBack (depth : Nat) (v : Json) : Prop :=
  ∀ rest, Delimited rest → Reads depth (v.compact.toList ++ rest) (.value v) rest

theorem intercalate_comma (text : List Char) (texts : List (List Char)) :
    [','].intercalate (text :: texts) = text ++ texts.flatMap fun t => ',' :: t := by
  induction texts generalizing text with
  | nil => simp
  | cons next texts ih => simp [List.intercalate_cons_cons, ih]

def memberChars (m : String × Json) : List Char :=
  (quoted m.1).toList ++ ':' :: m.2.compact.toList

theorem compactItems_eq_map (items : List Json) :
    compact.compactItems items = items.map compact := by
  induction items with
  | nil => rfl
  | cons item items ih => rw [compact.compactItems, ih, List.map_cons]

theorem map_toList_compactMembers (members : List (String × Json)) :
    (compact.compactMembers members).map String.toList = members.map memberChars := by
  induction members with
  | nil => rfl
  | cons m members ih =>
      rw [compact.compactMembers, List.map_cons, ih, List.map_cons]
      simp [memberChars]

theorem toList_compact_array (item : Json) (items : List Json) :
    (array (item :: items)).compact.toList =
      '[' :: (item.compact.toList ++
        ((items.flatMap fun v => ',' :: v.compact.toList) ++ [']'])) := by
  simp [compact, compactItems_eq_map, intercalate_comma, List.flatMap_map]

theorem toList_compact_object (m : String × Json) (members : List (String × Json)) :
    (object (m :: members)).compact.toList =
      '\x7b' :: (memberChars m ++
        ((members.flatMap fun m => ',' :: memberChars m) ++ ['\x7d'])) := by
  simp [compact, map_toList_compactMembers, intercalate_comma, List.flatMap_map]

section

variable {depth : Nat}

theorem reads_items {items : List Json} (h : ∀ item ∈ items, ReadsBack depth item)
    (rest : List Char) :
    Reads depth ((items.flatMap fun v => ',' :: v.compact.toList) ++ ']' :: rest)
      (.items items) rest := by
  induction items with
  | nil => exact .itemsEnd (skipSpace_cons_of_not_isSpace (by decide))
  | cons item items ih =>
      have hothers := ih fun other hmem => h other (List.mem_cons_of_mem item hmem)
      rw [List.flatMap_cons, List.cons_append, List.cons_append, List.append_assoc]
      exact .itemsMore (skipSpace_cons_of_not_isSpace (by decide))
        (h item List.mem_cons_self _ hothers.separated_items.delimited) hothers

theorem reads_member {m : String × Json} (h : ReadsBack depth m.2) {rest : List Char}
    (hrest : Delimited rest) : Reads depth (memberChars m ++ rest) (.member m) rest := by
  have hcolon : skipSpace (':' :: (m.2.compact.toList ++ rest)) =
      ':' :: (m.2.compact.toList ++ rest) :=
    skipSpace_cons_of_not_isSpace (by decide)
  have hmember := Reads.member (skipSpace_cons_of_not_isSpace (by decide))
    (body_escaped m.1.toList (':' :: (m.2.compact.toList ++ rest))) hcolon (h rest hrest)
  rw [String.ofList_toList, ← toList_quoted_append] at hmember
  rwa [memberChars, List.append_assoc]

theorem reads_members {members : List (String × Json)}
    (h : ∀ m ∈ members, ReadsBack depth m.2) (rest : List Char) :
    Reads depth ((members.flatMap fun m => ',' :: memberChars m) ++ '\x7d' :: rest)
      (.members members) rest := by
  induction members with
  | nil => exact .membersEnd (skipSpace_cons_of_not_isSpace (by decide))
  | cons m members ih =>
      have hothers := ih fun other hmem => h other (List.mem_cons_of_mem m hmem)
      rw [List.flatMap_cons, List.cons_append, List.cons_append, List.append_assoc]
      exact .membersMore (skipSpace_cons_of_not_isSpace (by decide))
        (reads_member (h m List.mem_cons_self) hothers.separated_members.delimited) hothers

end

/-- The compact form of a value is read as the value. -/
theorem Fits.readsBack {depth : Nat} {v : Json} (h : Fits depth v) : ReadsBack depth v := by
  induction h with
  | null =>
      intro rest _
      exact .nullWord (skipSpace_cons_of_not_isSpace (by decide))
  | bool b =>
      intro rest _
      cases b with
      | false => exact .falseWord (skipSpace_cons_of_not_isSpace (by decide))
      | true => exact .trueWord (skipSpace_cons_of_not_isSpace (by decide))
  | @natural depth n hn =>
      intro rest hrest
      rw [compact, Number.render, Nat.toString_eq_ofList_toDigits, String.toList_ofList]
      exact reads_natural hn fun c hc => hrest.isNumeral_eq_false hc
  | @string depth s =>
      intro rest _
      have hstring := @Reads.string depth _ _ _ _
        (skipSpace_cons_of_not_isSpace (by decide)) (body_escaped s.toList rest)
      rw [String.ofList_toList] at hstring
      rw [compact, toList_quoted_append]
      exact hstring
  | @array depth items _ ih =>
      intro rest hrest
      cases items with
      | nil =>
          exact .emptyArray (skipSpace_cons_of_not_isSpace (by decide))
            (skipSpace_cons_of_not_isSpace (by decide))
      | cons item items =>
          have hothers := reads_items (fun other hmem => ih other (List.mem_cons_of_mem item hmem))
            rest
          have hfirst := ih item List.mem_cons_self _ hothers.separated_items.delimited
          have hall := Reads.array (skipSpace_cons_of_not_isSpace (by decide)) hfirst hothers
          rw [toList_compact_array]
          simpa using hall
  | @object depth members _ ih =>
      intro rest hrest
      cases members with
      | nil =>
          exact .emptyObject (skipSpace_cons_of_not_isSpace (by decide))
            (skipSpace_cons_of_not_isSpace (by decide))
      | cons m members =>
          have hothers := reads_members
            (fun other hmem => ih other (List.mem_cons_of_mem m hmem)) rest
          have hfirst := reads_member (ih m List.mem_cons_self)
            hothers.separated_members.delimited
          have hall := Reads.object (skipSpace_cons_of_not_isSpace (by decide)) hfirst hothers
          rw [toList_compact_object]
          simpa using hall

theorem Fits.spells {v : Json} (h : Fits maxDepth v) : Spells v.compact.toList v := by
  have hread := h.readsBack [] delimited_nil
  rw [List.append_nil] at hread
  exact ⟨[], hread, rfl⟩

/-! ## One line -/

theorem hexDigit_ne_feed {n : Nat} (h : n < 16) : '\n' ≠ Text.hexDigit n := by
  revert n
  decide

theorem not_mem_escapeChar (c : Char) : '\n' ∉ escapeChar c := by
  have hhigh : c.toNat < 0x20 → '\n' ≠ Text.hexDigit (c.toNat / 16) := fun h =>
    hexDigit_ne_feed (by omega)
  have hlow : '\n' ≠ Text.hexDigit (c.toNat % 16) := hexDigit_ne_feed (by omega)
  unfold escapeChar
  split_ifs with hquote hescape hbackspace hform hfeed hreturn htab hcontrol
  any_goals decide
  · simp [hhigh hcontrol, hlow]
  · simpa using Ne.symm hfeed

theorem not_mem_quoted (s : String) : '\n' ∉ (quoted s).toList := by
  simp [quoted, quotedChars, not_mem_escapeChar]

/-- The compact form of a value has no end of a line in it. -/
theorem Fits.not_mem_compact {depth : Nat} {v : Json} (h : Fits depth v) :
    '\n' ∉ v.compact.toList := by
  induction h with
  | null => decide
  | bool b => cases b <;> decide
  | @natural depth n hn =>
      rw [compact, Number.render, Nat.toString_eq_ofList_toDigits, String.toList_ofList]
      intro hmem
      have hdigit := isDigit_of_mem_toDigits hmem
      revert hdigit
      decide
  | string s => exact not_mem_quoted s
  | @array depth items _ ih =>
      cases items with
      | nil => decide
      | cons item items =>
          rw [toList_compact_array]
          simpa using ih
  | @object depth members _ ih =>
      have hmember : ∀ m ∈ members, '\n' ∉ memberChars m := fun m hm => by
        simp [memberChars, not_mem_quoted, ih m hm]
      cases members with
      | nil => decide
      | cons m members =>
          rw [toList_compact_object]
          simpa using hmember

end Json

end Marginalia
