import Marginalia.Proofs.Json.Locality

/-!
# What the reader accepts

The strict reader gives a value and the text after it exactly when the grammar derives
them, whatever bound on items and members it is given, as long as the text fits in it.
A text therefore has one reading at most.
-/

namespace Marginalia

namespace Json

/-! ## Words -/

theorem wordBody_eq_ok_iff {α : Type} {value v : α} {letters text rest : List Char} :
    wordBody value letters text = .ok (v, rest) ↔ v = value ∧ text = letters ++ rest := by
  induction letters generalizing text with
  | nil =>
      simp only [wordBody, Except.ok.injEq, Prod.mk.injEq, List.nil_append]
      exact and_congr eq_comm Iff.rfl
  | cons e letters ih =>
      rcases text with _ | ⟨c, text⟩
      · simp [wordBody, faultAtEnd]
      · by_cases hc : c = e
        · simp [wordBody, hc, ih]
        · simp [wordBody, hc, faultAt]

/-! ## What stands ahead -/

theorem nextItem_closed {isFirst : Bool} {text rest : List Char}
    (h : nextItem isFirst text = .ok (.closed rest)) : skipSpace text = ']' :: rest := by
  unfold nextItem at h
  split at h
  · simp [faultAtEnd] at h
  · next c after hahead =>
      split at h
      · next hc =>
          cases h
          rw [hahead, hc]
      · split at h
        · cases h
        · split at h
          · split at h
            · simp [faultAtEnd] at h
            · split at h
              · simp [faultAt] at h
              · cases h
          · simp [faultAt] at h

theorem nextItem_first {text ahead : List Char} (h : nextItem true text = .ok (.item ahead)) :
    ahead = skipSpace text := by
  unfold nextItem at h
  split at h
  · simp [faultAtEnd] at h
  · next c after hahead =>
      split at h
      · cases h
      · rw [if_pos rfl] at h
        cases h
        exact hahead.symm

theorem nextItem_more {text ahead : List Char} (h : nextItem false text = .ok (.item ahead)) :
    ∃ next, skipSpace text = ',' :: next ∧ ahead = skipSpace next := by
  unfold nextItem at h
  split at h
  · simp [faultAtEnd] at h
  · next c after hahead =>
      split at h
      · cases h
      · rw [if_neg (by decide)] at h
        split at h
        · next hc =>
            split at h
            · simp [faultAtEnd] at h
            · next d after' hnext =>
                split at h
                · simp [faultAt] at h
                · cases h
                  exact ⟨after, by rw [hahead, hc], hnext.symm⟩
        · simp [faultAt] at h

theorem colon_eq_ok {text next : List Char} (h : colon text = .ok next) :
    skipSpace text = ':' :: next := by
  unfold colon at h
  split at h
  · simp [faultAtEnd] at h
  · next c after hahead =>
      split at h
      · next hc =>
          cases h
          rw [hahead, hc]
      · simp [faultAt] at h

theorem key_eq_ok {text rest : List Char} {name : String} (h : key true text = .ok (name, rest)) :
    ∃ body, text = '"' :: body ∧ stringBody true .plain [] body = .ok (name, rest) := by
  unfold key at h
  split at h
  · simp [faultAtEnd] at h
  · next c body =>
      split at h
      · next hc => exact ⟨body, by rw [hc], h⟩
      · split at h
        · simp [faultAt] at h
        · simp [faultAt] at h

theorem item_eq_ok {β : Type} {nested : Reader Json} {acc : List Json} {text : List Char} {b : β}
    {k : List Json × List Char → Except Fault β} (h : (item nested acc text >>= k) = .ok b) :
    ∃ v after, nested text = .ok (v, after) ∧ k (v :: acc, after) = .ok b := by
  obtain ⟨⟨acc', after⟩, hitem, hk⟩ := bind_eq_ok_iff.mp h
  obtain ⟨⟨v, after'⟩, hv, hpure⟩ := bind_eq_ok_iff.mp hitem
  cases hpure
  exact ⟨v, after, hv, hk⟩

theorem member_eq_ok {β : Type} {nested : Reader Json} {acc : List (String × Json)}
    {name : String} {text : List Char} {b : β}
    {k : List (String × Json) × List Char → Except Fault β}
    (h : (member nested acc name text >>= k) = .ok b) :
    ∃ next v after, skipSpace text = ':' :: next ∧ nested next = .ok (v, after) ∧
      k ((name, v) :: acc, after) = .ok b := by
  obtain ⟨⟨acc', after⟩, hmember, hk⟩ := bind_eq_ok_iff.mp h
  obtain ⟨⟨v, after'⟩, hkeyed, hpure⟩ := bind_eq_ok_iff.mp hmember
  cases hpure
  obtain ⟨next, hcolon, hv⟩ := bind_eq_ok_iff.mp hkeyed
  exact ⟨next, v, after, colon_eq_ok hcolon, hv, hk⟩

/-! ## From the reader to the grammar -/

theorem Reads.of_skipSpace_eq {depth : Nat} {text text' rest : List Char} {phrase : Phrase}
    (hskip : skipSpace text = skipSpace text') (h : Reads depth text' phrase rest) :
    Reads depth text phrase rest := by
  cases h with
  | nullWord ahead => exact .nullWord (hskip.trans ahead)
  | trueWord ahead => exact .trueWord (hskip.trans ahead)
  | falseWord ahead => exact .falseWord (hskip.trans ahead)
  | negative ahead number => exact .negative (hskip.trans ahead) number
  | unsigned ahead digit number => exact .unsigned (hskip.trans ahead) digit number
  | string ahead chars => exact .string (hskip.trans ahead) chars
  | emptyArray ahead close => exact .emptyArray (hskip.trans ahead) close
  | array ahead first others => exact .array (hskip.trans ahead) first others
  | itemsEnd close => exact .itemsEnd (hskip.trans close)
  | itemsMore comma first others => exact .itemsMore (hskip.trans comma) first others
  | member ahead name colon value => exact .member (hskip.trans ahead) name colon value
  | emptyObject ahead close => exact .emptyObject (hskip.trans ahead) close
  | object ahead first others => exact .object (hskip.trans ahead) first others
  | membersEnd close => exact .membersEnd (hskip.trans close)
  | membersMore comma first others => exact .membersMore (hskip.trans comma) first others

theorem Reads.of_skipSpace {depth : Nat} {text rest : List Char} {phrase : Phrase}
    (h : Reads depth (skipSpace text) phrase rest) : Reads depth text phrase rest :=
  h.of_skipSpace_eq (skipSpace_skipSpace text).symm

section Soundness

variable {depth : Nat} {nested : Reader Json}
  (sound : ∀ {text rest : List Char} {v : Json}, nested text = .ok (v, rest) →
    Reads depth text (.value v) rest)
include sound

theorem Reads.of_foldItems {fuel : Nat} {acc acc' : List Json} {text rest : List Char}
    (h : foldItems (item nested) fuel false acc text = .ok (acc', rest)) :
    ∃ vs, acc' = vs.reverse ++ acc ∧ Reads depth text (.items vs) rest := by
  induction fuel generalizing acc text with
  | zero => simp [foldItems, faultAtEnd] at h
  | succ fuel ih =>
      obtain ⟨ahead, hnext, hfold⟩ := bind_eq_ok_iff.mp h
      cases ahead with
      | closed after =>
          cases hfold
          exact ⟨[], rfl, .itemsEnd (nextItem_closed hnext)⟩
      | item ahead =>
          obtain ⟨next, hcomma, rfl⟩ := nextItem_more hnext
          dsimp only at hfold
          obtain ⟨v, after, hv, hfold⟩ := item_eq_ok hfold
          obtain ⟨vs, hacc, hothers⟩ := ih hfold
          exact ⟨v :: vs, by simpa using hacc, .itemsMore hcomma (sound hv).of_skipSpace hothers⟩

theorem Reads.of_array {fuel : Nat} {acc : List Json} {text inner rest : List Char}
    (ahead : skipSpace text = '[' :: inner)
    (h : foldItems (item nested) fuel true [] inner = .ok (acc, rest)) :
    Reads (depth + 1) text (.value (.array acc.reverse)) rest := by
  cases fuel with
  | zero => simp [foldItems, faultAtEnd] at h
  | succ fuel =>
      obtain ⟨start, hnext, hfold⟩ := bind_eq_ok_iff.mp h
      cases start with
      | closed after =>
          cases hfold
          exact .emptyArray ahead (nextItem_closed hnext)
      | item start =>
          cases nextItem_first hnext
          dsimp only at hfold
          obtain ⟨v, after, hv, hfold⟩ := item_eq_ok hfold
          obtain ⟨vs, rfl, hothers⟩ := of_foldItems sound hfold
          simpa using Reads.array ahead (sound hv).of_skipSpace hothers

theorem Reads.of_member {acc : List (String × Json)} {text after : List Char}
    {name : String} {β : Type} {b : β} {k : List (String × Json) × List Char → Except Fault β}
    (hkey : key true (skipSpace text) = .ok (name, after))
    (h : (Json.member nested acc name after >>= k) = .ok b) :
    ∃ v rest, Reads depth text (.member (name, v)) rest ∧ k ((name, v) :: acc, rest) = .ok b := by
  obtain ⟨body, ahead, hbody⟩ := key_eq_ok hkey
  obtain ⟨cs, hname, hchars⟩ := Body.of_stringBody hbody
  obtain ⟨next, v, rest, hcolon, hv, hk⟩ := member_eq_ok h
  refine ⟨v, rest, ?_, hk⟩
  rw [hname, List.reverse_nil, List.nil_append]
  exact .member ahead hchars hcolon (sound hv)

theorem Reads.of_foldMembers {fuel : Nat} {acc acc' : List (String × Json)}
    {text rest : List Char}
    (h : foldMembers true (Json.member nested) fuel false acc text = .ok (acc', rest)) :
    ∃ ms, acc' = ms.reverse ++ acc ∧ Reads depth text (.members ms) rest := by
  induction fuel generalizing acc text with
  | zero => simp [foldMembers, faultAtEnd] at h
  | succ fuel ih =>
      rw [foldMembers] at h
      split at h
      · simp [faultAtEnd] at h
      · next c after ahead =>
          split at h
          · next hc =>
              cases h
              exact ⟨[], rfl, .membersEnd (hc ▸ ahead)⟩
          · rw [if_neg (by decide)] at h
            split at h
            · next hc =>
                obtain ⟨⟨name, afterName⟩, hkey, hmember⟩ := bind_eq_ok_iff.mp h
                obtain ⟨v, rest', hm, hfold⟩ := of_member sound hkey hmember
                obtain ⟨ms, hacc, hothers⟩ := ih hfold
                exact ⟨(name, v) :: ms, by simpa using hacc, .membersMore (hc ▸ ahead) hm hothers⟩
            · simp [faultAt] at h

theorem Reads.of_object {fuel : Nat} {acc : List (String × Json)} {text inner rest : List Char}
    (ahead : skipSpace text = '\x7b' :: inner)
    (h : foldMembers true (Json.member nested) fuel true [] inner = .ok (acc, rest)) :
    Reads (depth + 1) text (.value (.object acc.reverse)) rest := by
  cases fuel with
  | zero => simp [foldMembers, faultAtEnd] at h
  | succ fuel =>
      rw [foldMembers] at h
      split at h
      · simp [faultAtEnd] at h
      · next c after hinner =>
          split at h
          · next hc =>
              cases h
              exact .emptyObject ahead (hc ▸ hinner)
          · rw [if_pos rfl, ← hinner] at h
            obtain ⟨⟨name, afterName⟩, hkey, hmember⟩ := bind_eq_ok_iff.mp h
            obtain ⟨v, rest', hm, hfold⟩ := of_member sound hkey hmember
            obtain ⟨ms, rfl, hothers⟩ := of_foldMembers sound hfold
            simpa using Reads.object ahead hm hothers

end Soundness

theorem Reads.of_valueWith {depth fuel : Nat} {nested : Option (Reader Json)}
    {text rest : List Char} {v : Json}
    (sound : ∀ reader ∈ nested, ∃ inner, depth = inner + 1 ∧
      ∀ {text rest : List Char} {v : Json}, reader text = .ok (v, rest) →
        Reads inner text (.value v) rest)
    (h : valueWith true fuel nested text = .ok (v, rest)) : Reads depth text (.value v) rest := by
  unfold valueWith at h
  split at h
  · simp [faultAtEnd] at h
  · next c after ahead =>
      split at h
      · next hc =>
          obtain ⟨rfl, rfl⟩ := wordBody_eq_ok_iff.mp h
          exact .nullWord (hc ▸ ahead)
      split at h
      · next hc =>
          obtain ⟨rfl, rfl⟩ := wordBody_eq_ok_iff.mp h
          exact .trueWord (hc ▸ ahead)
      split at h
      · next hc =>
          obtain ⟨rfl, rfl⟩ := wordBody_eq_ok_iff.mp h
          exact .falseWord (hc ▸ ahead)
      split at h
      · next hc =>
          obtain ⟨⟨n, rest'⟩, hnumber, hpure⟩ := bind_eq_ok_iff.mp h
          cases hpure
          exact .negative (hc ▸ ahead) hnumber
      split at h
      · next hc =>
          obtain ⟨⟨n, rest'⟩, hnumber, hpure⟩ := bind_eq_ok_iff.mp h
          cases hpure
          exact .unsigned ahead hc hnumber
      split at h
      · next hc =>
          obtain ⟨⟨s, rest'⟩, hstring, hpure⟩ := bind_eq_ok_iff.mp h
          cases hpure
          obtain ⟨cs, rfl, hchars⟩ := Body.of_stringBody hstring
          exact .string (hc ▸ ahead) hchars
      split at h
      · next hc =>
          cases nested with
          | none => simp [faultAt] at h
          | some reader =>
              obtain ⟨inner, rfl, hreader⟩ := sound reader rfl
              obtain ⟨⟨items, rest'⟩, hitems, hpure⟩ := bind_eq_ok_iff.mp h
              cases hpure
              exact of_array hreader (hc ▸ ahead) hitems
      split at h
      · next hc =>
          cases nested with
          | none => simp [faultAt] at h
          | some reader =>
              obtain ⟨inner, rfl, hreader⟩ := sound reader rfl
              obtain ⟨⟨members, rest'⟩, hmembers, hpure⟩ := bind_eq_ok_iff.mp h
              cases hpure
              exact of_object hreader (hc ▸ ahead) hmembers
      · simp [faultAt] at h

/-- What the reader gives is derived by the grammar. -/
theorem Reads.of_value {depth fuel : Nat} {text rest : List Char} {v : Json}
    (h : value true fuel depth text = .ok (v, rest)) : Reads depth text (.value v) rest := by
  induction depth generalizing text rest v with
  | zero => exact of_valueWith (by simp) h
  | succ depth ih =>
      refine of_valueWith ?_ h
      rintro reader ⟨⟩
      exact ⟨depth, rfl, fun hreader => ih hreader⟩

/-! ## From the grammar to the reader -/

theorem length_lt_of_skipSpace_eq {text after : List Char} {c : Char}
    (h : skipSpace text = c :: after) : after.length < text.length := by
  have hle := (skipSpace_suffix text).length_le
  rw [h, List.length_cons] at hle
  exact hle

def Accepts (fuel depth : Nat) (text : List Char) (rest : List Char) : Phrase → Prop
  | .value v => value true fuel depth text = .ok (v, rest)
  | .member m =>
      ∃ after next, key true (skipSpace text) = .ok (m.1, after) ∧ colon after = .ok next ∧
        value true fuel depth next = .ok (m.2, rest)
  | .items vs =>
      ∀ n acc, text.length ≤ n →
        foldItems (item (value true fuel depth)) n false acc text = .ok (vs.reverse ++ acc, rest)
  | .members ms =>
      ∀ n acc, text.length ≤ n →
        foldMembers true (member (value true fuel depth)) n false acc text =
          .ok (ms.reverse ++ acc, rest)

theorem exists_value_eq_valueWith (fuel depth : Nat) :
    ∃ nested, value true fuel depth = valueWith true fuel nested := by
  cases depth with
  | zero => exact ⟨none, rfl⟩
  | succ depth => exact ⟨some (value true fuel depth), rfl⟩

theorem colon_of_skipSpace_eq {text next : List Char} (h : skipSpace text = ':' :: next) :
    colon text = .ok next := by
  simp [colon, h]

theorem member_of_accepts {fuel depth : Nat} {after next rest : List Char}
    {m : String × Json} (acc : List (String × Json)) (hcolon : colon after = .ok next)
    (hvalue : value true fuel depth next = .ok (m.2, rest)) :
    member (value true fuel depth) acc m.1 after = .ok (m :: acc, rest) := by
  simp only [member, keyed, hcolon, bind, Except.bind, hvalue]
  rfl

theorem Reads.exists_ahead {depth : Nat} {text rest : List Char} {v : Json}
    (h : Reads depth text (.value v) rest) :
    ∃ c after, skipSpace text = c :: after ∧ c ≠ ']' := by
  cases h with
  | nullWord ahead => exact ⟨_, _, ahead, by decide⟩
  | trueWord ahead => exact ⟨_, _, ahead, by decide⟩
  | falseWord ahead => exact ⟨_, _, ahead, by decide⟩
  | negative ahead _ => exact ⟨_, _, ahead, by decide⟩
  | unsigned ahead digit _ =>
      refine ⟨_, _, ahead, ?_⟩
      rintro rfl
      simp [Text.isDigit] at digit
  | string ahead _ => exact ⟨_, _, ahead, by decide⟩
  | emptyArray ahead _ => exact ⟨_, _, ahead, by decide⟩
  | array ahead _ _ => exact ⟨_, _, ahead, by decide⟩
  | emptyObject ahead _ => exact ⟨_, _, ahead, by decide⟩
  | object ahead _ _ => exact ⟨_, _, ahead, by decide⟩

theorem value_skipSpace (fuel depth : Nat) (text : List Char) :
    value true fuel depth (skipSpace text) = value true fuel depth text := by
  obtain ⟨nested, hvalue⟩ := exists_value_eq_valueWith fuel depth
  rw [hvalue]
  simp only [valueWith, skipSpace_skipSpace]

theorem foldItems_close {nested : Reader Json} {n : Nat} {isFirst : Bool} {acc : List Json}
    {text rest : List Char} (close : skipSpace text = ']' :: rest) :
    foldItems (item nested) (n + 1) isFirst acc text = .ok (acc, rest) := by
  simp [foldItems, nextItem, close, bind, Except.bind, pure, Except.pure]

theorem foldItems_first {nested : Reader Json} {n : Nat} {acc : List Json}
    {text after rest : List Char} {v : Json} {c : Char} (ahead : skipSpace text = c :: after)
    (hc : c ≠ ']') (hv : nested (skipSpace text) = .ok (v, rest)) :
    foldItems (item nested) (n + 1) true acc text =
      foldItems (item nested) n false (v :: acc) rest := by
  rw [ahead] at hv
  simp [foldItems, nextItem, ahead, hc, item, hv, bind, Except.bind, pure, Except.pure]

theorem foldItems_more {nested : Reader Json} {n : Nat} {acc : List Json}
    {text next after rest : List Char} {v : Json} {c : Char} (comma : skipSpace text = ',' :: next)
    (ahead : skipSpace next = c :: after) (hc : c ≠ ']')
    (hv : nested (skipSpace next) = .ok (v, rest)) :
    foldItems (item nested) (n + 1) false acc text =
      foldItems (item nested) n false (v :: acc) rest := by
  rw [ahead] at hv
  simp [foldItems, nextItem, comma, ahead, hc, item, hv, bind, Except.bind, pure, Except.pure]

theorem foldMembers_close {nested : Reader Json} {n : Nat} {isFirst : Bool}
    {acc : List (String × Json)} {text rest : List Char}
    (close : skipSpace text = '\x7d' :: rest) :
    foldMembers true (member nested) (n + 1) isFirst acc text = .ok (acc, rest) := by
  simp [foldMembers, close]

theorem foldMembers_first {nested : Reader Json} {n : Nat} {acc acc' : List (String × Json)}
    {text after rest : List Char} {name : String}
    (hkey : key true (skipSpace text) = .ok (name, after))
    (hmember : member nested acc name after = .ok (acc', rest)) :
    foldMembers true (member nested) (n + 1) true acc text =
      foldMembers true (member nested) n false acc' rest := by
  obtain ⟨body, ahead, -⟩ := key_eq_ok hkey
  rw [ahead] at hkey
  simp [foldMembers, ahead, hkey, hmember, bind, Except.bind]

theorem foldMembers_more {nested : Reader Json} {n : Nat} {acc acc' : List (String × Json)}
    {text next after rest : List Char} {name : String} (comma : skipSpace text = ',' :: next)
    (hkey : key true (skipSpace next) = .ok (name, after))
    (hmember : member nested acc name after = .ok (acc', rest)) :
    foldMembers true (member nested) (n + 1) false acc text =
      foldMembers true (member nested) n false acc' rest := by
  simp [foldMembers, comma, hkey, hmember, bind, Except.bind]

theorem value_of_array {fuel depth : Nat} {text inner rest : List Char} {vs : List Json}
    (ahead : skipSpace text = '[' :: inner)
    (h : foldItems (item (value true fuel depth)) fuel true [] inner = .ok (vs.reverse, rest)) :
    value true fuel (depth + 1) text = .ok (.array vs, rest) := by
  simp [value, valueWith, ahead, Text.isDigit, h, bind, Except.bind, pure, Except.pure]

theorem value_of_object {fuel depth : Nat} {text inner rest : List Char}
    {ms : List (String × Json)} (ahead : skipSpace text = '\x7b' :: inner)
    (h : foldMembers true (member (value true fuel depth)) fuel true [] inner =
      .ok (ms.reverse, rest)) :
    value true fuel (depth + 1) text = .ok (.object ms, rest) := by
  simp [value, valueWith, ahead, Text.isDigit, h, bind, Except.bind, pure, Except.pure]

/-- The reader accepts what the grammar derives, with as much fuel as the text has characters. -/
theorem Reads.accepts {fuel depth : Nat} {text rest : List Char} {phrase : Phrase}
    (h : Reads depth text phrase rest) (hfuel : text.length ≤ fuel) :
    Accepts fuel depth text rest phrase := by
  induction h with
  | @nullWord depth _ _ ahead =>
      obtain ⟨nested, hvalue⟩ := exists_value_eq_valueWith fuel depth
      simp [Accepts, hvalue, valueWith, ahead, wordBody]
  | @trueWord depth _ _ ahead =>
      obtain ⟨nested, hvalue⟩ := exists_value_eq_valueWith fuel depth
      simp [Accepts, hvalue, valueWith, ahead, wordBody]
  | @falseWord depth _ _ ahead =>
      obtain ⟨nested, hvalue⟩ := exists_value_eq_valueWith fuel depth
      simp [Accepts, hvalue, valueWith, ahead, wordBody]
  | @negative depth _ _ _ _ ahead number =>
      obtain ⟨nested, hvalue⟩ := exists_value_eq_valueWith fuel depth
      simp [Accepts, hvalue, valueWith, ahead, number, bind, Except.bind, pure, Except.pure]
  | @unsigned depth _ _ _ c _ ahead digit number =>
      obtain ⟨nested, hvalue⟩ := exists_value_eq_valueWith fuel depth
      have hne : c ≠ 'n' ∧ c ≠ 't' ∧ c ≠ 'f' ∧ c ≠ '-' := by
        refine ⟨?_, ?_, ?_, ?_⟩ <;> rintro rfl <;> simp [Text.isDigit] at digit
      simp [Accepts, hvalue, valueWith, ahead, hne, digit, number, bind, Except.bind, pure,
        Except.pure]
  | @string depth _ _ _ _ ahead chars =>
      obtain ⟨nested, hvalue⟩ := exists_value_eq_valueWith fuel depth
      have hbody := chars.stringBody_eq []
      simp [Accepts, hvalue, valueWith, ahead, Text.isDigit, hbody, bind, Except.bind, pure,
        Except.pure]
  | emptyArray ahead close =>
      have hlt := length_lt_of_skipSpace_eq ahead
      obtain ⟨n, rfl⟩ := Nat.exists_eq_succ_of_ne_zero (by omega : fuel ≠ 0)
      exact value_of_array ahead (foldItems_close close)
  | @array depth text inner after rest v vs ahead first others hfirst hothers =>
      have hinner := length_lt_of_skipSpace_eq ahead
      have hafter := first.length_lt
      obtain ⟨n, rfl⟩ := Nat.exists_eq_succ_of_ne_zero (by omega : fuel ≠ 0)
      obtain ⟨c, tail, hstart, hc⟩ := first.exists_ahead
      have hv := hfirst (by omega)
      rw [Accepts, ← value_skipSpace] at hv
      refine value_of_array ahead ?_
      rw [foldItems_first hstart hc hv, hothers (by omega) n [v] (by omega)]
      simp
  | itemsEnd close =>
      intro n acc hn
      have hlt := length_lt_of_skipSpace_eq close
      obtain ⟨n, rfl⟩ := Nat.exists_eq_succ_of_ne_zero (by omega : n ≠ 0)
      exact foldItems_close close
  | @itemsMore depth text next after rest v vs comma first others hfirst hothers =>
      intro n acc hn
      have hnext := length_lt_of_skipSpace_eq comma
      have hafter := first.length_lt
      obtain ⟨n, rfl⟩ := Nat.exists_eq_succ_of_ne_zero (by omega : n ≠ 0)
      obtain ⟨c, tail, hstart, hc⟩ := first.exists_ahead
      have hv := hfirst (by omega)
      rw [Accepts, ← value_skipSpace] at hv
      rw [foldItems_more comma hstart hc hv, hothers (by omega) n (v :: acc) (by omega)]
      simp
  | @member depth text body cs after next rest v ahead name colon first hvalue =>
      have hbody := length_lt_of_skipSpace_eq ahead
      have hafter := name.quote_suffix.length_le
      have hnext := length_lt_of_skipSpace_eq colon
      rw [List.length_cons] at hafter
      refine ⟨after, next, ?_, colon_of_skipSpace_eq colon, hvalue (by omega)⟩
      have hname := name.stringBody_eq []
      simpa [ahead, key] using hname
  | emptyObject ahead close =>
      have hlt := length_lt_of_skipSpace_eq ahead
      obtain ⟨n, rfl⟩ := Nat.exists_eq_succ_of_ne_zero (by omega : fuel ≠ 0)
      exact value_of_object ahead (foldMembers_close close)
  | @object depth text inner after rest m ms ahead first others hfirst hothers =>
      have hinner := length_lt_of_skipSpace_eq ahead
      have hafter := first.length_lt
      obtain ⟨n, rfl⟩ := Nat.exists_eq_succ_of_ne_zero (by omega : fuel ≠ 0)
      obtain ⟨afterKey, next, hkey, hcolon, hvalue⟩ := hfirst (by omega)
      refine value_of_object ahead ?_
      rw [foldMembers_first hkey (member_of_accepts [] hcolon hvalue),
        hothers (by omega) n [m] (by omega)]
      simp
  | membersEnd close =>
      intro n acc hn
      have hlt := length_lt_of_skipSpace_eq close
      obtain ⟨n, rfl⟩ := Nat.exists_eq_succ_of_ne_zero (by omega : n ≠ 0)
      exact foldMembers_close close
  | @membersMore depth text next after rest m ms comma first others hfirst hothers =>
      intro n acc hn
      have hnext := length_lt_of_skipSpace_eq comma
      have hafter := first.length_lt
      obtain ⟨n, rfl⟩ := Nat.exists_eq_succ_of_ne_zero (by omega : n ≠ 0)
      obtain ⟨afterKey, next', hkey, hcolon, hvalue⟩ := hfirst (by omega)
      rw [foldMembers_more comma hkey (member_of_accepts acc hcolon hvalue),
        hothers (by omega) n (m :: acc) (by omega)]
      simp

/-- The reader gives exactly what the grammar derives. -/
theorem value_eq_ok_iff {fuel depth : Nat} {text rest : List Char} {v : Json}
    (hfuel : text.length ≤ fuel) :
    value true fuel depth text = .ok (v, rest) ↔ Reads depth text (.value v) rest :=
  ⟨Reads.of_value, fun h => h.accepts hfuel⟩

/-- A text has one value at its front at most, however deep it is read. -/
theorem Reads.unique {depth depth' : Nat} {text rest rest' : List Char} {v v' : Json}
    (h : Reads depth text (.value v) rest) (h' : Reads depth' text (.value v') rest') :
    v = v' ∧ rest = rest' := by
  have hv := (h.deepen (Nat.le_max_left depth depth')).accepts (Nat.le_refl text.length)
  have hv' := (h'.deepen (Nat.le_max_right depth depth')).accepts (Nat.le_refl text.length)
  rw [Accepts] at hv hv'
  rw [hv] at hv'
  cases hv'
  exact ⟨rfl, rfl⟩

end Json

end Marginalia
