import Marginalia.Proofs.Json.StringBody

/-!
# Where a phrase ends

What is read is a front of the text and ends with its closing character.  A phrase that
has one, or that something follows, is read from a longer text just the same.
-/

namespace Marginalia

namespace Json

theorem Body.quote_suffix {text cs rest : List Char} (h : Body text cs rest) :
    '"' :: rest <:+ text := by
  induction h with
  | close => exact List.suffix_refl _
  | plain _ _ _ _ ih => exact ih.trans (List.suffix_cons _ _)
  | letter _ _ ih => exact ih.trans (List.suffix_append [_, _] _)
  | unit _ _ _ ih => exact ih.trans (List.suffix_append [_, _, _, _, _, _] _)
  | pair _ _ _ _ _ _ _ ih =>
      exact ih.trans (List.suffix_append [_, _, _, _, _, _, _, _, _, _, _, _] _)

theorem Body.append {text cs rest : List Char} (h : Body text cs rest) (more : List Char) :
    Body (text ++ more) cs (rest ++ more) := by
  induction h with
  | close => exact .close
  | plain hquote hescape hcontrol _ ih => exact .plain hquote hescape hcontrol ih
  | letter hc _ ih => exact .letter hc ih
  | unit hv hbelow _ ih => exact .unit hv hbelow ih
  | pair hhigh high_ge high_le hlow low_ge low_le _ ih =>
      exact .pair hhigh high_ge high_le hlow low_ge low_le ih

/-- The characters that end a phrase, if it has a closing one. -/
def Phrase.closer : Phrase → List Char
  | .value (.string _) => ['"']
  | .value (.array _) => [']']
  | .value (.object _) => ['\x7d']
  | .items _ => [']']
  | .members _ => ['\x7d']
  | _ => []

def IsNumber : Json → Prop
  | .number _ => True
  | _ => False

def Phrase.EndsInNumber : Phrase → Prop
  | .value v => v.IsNumber
  | .member m => m.2.IsNumber
  | _ => False

theorem suffix_of_skipSpace_eq {text rest : List Char} (used : List Char)
    (h : skipSpace text = used ++ rest) : rest <:+ text :=
  (h ▸ List.suffix_append used rest).trans (skipSpace_suffix text)

theorem suffix_of_numberBody {isNegative : Bool} {text rest : List Char} {n : Number}
    (h : numberBody true isNegative text = .ok (n, rest)) : rest <:+ text := by
  obtain ⟨used, hsplit, -⟩ := (numberBody_takes h).split
  exact ⟨used, hsplit.symm⟩

theorem suffix_of_append_suffix {used rest text : List Char} (h : used ++ rest <:+ text) :
    rest <:+ text :=
  (List.suffix_append used rest).trans h

namespace Reads

variable {depth : Nat} {text rest : List Char} {phrase : Phrase}

theorem closer_suffix (h : Reads depth text phrase rest) : phrase.closer ++ rest <:+ text := by
  induction h with
  | nullWord ahead => exact suffix_of_skipSpace_eq ['n', 'u', 'l', 'l'] ahead
  | trueWord ahead => exact suffix_of_skipSpace_eq ['t', 'r', 'u', 'e'] ahead
  | falseWord ahead => exact suffix_of_skipSpace_eq ['f', 'a', 'l', 's', 'e'] ahead
  | negative ahead number =>
      exact (suffix_of_numberBody number).trans (suffix_of_skipSpace_eq ['-'] ahead)
  | unsigned ahead _ number =>
      exact (suffix_of_numberBody number).trans (suffix_of_skipSpace_eq [] ahead)
  | string ahead chars => exact chars.quote_suffix.trans (suffix_of_skipSpace_eq ['"'] ahead)
  | emptyArray ahead close =>
      exact (suffix_of_skipSpace_eq [] close).trans (suffix_of_skipSpace_eq ['['] ahead)
  | array ahead _ _ first others =>
      have hfirst := suffix_of_append_suffix first
      exact (others.trans hfirst).trans (suffix_of_skipSpace_eq ['['] ahead)
  | itemsEnd close => exact suffix_of_skipSpace_eq [] close
  | itemsMore comma _ _ first others =>
      have hfirst := suffix_of_append_suffix first
      exact (others.trans hfirst).trans (suffix_of_skipSpace_eq [','] comma)
  | member ahead name colon _ value =>
      have hname := name.quote_suffix.trans (suffix_of_skipSpace_eq ['"'] ahead)
      exact ((suffix_of_append_suffix value).trans (suffix_of_skipSpace_eq [':'] colon)).trans
        ((List.suffix_cons _ _).trans hname)
  | emptyObject ahead close =>
      exact (suffix_of_skipSpace_eq [] close).trans (suffix_of_skipSpace_eq ['\x7b'] ahead)
  | object ahead _ _ first others =>
      have hfirst := suffix_of_append_suffix first
      exact (others.trans hfirst).trans (suffix_of_skipSpace_eq ['\x7b'] ahead)
  | membersEnd close => exact suffix_of_skipSpace_eq [] close
  | membersMore comma _ _ first others =>
      have hfirst := suffix_of_append_suffix first
      exact (others.trans hfirst).trans (suffix_of_skipSpace_eq [','] comma)

theorem suffix (h : Reads depth text phrase rest) : rest <:+ text :=
  suffix_of_append_suffix h.closer_suffix

theorem length_lt (h : Reads depth text phrase rest) : rest.length < text.length := by
  have hahead : ∀ {c : Char} {after : List Char}, skipSpace text = c :: after →
      rest <:+ after → rest.length < text.length := by
    intro c after ahead hrest
    have hle := (skipSpace_suffix text).length_le
    rw [ahead, List.length_cons] at hle
    exact Nat.lt_of_le_of_lt hrest.length_le (Nat.lt_of_succ_le hle)
  cases h with
  | nullWord ahead => exact hahead ahead (List.suffix_append [_, _, _] _)
  | trueWord ahead => exact hahead ahead (List.suffix_append [_, _, _] _)
  | falseWord ahead => exact hahead ahead (List.suffix_append [_, _, _, _] _)
  | negative ahead number => exact hahead ahead (suffix_of_numberBody number)
  | unsigned ahead _ number =>
      have hlt := numberBody_length_lt number
      rw [← ahead] at hlt
      exact Nat.lt_of_lt_of_le hlt (skipSpace_suffix text).length_le
  | string ahead chars =>
      exact hahead ahead ((List.suffix_cons _ _).trans chars.quote_suffix)
  | emptyArray ahead close => exact hahead ahead (suffix_of_skipSpace_eq [_] close)
  | array ahead first others => exact hahead ahead (others.suffix.trans first.suffix)
  | itemsEnd close => exact hahead close (List.suffix_refl _)
  | itemsMore comma first others => exact hahead comma (others.suffix.trans first.suffix)
  | member ahead name colon value =>
      have hname := (List.suffix_cons _ _).trans name.quote_suffix
      exact hahead ahead ((value.suffix.trans (suffix_of_skipSpace_eq [_] colon)).trans hname)
  | emptyObject ahead close => exact hahead ahead (suffix_of_skipSpace_eq [_] close)
  | object ahead first others => exact hahead ahead (others.suffix.trans first.suffix)
  | membersEnd close => exact hahead close (List.suffix_refl _)
  | membersMore comma first others => exact hahead comma (others.suffix.trans first.suffix)

theorem text_ne_nil (h : Reads depth text phrase rest) : text ≠ [] :=
  List.ne_nil_of_length_pos (Nat.zero_lt_of_lt h.length_lt)

theorem deepen {depth' : Nat} (h : Reads depth text phrase rest) (hdepth : depth ≤ depth') :
    Reads depth' text phrase rest := by
  induction h generalizing depth' with
  | nullWord ahead => exact .nullWord ahead
  | trueWord ahead => exact .trueWord ahead
  | falseWord ahead => exact .falseWord ahead
  | negative ahead number => exact .negative ahead number
  | unsigned ahead digit number => exact .unsigned ahead digit number
  | string ahead chars => exact .string ahead chars
  | emptyArray ahead close =>
      cases depth' with
      | zero => exact absurd hdepth (Nat.not_succ_le_zero _)
      | succ depth' => exact .emptyArray ahead close
  | array ahead _ _ first others =>
      cases depth' with
      | zero => exact absurd hdepth (Nat.not_succ_le_zero _)
      | succ depth' =>
          have hdepth' := Nat.le_of_succ_le_succ hdepth
          exact .array ahead (first hdepth') (others hdepth')
  | itemsEnd close => exact .itemsEnd close
  | itemsMore comma _ _ first others => exact .itemsMore comma (first hdepth) (others hdepth)
  | member ahead name colon _ value => exact .member ahead name colon (value hdepth)
  | emptyObject ahead close =>
      cases depth' with
      | zero => exact absurd hdepth (Nat.not_succ_le_zero _)
      | succ depth' => exact .emptyObject ahead close
  | object ahead _ _ first others =>
      cases depth' with
      | zero => exact absurd hdepth (Nat.not_succ_le_zero _)
      | succ depth' =>
          have hdepth' := Nat.le_of_succ_le_succ hdepth
          exact .object ahead (first hdepth') (others hdepth')
  | membersEnd close => exact .membersEnd close
  | membersMore comma _ _ first others =>
      exact .membersMore comma (first hdepth) (others hdepth)

/-- A phrase that something delimits is read from a longer text just the same. -/
theorem append (h : Reads depth text phrase rest) (hrest : phrase.EndsInNumber → rest ≠ [])
    (more : List Char) : Reads depth (text ++ more) phrase (rest ++ more) := by
  induction h with
  | nullWord ahead => exact .nullWord (skipSpace_append ahead more)
  | trueWord ahead => exact .trueWord (skipSpace_append ahead more)
  | falseWord ahead => exact .falseWord (skipSpace_append ahead more)
  | negative ahead number =>
      exact .negative (skipSpace_append ahead more)
        ((numberBody_takes number).longer (hrest trivial) more)
  | unsigned ahead digit number =>
      exact .unsigned (skipSpace_append ahead more) digit
        ((numberBody_takes number).longer (hrest trivial) more)
  | string ahead chars => exact .string (skipSpace_append ahead more) (chars.append more)
  | emptyArray ahead close =>
      exact .emptyArray (skipSpace_append ahead more) (skipSpace_append close more)
  | array ahead _ others' first others =>
      exact .array (skipSpace_append ahead more) (first fun _ => others'.text_ne_nil)
        (others nofun)
  | itemsEnd close => exact .itemsEnd (skipSpace_append close more)
  | itemsMore comma _ others' first others =>
      exact .itemsMore (skipSpace_append comma more) (first fun _ => others'.text_ne_nil)
        (others nofun)
  | member ahead name colon _ value =>
      exact .member (skipSpace_append ahead more) (name.append more)
        (skipSpace_append colon more) (value hrest)
  | emptyObject ahead close =>
      exact .emptyObject (skipSpace_append ahead more) (skipSpace_append close more)
  | object ahead _ others' first others =>
      exact .object (skipSpace_append ahead more) (first fun _ => others'.text_ne_nil)
        (others nofun)
  | membersEnd close => exact .membersEnd (skipSpace_append close more)
  | membersMore comma _ others' first others =>
      exact .membersMore (skipSpace_append comma more) (first fun _ => others'.text_ne_nil)
        (others nofun)

end Reads

end Json

end Marginalia
