import Marginalia.Json.Reader

/-!
# A grammar of JSON texts

The grammar relates a text, what stands at its front, and the text after it.  It has
neither fuel nor faults, so that facts about how a text is read are inductions over
derivations.  Numbers are left to their reader; every other token is spelled out here.
-/

namespace Marginalia

namespace Json

/-! ## Blanks -/

@[simp] theorem skipSpace_nil : skipSpace [] = [] := rfl

theorem skipSpace_cons_of_isSpace {c : Char} {cs : List Char} (h : isSpace c = true) :
    skipSpace (c :: cs) = skipSpace cs := by
  simp [skipSpace, h]

theorem skipSpace_cons_of_not_isSpace {c : Char} {cs : List Char} (h : isSpace c = false) :
    skipSpace (c :: cs) = c :: cs := by
  simp [skipSpace, h]

/-- The text from the next token on does not start with a blank. -/
theorem isSpace_of_skipSpace_eq_cons {text rest : List Char} {c : Char}
    (h : skipSpace text = c :: rest) : isSpace c = false := by
  induction text with
  | nil => simp at h
  | cons d text ih =>
      by_cases hd : isSpace d = true
      · rw [skipSpace_cons_of_isSpace hd] at h
        exact ih h
      · rw [Bool.not_eq_true] at hd
        rw [skipSpace_cons_of_not_isSpace hd] at h
        cases h
        exact hd

theorem skipSpace_skipSpace (text : List Char) : skipSpace (skipSpace text) = skipSpace text := by
  cases h : skipSpace text with
  | nil => rfl
  | cons c rest => exact skipSpace_cons_of_not_isSpace (isSpace_of_skipSpace_eq_cons h)

/-- A text is its blanks and the text from the next token on. -/
theorem exists_blanks_append (text : List Char) :
    ∃ blanks, text = blanks ++ skipSpace text ∧ ∀ c ∈ blanks, isSpace c = true := by
  refine ⟨text.takeWhile isSpace, (List.takeWhile_append_dropWhile ..).symm, ?_⟩
  intro c hc
  exact List.all_eq_true.mp List.all_takeWhile c hc

theorem skipSpace_suffix (text : List Char) : skipSpace text <:+ text :=
  List.dropWhile_suffix _

theorem skipSpace_blanks_append {blanks : List Char} (h : ∀ c ∈ blanks, isSpace c = true)
    (text : List Char) : skipSpace (blanks ++ text) = skipSpace text := by
  induction blanks with
  | nil => rfl
  | cons c blanks ih =>
      rw [List.cons_append, skipSpace_cons_of_isSpace (h c List.mem_cons_self)]
      exact ih fun d hd => h d (List.mem_cons_of_mem c hd)

/-- Once a token is ahead, more text behind it does not change where it starts. -/
theorem skipSpace_append {text rest : List Char} {c : Char} (h : skipSpace text = c :: rest)
    (more : List Char) : skipSpace (text ++ more) = c :: (rest ++ more) := by
  obtain ⟨blanks, hsplit, hblanks⟩ := exists_blanks_append text
  rw [hsplit, List.append_assoc, skipSpace_blanks_append hblanks, h, List.cons_append]
  exact skipSpace_cons_of_not_isSpace (isSpace_of_skipSpace_eq_cons h)

/-! ## Strings -/

def hexUnit? (a b c d : Char) : Option Nat := do
  let a ← Text.hexValue? a
  let b ← Text.hexValue? b
  let c ← Text.hexValue? c
  let d ← Text.hexValue? d
  return ((a * 16 + b) * 16 + c) * 16 + d

def pairChar (high low : Nat) : Char :=
  Char.ofNat (0x10000 + (high - 0xD800) * 0x400 + (low - 0xDC00))

/--
A text that goes on inside a string: the characters the string still holds, and the text
after its closing quote.
-/
inductive Body : List Char → List Char → List Char → Prop where
  | close {rest : List Char} : Body ('"' :: rest) [] rest
  | plain {c : Char} {text cs rest : List Char} (hquote : c ≠ '"') (hescape : c ≠ '\\')
      (hcontrol : ¬ c.toNat < 0x20) (next : Body text cs rest) : Body (c :: text) (c :: cs) rest
  | letter {c d : Char} {text cs rest : List Char} (hc : simpleEscape? c = some d)
      (next : Body text cs rest) : Body ('\\' :: c :: text) (d :: cs) rest
  | unit {a b c d : Char} {v : Nat} {text cs rest : List Char} (hv : hexUnit? a b c d = some v)
      (hbelow : v < 0xD800 ∨ 0xDFFF < v) (next : Body text cs rest) :
      Body ('\\' :: 'u' :: a :: b :: c :: d :: text) (Char.ofNat v :: cs) rest
  | pair {a b c d e f g h : Char} {high low : Nat} {text cs rest : List Char}
      (hhigh : hexUnit? a b c d = some high) (high_ge : 0xD800 ≤ high) (high_le : high ≤ 0xDBFF)
      (hlow : hexUnit? e f g h = some low) (low_ge : 0xDC00 ≤ low) (low_le : low ≤ 0xDFFF)
      (next : Body text cs rest) :
      Body ('\\' :: 'u' :: a :: b :: c :: d :: '\\' :: 'u' :: e :: f :: g :: h :: text)
        (pairChar high low :: cs) rest

/-! ## Values -/

inductive Phrase where
  | value (v : Json)
  | member (m : String × Json)
  /-- The items that follow an item of a list, up to the closing bracket. -/
  | items (vs : List Json)
  /-- The members that follow a member of an object, up to the closing brace. -/
  | members (ms : List (String × Json))

/--
A text with a phrase at its front, at most `depth` containers deep, and the text after
the phrase.  Blanks in front of the phrase are passed over.
-/
inductive Reads : Nat → List Char → Phrase → List Char → Prop where
  | nullWord {depth : Nat} {text rest : List Char}
      (ahead : skipSpace text = 'n' :: 'u' :: 'l' :: 'l' :: rest) :
      Reads depth text (.value .null) rest
  | trueWord {depth : Nat} {text rest : List Char}
      (ahead : skipSpace text = 't' :: 'r' :: 'u' :: 'e' :: rest) :
      Reads depth text (.value (.bool true)) rest
  | falseWord {depth : Nat} {text rest : List Char}
      (ahead : skipSpace text = 'f' :: 'a' :: 'l' :: 's' :: 'e' :: rest) :
      Reads depth text (.value (.bool false)) rest
  | negative {depth : Nat} {text body rest : List Char} {n : Number}
      (ahead : skipSpace text = '-' :: body) (number : numberBody true true body = .ok (n, rest)) :
      Reads depth text (.value (.number n)) rest
  | unsigned {depth : Nat} {text body rest : List Char} {c : Char} {n : Number}
      (ahead : skipSpace text = c :: body) (digit : Text.isDigit c = true)
      (number : numberBody true false (c :: body) = .ok (n, rest)) :
      Reads depth text (.value (.number n)) rest
  | string {depth : Nat} {text body cs rest : List Char} (ahead : skipSpace text = '"' :: body)
      (chars : Body body cs rest) : Reads depth text (.value (.string (String.ofList cs))) rest
  | emptyArray {depth : Nat} {text inner rest : List Char} (ahead : skipSpace text = '[' :: inner)
      (close : skipSpace inner = ']' :: rest) : Reads (depth + 1) text (.value (.array [])) rest
  | array {depth : Nat} {text inner after rest : List Char} {v : Json} {vs : List Json}
      (ahead : skipSpace text = '[' :: inner) (first : Reads depth inner (.value v) after)
      (others : Reads depth after (.items vs) rest) :
      Reads (depth + 1) text (.value (.array (v :: vs))) rest
  | itemsEnd {depth : Nat} {text rest : List Char} (close : skipSpace text = ']' :: rest) :
      Reads depth text (.items []) rest
  | itemsMore {depth : Nat} {text next after rest : List Char} {v : Json} {vs : List Json}
      (comma : skipSpace text = ',' :: next) (first : Reads depth next (.value v) after)
      (others : Reads depth after (.items vs) rest) : Reads depth text (.items (v :: vs)) rest
  | member {depth : Nat} {text body cs after next rest : List Char} {v : Json}
      (ahead : skipSpace text = '"' :: body) (name : Body body cs after)
      (colon : skipSpace after = ':' :: next) (value : Reads depth next (.value v) rest) :
      Reads depth text (.member (String.ofList cs, v)) rest
  | emptyObject {depth : Nat} {text inner rest : List Char}
      (ahead : skipSpace text = '\x7b' :: inner) (close : skipSpace inner = '\x7d' :: rest) :
      Reads (depth + 1) text (.value (.object [])) rest
  | object {depth : Nat} {text inner after rest : List Char} {m : String × Json}
      {ms : List (String × Json)} (ahead : skipSpace text = '\x7b' :: inner)
      (first : Reads depth inner (.member m) after)
      (others : Reads depth after (.members ms) rest) :
      Reads (depth + 1) text (.value (.object (m :: ms))) rest
  | membersEnd {depth : Nat} {text rest : List Char} (close : skipSpace text = '\x7d' :: rest) :
      Reads depth text (.members []) rest
  | membersMore {depth : Nat} {text next after rest : List Char} {m : String × Json}
      {ms : List (String × Json)} (comma : skipSpace text = ',' :: next)
      (first : Reads depth next (.member m) after) (others : Reads depth after (.members ms) rest) :
      Reads depth text (.members (m :: ms)) rest

end Json

end Marginalia
