import Marginalia.Proofs.Json.Approach
import Marginalia.Proofs.Json.Digits
import Marginalia.Record

/-!
# Records in plain spelling

A record in plain spelling is an object with no members but those of a record, in any
order and with blanks anywhere between its tokens.  The keys are spelled without escapes,
the strings with any.
-/

namespace Marginalia

namespace Record

open Json (Reads Body Delimited Separated isSpace skipSpace)

/-! ## Spelling -/

inductive Field where
  | line (n : Nat)
  | suggestion (text : NonBlank)
  | severity (word : String)

def Blanks (text : List Char) : Prop :=
  ∀ c ∈ text, isSpace c = true

theorem blanks_nil : Blanks [] := by
  simp [Blanks]

namespace Field

def key : Field → String
  | line _ => "line"
  | suggestion _ => "suggestion"
  | severity _ => "severity"

def value : Field → Json
  | line n => .number (.natural n)
  | suggestion text => .string text.text
  | severity word => .string word

def member (f : Field) : String × Json :=
  (f.key, f.value)

inductive Spelled : Field → List Char → Prop where
  | line {n : Nat} (small : n ≤ maxLine) : Spelled (.line n) (Nat.toDigits 10 n)
  | suggestion {text : NonBlank} {chars : List Char} (body : Body chars text.text.toList []) :
      Spelled (.suggestion text) ('"' :: chars)
  | severity {word : String} {chars : List Char} (body : Body chars word.toList []) :
      Spelled (.severity word) ('"' :: chars)

inductive Written (f : Field) : List Char → Prop where
  | intro {first second third fourth chars : List Char} (hfirst : Blanks first)
      (hsecond : Blanks second) (hthird : Blanks third) (hfourth : Blanks fourth)
      (hvalue : f.Spelled chars) :
      Written f (first ++ '"' :: (f.key.toList ++ '"' :: (second ++ ':' ::
        (third ++ (chars ++ fourth)))))

end Field

/-- The texts that spell members, from behind an opening brace or a comma on. -/
inductive Fields : List Field → List Char → Prop where
  | last {f : Field} {chars : List Char} (h : f.Written chars) : Fields [f] (chars ++ ['\x7d'])
  | more {f : Field} {fields : List Field} {chars text : List Char} (h : f.Written chars)
      (next : Fields fields text) : Fields (f :: fields) (chars ++ ',' :: text)

/-- A record with a text that spells it plainly. -/
structure Plain where
  line : Nat
  suggestion : NonBlank
  /-- The word in the place of a severity, if there is one. -/
  word? : Option String
  fields : List Field
  order : fields.Perm
    (.line line :: .suggestion suggestion :: (word?.map Field.severity).toList)
  /-- What follows the opening brace. -/
  body : List Char
  spelled : Fields fields body

/-! ## Reading -/

section

variable {depth : Nat}

theorem body_of_plain {chars : List Char}
    (h : ∀ c ∈ chars, c ≠ '"' ∧ c ≠ '\\' ∧ ¬ c.toNat < 0x20) (rest : List Char) :
    Body (chars ++ '"' :: rest) chars rest := by
  induction chars with
  | nil => exact .close
  | cons c chars ih =>
      obtain ⟨hquote, hescape, hcontrol⟩ := h c List.mem_cons_self
      exact .plain hquote hescape hcontrol (ih fun d hd => h d (List.mem_cons_of_mem c hd))

theorem Field.body_key (f : Field) (rest : List Char) :
    Body (f.key.toList ++ '"' :: rest) f.key.toList rest := by
  refine body_of_plain ?_ rest
  cases f with
  | line _ => simp [key]
  | suggestion _ => simp [key]
  | severity _ => simp [key]

theorem reads_string {s : String} {chars : List Char} (body : Body chars s.toList [])
    (rest : List Char) : Reads depth ('"' :: chars ++ rest) (.value (.string s)) rest := by
  have hquote : skipSpace ('"' :: chars ++ rest) = '"' :: (chars ++ rest) :=
    Json.skipSpace_cons_of_not_isSpace (by decide)
  have hstring := @Reads.string depth _ _ _ _ hquote (body.append rest)
  rwa [String.ofList_toList, List.nil_append] at hstring

theorem Field.Spelled.reads {f : Field} {chars rest : List Char} (h : f.Spelled chars)
    (hrest : Delimited rest) : Reads depth (chars ++ rest) (.value f.value) rest := by
  cases h with
  | line small =>
      exact Json.reads_natural (Nat.le_trans small (by decide))
        fun c hc => hrest.isNumeral_eq_false hc
  | suggestion body => exact reads_string body rest
  | severity body => exact reads_string body rest

theorem Field.Written.reads {f : Field} {chars rest : List Char} (h : f.Written chars)
    (hrest : Separated rest) :
    ∃ after, Reads depth (chars ++ rest) (.member f.member) after ∧
      skipSpace after = skipSpace rest := by
  cases h with
  | @intro first second third fourth chars hfirst hsecond hthird hfourth hvalue =>
      refine ⟨fourth ++ rest, ?_, Json.skipSpace_blanks_append hfourth rest⟩
      have hafter : Separated (fourth ++ rest) := by
        rwa [Separated, Json.skipSpace_blanks_append hfourth]
      have hquote : skipSpace (first ++ '"' :: (f.key.toList ++ '"' :: (second ++ ':' ::
          (third ++ (chars ++ (fourth ++ rest)))))) = '"' :: (f.key.toList ++ '"' ::
            (second ++ ':' :: (third ++ (chars ++ (fourth ++ rest))))) := by
        rw [Json.skipSpace_blanks_append hfirst]
        exact Json.skipSpace_cons_of_not_isSpace (by decide)
      have hcolon : skipSpace (second ++ ':' :: (third ++ (chars ++ (fourth ++ rest)))) =
          ':' :: (third ++ (chars ++ (fourth ++ rest))) := by
        rw [Json.skipSpace_blanks_append hsecond]
        exact Json.skipSpace_cons_of_not_isSpace (by decide)
      have hblanks := Json.skipSpace_blanks_append hthird (chars ++ (fourth ++ rest))
      have hreads := (@hvalue.reads depth _ _ _ hafter.delimited).of_skipSpace_eq hblanks
      have hmember := Reads.member hquote (f.body_key _) hcolon hreads
      rw [String.ofList_toList] at hmember
      simpa [Field.member] using hmember

theorem Fields.reads {f : Field} {fields : List Field} {text : List Char}
    (h : Fields (f :: fields) text) :
    ∃ after, Reads depth text (.member f.member) after ∧
      Reads depth after (.members (fields.map Field.member)) [] := by
  generalize hall : f :: fields = all at h
  induction h generalizing f fields with
  | last h =>
      cases hall
      have hclose : skipSpace ['\x7d'] = ['\x7d'] := by decide
      obtain ⟨after, hmember, hafter⟩ := h.reads ⟨'\x7d', [], hclose, by simp⟩
      exact ⟨after, hmember, .membersEnd (hafter.trans hclose)⟩
  | @more _ fields chars text h next ih =>
      cases hall
      have hcomma : skipSpace (',' :: text) = ',' :: text :=
        Json.skipSpace_cons_of_not_isSpace (by decide)
      obtain ⟨after, hmember, hafter⟩ := h.reads ⟨',', text, hcomma, by simp⟩
      cases fields with
      | nil => cases next
      | cons g fields =>
          obtain ⟨after', hfirst, hothers⟩ := ih rfl
          exact ⟨after, hmember, .membersMore (hafter.trans hcomma) hfirst hothers⟩

end

/-! ## Plain records -/

theorem Fields.exists_cons {fields : List Field} {text : List Char} (h : Fields fields text) :
    ∃ f others, fields = f :: others := by
  cases h with
  | last _ => exact ⟨_, _, rfl⟩
  | more _ _ => exact ⟨_, _, rfl⟩

theorem Fields.exists_spelled {f : Field} {fields : List Field} {text : List Char}
    (h : Fields fields text) (hf : f ∈ fields) : ∃ chars, f.Spelled chars := by
  induction h with
  | last h =>
      cases List.mem_singleton.mp hf
      cases h with
      | intro _ _ _ _ hvalue => exact ⟨_, hvalue⟩
  | more h _ ih =>
      rcases List.mem_cons.mp hf with rfl | hlater
      · cases h with
        | intro _ _ _ _ hvalue => exact ⟨_, hvalue⟩
      · exact ih hlater

/-- No separator is ahead in a key and what follows it. -/
theorem Field.not_separated_key (f : Field) (rest : List Char) :
    ¬ Separated (f.key.toList ++ rest) := by
  cases f with
  | line _ =>
      have hkey : "line".toList = ['l', 'i', 'n', 'e'] := by decide
      rw [key, hkey]
      exact Json.not_separated_cons rfl (by decide)
  | suggestion _ =>
      have hkey : "suggestion".toList = 's' :: "uggestion".toList := by decide
      rw [key, hkey]
      exact Json.not_separated_cons rfl (by decide)
  | severity _ =>
      have hkey : "severity".toList = 's' :: "everity".toList := by decide
      rw [key, hkey]
      exact Json.not_separated_cons rfl (by decide)

theorem Field.Written.exists_quote {f : Field} {chars : List Char} (h : f.Written chars)
    (rest : List Char) :
    ∃ name, skipSpace (chars ++ rest) = '"' :: name ∧ ¬ Separated name := by
  cases h with
  | intro hfirst _ _ _ _ =>
      rw [List.append_assoc, Json.skipSpace_blanks_append hfirst, List.cons_append,
        List.append_assoc]
      exact ⟨_, Json.skipSpace_cons_of_not_isSpace (by decide), f.not_separated_key _⟩

theorem Fields.exists_quote {fields : List Field} {text : List Char} (h : Fields fields text) :
    ∃ name, skipSpace text = '"' :: name ∧ ¬ Separated name := by
  cases h with
  | last h => exact h.exists_quote _
  | more h _ => exact h.exists_quote _

namespace Plain

variable (r : Plain)

def text : List Char :=
  '\x7b' :: r.body

def record : Record :=
  ⟨r.line, r.suggestion, .ofWire (r.word?.getD "")⟩

def members : List (String × Json) :=
  r.fields.map Field.member

theorem reads : Reads Json.maxDepth r.text (.value (.object r.members)) [] := by
  obtain ⟨f, others, hfields⟩ := r.spelled.exists_cons
  have hspelled := r.spelled
  rw [hfields] at hspelled
  obtain ⟨after, hmember, hothers⟩ := hspelled.reads
  rw [members, hfields]
  exact .object (Json.skipSpace_cons_of_not_isSpace (by decide)) hmember hothers

theorem keys_nodup : (r.members.map (·.1)).Nodup := by
  have horder := r.order.map Field.key
  rw [members, List.map_map]
  refine horder.nodup_iff.mpr ?_
  cases r.word? with
  | none =>
      show ["line", "suggestion"].Nodup
      decide
  | some _ =>
      show ["line", "suggestion", "severity"].Nodup
      decide

theorem lookup?_field {f : Field} (h : f ∈ r.fields) :
    Json.lookup? r.members f.key = some f.value :=
  Json.lookup?_eq_some r.keys_nodup (List.mem_map_of_mem h)

theorem severityWordOf?_members :
    severityWordOf? (Json.lookup? r.members "severity") = some (r.word?.getD "") := by
  have horder := r.order
  cases hword : r.word? with
  | none =>
      rw [hword] at horder
      have hkeys : r.members.map (·.1) = r.fields.map Field.key := by
        rw [members, List.map_map]
        rfl
      rw [Json.lookup?_eq_none]
      · rfl
      · rw [hkeys, (horder.map Field.key).mem_iff]
        show "severity" ∉ ["line", "suggestion"]
        decide
  | some word =>
      rw [hword] at horder
      have hseverity : .severity word ∈ r.fields := horder.mem_iff.mpr (by simp)
      have hfound : Json.lookup? r.members "severity" = some (.string word) :=
        r.lookup?_field hseverity
      rw [hfound]
      rfl

theorem ofMembers?_members : ofMembers? r.members = some r.record := by
  have hline : .line r.line ∈ r.fields := r.order.mem_iff.mpr (by simp)
  have hsuggestion : .suggestion r.suggestion ∈ r.fields := r.order.mem_iff.mpr (by simp)
  have hsmall : r.line ≤ maxLine := by
    obtain ⟨chars, hchars⟩ := r.spelled.exists_spelled hline
    cases hchars with
    | line small => exact small
  have hline' : Json.lookup? r.members "line" = some (.number (.natural r.line)) :=
    r.lookup?_field hline
  have hsuggestion' : Json.lookup? r.members "suggestion" = some (.string r.suggestion.text) :=
    r.lookup?_field hsuggestion
  rw [ofMembers?, hline', hsuggestion', r.severityWordOf?_members]
  simp [lineOf?, suggestionOf?, NonBlank.ofString?_text, hsmall, record]

/-- The object is anchored: its first key could not follow a string. -/
theorem anchored : Json.Anchored r.body r.members :=
  ⟨r.reads, r.spelled.exists_quote⟩

/-- The spelling without blanks and severity, with the suggestion spelled as given. -/
def compact {line : Nat} (small : line ≤ maxLine) (suggestion : NonBlank) {chars : List Char}
    (hchars : Body chars suggestion.text.toList []) : Plain where
  line
  suggestion
  word? := none
  fields := [.line line, .suggestion suggestion]
  order := .refl _
  body := _
  spelled :=
    .more (.intro blanks_nil blanks_nil blanks_nil blanks_nil (.line small))
      (.last (.intro blanks_nil blanks_nil blanks_nil blanks_nil (.suggestion hchars)))

end Plain

end Record

end Marginalia
