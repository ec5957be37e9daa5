import Mathlib.Data.List.Perm.Basic
import Marginalia.Proofs.Json.Compact
import Marginalia.Proofs.Record.Drain
import Marginalia.Proofs.Record.Members

/-!
# Which objects spell a record

Whether an object spells a record, and which, is told by the texts of its members: the last
line number, the last suggestion and the last severity count, and all other members do not.
-/

namespace Marginalia

namespace Record

open Json (Reads Body skipSpace)

/-! ## Members looked up -/

/-- The text of the value of a key: that of the last member with this key. -/
def lastText? : List Member → String → Option (List Char)
  | [], _ => none
  | m :: members, key => (lastText? members key).or (if m.key = key then some m.text else none)

/-- What is looked up in an object is the value of the text that is looked up in its members. -/
theorem rel_lookup? {members : List Member} {pairs : List (String × Json)}
    (h : List.Forall₂ Member.Holds members pairs) (key : String) :
    Option.Rel Token (lastText? members key) (Json.lookup? pairs key) := by
  induction h with
  | nil => exact .none
  | @cons m pair members pairs hpair _ ih =>
      rw [lastText?, Json.lookup?_cons, ← hpair.1]
      generalize lastText? members key = text?, Json.lookup? pairs key = value? at ih ⊢
      cases ih with
      | some htoken => exact .some htoken
      | none =>
          by_cases hkey : m.key = key
          · rw [if_pos hkey, if_pos hkey]
            exact .some hpair.2
          · rw [if_neg hkey, if_neg hkey]
            exact .none

/-! ## Fields -/

def Quotes (text : List Char) (s : String) : Prop :=
  ∃ body, text = '"' :: body ∧ Body body s.toList []

namespace Token

variable {text : List Char} {v : Json}

theorem string_iff (h : Token text v) (s : String) : v = .string s ↔ Quotes text s := by
  constructor
  · rintro rfl
    generalize hv : Json.string s = v at h
    cases h.reads with
    | @string _ _ body cs _ ahead chars =>
        cases hv
        refine ⟨body, h.tight.symm.trans ahead, ?_⟩
        rwa [String.toList_ofList]
    | _ => cases hv
  · rintro ⟨body, rfl, hbody⟩
    have hstring := @Reads.string (Json.maxDepth - 1) _ _ _ _ h.tight hbody
    rw [String.ofList_toList] at hstring
    exact (h.reads.unique hstring).1

theorem null_iff (h : Token text v) : v = .null ↔ text = ['n', 'u', 'l', 'l'] := by
  have hnull : Reads (Json.maxDepth - 1) ['n', 'u', 'l', 'l'] (.value .null) [] :=
    .nullWord (by decide)
  constructor
  · rintro rfl
    cases h.reads with
    | nullWord ahead => exact h.tight.symm.trans ahead
  · rintro rfl
    exact (h.reads.unique hnull).1

theorem natural_iff (h : Token text v) {n : Nat} (hn : n ≤ maxLine) :
    v = .number (.natural n) ↔
      (∀ c ∈ text, c.isDigit = true) ∧ Nat.ofDigitChars 10 text 0 = n := by
  rw [Json.reads_natural_iff h.tight h.reads (Nat.le_trans hn (by decide))]
  simp only [Json.isDigit_eq]

end Token

theorem lineOf?_eq_some_iff {v : Json} {n : Nat} :
    lineOf? v = some n ↔ n ≤ maxLine ∧ v = .number (.natural n) := by
  constructor
  · intro h
    unfold lineOf? at h
    split at h
    · split at h
      · next hle =>
          cases h
          exact ⟨hle, rfl⟩
      · cases h
    · cases h
  · rintro ⟨hle, rfl⟩
    rw [lineOf?, if_pos hle]

theorem suggestionOf?_eq_some_iff {v : Json} {s : NonBlank} :
    suggestionOf? v = some s ↔ v = .string s.text := by
  constructor
  · intro h
    unfold suggestionOf? at h
    split at h
    · unfold NonBlank.ofString? at h
      split at h
      · cases h
        rfl
      · cases h
    · cases h
  · rintro rfl
    exact s.ofString?_text

section

variable {text? : Option (List Char)} {value? : Option Json}

theorem bind_lineOf?_iff (h : Option.Rel Token text? value?) (n : Nat) :
    value?.bind lineOf? = some n ↔
      n ≤ maxLine ∧ ∃ digits, text? = some digits ∧ (∀ c ∈ digits, c.isDigit = true) ∧
        Nat.ofDigitChars 10 digits 0 = n := by
  cases h with
  | none => simp
  | some htoken =>
      rw [Option.bind_some, lineOf?_eq_some_iff]
      refine and_congr_right fun hn => ?_
      rw [htoken.natural_iff hn]
      simp

theorem bind_suggestionOf?_iff (h : Option.Rel Token text? value?) (s : NonBlank) :
    value?.bind suggestionOf? = some s ↔ ∃ text, text? = some text ∧ Quotes text s.text := by
  cases h with
  | none => simp
  | some htoken =>
      rw [Option.bind_some, suggestionOf?_eq_some_iff, htoken.string_iff]
      simp

/-- Whether the text in the place of a severity, if there is one, stands for a word. -/
inductive SpellsWord : Option (List Char) → String → Prop where
  | absent : SpellsWord none ""
  | null : SpellsWord (some ['n', 'u', 'l', 'l']) ""
  | quoted {text : List Char} {word : String} (h : Quotes text word) : SpellsWord (some text) word

theorem severityWordOf?_iff (h : Option.Rel Token text? value?) (word : String) :
    severityWordOf? value? = some word ↔ SpellsWord text? word := by
  cases h with
  | none =>
      constructor
      · rintro ⟨⟩
        exact .absent
      · rintro ⟨⟩
        rfl
  | @some text v htoken =>
      constructor
      · intro h
        unfold severityWordOf? at h
        split at h
        · next hnone => cases hnone
        · next hnull =>
            cases h
            rw [htoken.null_iff.mp (Option.some.inj hnull)]
            exact .null
        · next hstring =>
            cases h
            exact .quoted ((htoken.string_iff word).mp (Option.some.inj hstring))
        · cases h
      · intro h
        cases h with
        | null =>
            rw [htoken.null_iff.mpr rfl]
            rfl
        | quoted hquotes =>
            rw [(htoken.string_iff word).mpr hquotes]
            rfl

end

/-! ## Records -/

/--
Whether members spell a record: the last line number is in digits and not too great, the last
suggestion is the string that the record has, and so is the last severity, which may also be
absent or null.
-/
structure Spells (members : List Member) (record : Record) : Prop where
  small : record.line ≤ maxLine
  line : ∃ digits, lastText? members "line" = some digits ∧ (∀ c ∈ digits, c.isDigit = true) ∧
    Nat.ofDigitChars 10 digits 0 = record.line
  suggestion : ∃ text, lastText? members "suggestion" = some text ∧
    Quotes text record.suggestion.text
  severity : ∃ word, SpellsWord (lastText? members "severity") word ∧
    record.severity = .ofWire word ∧ record.severity.toWire = word

theorem ofMembers?_eq_some_iff {pairs : List (String × Json)} {record : Record} :
    ofMembers? pairs = some record ↔
      (Json.lookup? pairs "line").bind lineOf? = some record.line ∧
      (Json.lookup? pairs "suggestion").bind suggestionOf? = some record.suggestion ∧
      ∃ word, severityWordOf? (Json.lookup? pairs "severity") = some word ∧
        record.severity = .ofWire word := by
  constructor
  · intro h
    obtain ⟨line, hline, h⟩ := Option.bind_eq_some_iff.mp h
    obtain ⟨word, hword, h⟩ := Option.bind_eq_some_iff.mp h
    obtain ⟨suggestion, hsuggestion, h⟩ := Option.bind_eq_some_iff.mp h
    cases h
    exact ⟨hline, hsuggestion, word, hword, rfl⟩
  · rintro ⟨hline, hsuggestion, word, hword, hseverity⟩
    simp only [ofMembers?, hline, hword, hsuggestion, Option.bind_eq_bind, Option.bind_some]
    rw [← hseverity]
    rfl

theorem ofMembers?_iff_spells {members : List Member} {pairs : List (String × Json)}
    (h : List.Forall₂ Member.Holds members pairs) (record : Record) :
    ofMembers? pairs = some record ↔ Spells members record := by
  rw [ofMembers?_eq_some_iff, bind_lineOf?_iff (rel_lookup? h "line"),
    bind_suggestionOf?_iff (rel_lookup? h "suggestion")]
  simp only [severityWordOf?_iff (rel_lookup? h "severity")]
  constructor
  · rintro ⟨⟨small, line⟩, suggestion, word, hword, hseverity⟩
    refine ⟨small, line, suggestion, word, hword, hseverity, ?_⟩
    rw [hseverity, RecordSeverity.toWire_ofWire]
  · intro h
    obtain ⟨word, hword, hseverity, -⟩ := h.severity
    exact ⟨⟨h.small, h.line⟩, h.suggestion, word, hword, hseverity⟩

/-! ## Objects that are pushed -/

/-- A text that is an object from its first token to its end is decoded once and used up. -/
theorem drained_of_reads {text : List Char} {pairs : List (String × Json)}
    (h : Reads Json.maxDepth text (.value (.object pairs)) []) :
    drained text = ((ofMembers? pairs).toList, []) := by
  have hobject := (firstObject?_eq_some_iff (Nat.le_succ text.length)).mpr h
  have hempty : drained [] = ([], []) := rfl
  cases hrecord : ofMembers? pairs with
  | none =>
      have hdecoded : decodeNext? text = some (.discarded []) := by
        simp only [decodeNext?, Json.fuelFor, hobject, hrecord]
      rw [drained_of_some hdecoded, Decoded.rest, hempty]
      rfl
  | some record =>
      have hdecoded : decodeNext? text = some (.record record []) := by
        simp only [decodeNext?, Json.fuelFor, hobject, hrecord]
      rw [drained_of_some hdecoded, Decoded.rest, hempty]
      rfl

/-- The members of a record that is written to be sent. -/
def wirePairs (line : Nat) (word : String) (suggestion : NonBlank) : List (String × Json) :=
  [("line", .number (.natural line)), ("severity", .string word),
    ("suggestion", .string suggestion.text)]

theorem ofMembers?_of_perm {line : Nat} (small : line ≤ maxLine) (word : String)
    (suggestion : NonBlank) {pairs : List (String × Json)}
    (h : pairs.Perm (wirePairs line word suggestion)) :
    ofMembers? pairs = some ⟨line, suggestion, .ofWire word⟩ := by
  have hkeys : (pairs.map (·.1)).Nodup := by
    rw [(h.map (·.1)).nodup_iff]
    change ["line", "severity", "suggestion"].Nodup
    decide
  have hlookup {key : String} {v : Json} (hmem : (key, v) ∈ wirePairs line word suggestion) :
      Json.lookup? pairs key = some v :=
    Json.lookup?_eq_some hkeys (h.mem_iff.mpr hmem)
  have hline : Json.lookup? pairs "line" = some (.number (.natural line)) :=
    hlookup (by simp [wirePairs])
  have hword : Json.lookup? pairs "severity" = some (.string word) :=
    hlookup (by simp [wirePairs])
  have hsuggestion : Json.lookup? pairs "suggestion" = some (.string suggestion.text) :=
    hlookup (by simp [wirePairs])
  rw [ofMembers?_eq_some_iff, hline, hword, hsuggestion, Option.bind_some, Option.bind_some,
    lineOf?_eq_some_iff, suggestionOf?_eq_some_iff]
  exact ⟨⟨small, rfl⟩, rfl, word, rfl, rfl⟩

theorem fits_of_perm {line : Nat} (small : line ≤ maxLine) (word : String)
    (suggestion : NonBlank) {pairs : List (String × Json)}
    (h : pairs.Perm (wirePairs line word suggestion)) :
    Json.Fits Json.maxDepth (.object pairs) := by
  refine @Json.Fits.object 126 _ fun pair hpair => ?_
  have hmem := h.mem_iff.mp hpair
  simp only [wirePairs, List.mem_cons, List.not_mem_nil, or_false] at hmem
  rcases hmem with rfl | rfl | rfl
  · exact .natural (Nat.le_trans small (by decide))
  · exact .string word
  · exact .string suggestion.text

namespace Decoder

theorem push_of_reads {text : String} {pairs : List (String × Json)}
    (h : Reads Json.maxDepth text.toList (.value (.object pairs)) []) :
    ({} : Decoder).push text = ((ofMembers? pairs).toList, {}) := by
  have hbrace : '\x7d' ∈ text.toList := h.closer_suffix.subset List.mem_cons_self
  rw [push_of_brace hbrace, List.nil_append, drained_of_reads h]
  rfl

/-- A record that is written to be sent, its members in any order, is given back. -/
theorem push_compact {line : Nat} (small : line ≤ maxLine) (word : String)
    (suggestion : NonBlank) {pairs : List (String × Json)}
    (h : pairs.Perm (wirePairs line word suggestion)) :
    ({} : Decoder).push (Json.object pairs).compact =
      ([⟨line, suggestion, .ofWire word⟩], {}) := by
  have hreads := (fits_of_perm small word suggestion h).readsBack [] Json.delimited_nil
  rw [List.append_nil] at hreads
  rw [push_of_reads hreads, ofMembers?_of_perm small word suggestion h]
  rfl

/--
The texts that are read as an object are those laid out in members.  Such a text gives the
record that its members spell, and no record when they spell none; nothing of it is kept.  A
record that is written to be sent is given back.
-/
theorem push_object :
    (∀ text : String, (∃ pairs, Json.firstValue text.toList = .ok (.object pairs, [])) ↔
      ∃ members, ObjectText members text.toList) ∧
    (∀ (text : String) members, ObjectText members text.toList →
      ∃ found : Option Record, (∀ record, found = some record ↔ Spells members record) ∧
        ({} : Decoder).push text = (found.toList, {})) ∧
    ∀ (line : UInt32) (word : String) (suggestion : NonBlank) (pairs : List (String × Json)),
      pairs.Perm (wirePairs line.toNat word suggestion) →
        ∃ record : Record, ({} : Decoder).push (Json.object pairs).compact = ([record], {}) ∧
          record.line = line.toNat ∧ record.severity.toWire = word ∧
            record.suggestion = suggestion := by
  refine ⟨fun text => ?_, fun text members h => ?_, fun line word suggestion pairs h => ?_⟩
  · constructor
    · rintro ⟨pairs, hpairs⟩
      exact exists_objectText (Reads.of_value hpairs)
    · rintro ⟨members, hmembers⟩
      obtain ⟨pairs, -, hreads⟩ := hmembers.exists_reads
      exact ⟨pairs, (Json.value_eq_ok_iff (Nat.le_succ _)).mpr hreads⟩
  · obtain ⟨pairs, hpairs, hreads⟩ := h.exists_reads
    exact ⟨ofMembers? pairs, ofMembers?_iff_spells hpairs, push_of_reads hreads⟩
  · have small : line.toNat ≤ maxLine := Nat.le_of_lt_succ line.toNat_lt
    exact ⟨_, push_compact small word suggestion h, rfl, RecordSeverity.toWire_ofWire word, rfl⟩

/-- The line number is repeated, and there is no severity. -/
theorem push_object_repeated :
    ({} : Decoder).push "\x7b\"line\":0.5,\"line\":7,\"suggestion\":\"a\"\x7d" =
      ([⟨7, ⟨"a", by decide⟩, .unrecognized ""⟩], {}) := by
  let members : List Member :=
    [⟨"line", ['0', '.', '5']⟩, ⟨"line", ['7']⟩, ⟨"suggestion", ['"', 'a', '"']⟩]
  have hwritten (m : Member) (hkey : ∀ c ∈ m.key.toList, c ≠ '"' ∧ c ≠ '\\' ∧ ¬ c.toNat < 0x20) :
      m.Written ('"' :: (m.key.toList ++ '"' :: ':' :: m.text)) := by
    simpa using Member.Written.intro blanks_nil (body_of_plain hkey []) blanks_nil blanks_nil
      blanks_nil
  have htoken {text : List Char} {v : Json} (hstart : skipSpace text = text)
      (h : Json.value true text.length 126 text = .ok (v, [])) : Token text v :=
    ⟨hstart, Reads.of_value h⟩
  have hobject : ObjectText members
      "\x7b\"line\":0.5,\"line\":7,\"suggestion\":\"a\"\x7d".toList := by
    refine ⟨⟨[], _, rfl, blanks_nil, .more (hwritten _ (by simp))
      (.more (hwritten _ (by simp)) (.last (hwritten _ (by simp))))⟩, ?_⟩
    simp only [members, List.forall_mem_cons]
    exact ⟨⟨_, htoken (by decide) (by rfl)⟩, ⟨_, htoken (by decide) (by rfl)⟩,
      ⟨_, htoken (by decide) (by rfl)⟩, List.forall_mem_nil _⟩
  have hspells : Spells members ⟨7, ⟨"a", by decide⟩, .unrecognized ""⟩ := by
    refine ⟨by decide, ⟨['7'], by decide, by simp, by decide⟩,
      ⟨['"', 'a', '"'], by decide, ['a', '"'], rfl, ?_⟩, ⟨"", .absent, by decide, by decide⟩⟩
    exact .plain (by decide) (by decide) (by decide) .close
  obtain ⟨found, hfound, hpush⟩ := push_object.2.1 _ members hobject
  rw [hpush, (hfound _).mpr hspells]
  rfl

end Decoder

end Record

end Marginalia
