import Mathlib.Data.List.Infix
import Mathlib.Data.List.TakeWhile
import Marginalia.Proofs.Text.Utf8
import Marginalia.Settings.Environment

/-!
# References replaced in one pass

A text with references is replaced from left to right: what stands in front of the first
complete reference stays, the reference gives way to a value, and the pass goes on behind it.
The value is not looked through again.  These rules cover every text, so nothing else can be
meant by replacing references.
-/

namespace Marginalia

namespace Environment

variable {e : Environment}

/-! ## Values -/

/-- Whether the first entry with a name, which is not empty, holds these bytes. -/
structure Holds (e : Environment) (name : String) (bytes : List UInt8) : Prop where
  named : name ≠ ""
  entry : ∃ before after, e.entries = before ++ (mark name ++ bytes) :: after ∧
    ∀ other ∈ before, ¬ mark name <+: other

theorem bytesOf?_eq_some_iff {name : String} {bytes : List UInt8} :
    e.bytesOf? name = some bytes ↔ e.Holds name bytes := by
  have hnone (other : List UInt8) :
      (mark name).isPrefixOf? other = none ↔ ¬ mark name <+: other := by
    rw [← Option.not_isSome_iff_eq_none, List.isSome_isPrefixOf?_eq_isPrefixOf,
      List.isPrefixOf_iff_prefix]
  unfold bytesOf?
  by_cases hname : name = ""
  · rw [if_pos hname]
    exact ⟨nofun, fun h => absurd hname h.named⟩
  · rw [if_neg hname, List.findSome?_eq_some_iff]
    constructor
    · rintro ⟨before, entry, after, hentries, hentry, hbefore⟩
      rw [List.isPrefixOf?_eq_some_iff_append_eq] at hentry
      refine ⟨hname, before, after, ?_, fun other hother => (hnone other).mp (hbefore other hother)⟩
      rw [hentries, hentry]
    · rintro ⟨-, before, after, hentries, hbefore⟩
      refine ⟨before, _, after, hentries, ?_, fun other hother =>
        (hnone other).mpr (hbefore other hother)⟩
      rw [List.isPrefixOf?_eq_some_iff_append_eq]

theorem lookup?_eq_some_iff {name s : String} :
    e.lookup? name = some s ↔ e.Holds name (Text.Utf8.encode s) := by
  rw [lookup?, Option.bind_eq_some_iff]
  constructor
  · rintro ⟨bytes, hbytes, hs⟩
    rw [Text.Utf8.fromUTF8?_eq_some_iff] at hs
    rw [← hs]
    exact bytesOf?_eq_some_iff.mp hbytes
  · intro h
    exact ⟨_, bytesOf?_eq_some_iff.mpr h, Text.Utf8.fromUTF8?_eq_some_iff.mpr rfl⟩

theorem value_of_holds {name s : String} (h : e.Holds name (Text.Utf8.encode s)) :
    e.value name = s := by
  rw [value, lookup?_eq_some_iff.mpr h]
  rfl

theorem value_eq_empty {name : String} (h : ∀ s, ¬ e.Holds name (Text.Utf8.encode s)) :
    e.value name = "" := by
  have hnone : e.lookup? name = none := by
    rw [Option.eq_none_iff_forall_ne_some]
    exact fun s hs => h s (lookup?_eq_some_iff.mp hs)
  rw [value, hnone]
  rfl

/-! ## Steps -/

def opening : List Char := ['$', '\x7b']

theorem forall_bne_brace {cs : List Char} (h : '\x7d' ∉ cs) : ∀ c ∈ cs, (c != '\x7d') = true := by
  intro c hc
  rw [bne_iff_ne]
  intro hbrace
  exact h (hbrace ▸ hc)

theorem splitAtBrace?_append {name : List Char} (h : '\x7d' ∉ name) (after : List Char) :
    splitAtBrace? (name ++ '\x7d' :: after) = some (name, after) := by
  have hname := forall_bne_brace h
  rw [splitAtBrace?, List.dropWhile_append_of_pos hname, List.takeWhile_append_of_pos hname]
  simp

theorem splitAtBrace?_eq_none {cs : List Char} (h : '\x7d' ∉ cs) : splitAtBrace? cs = none := by
  have hall : cs.dropWhile (· != '\x7d') = [] :=
    List.dropWhile_eq_nil_iff.mpr (forall_bne_brace h)
  rw [splitAtBrace?, hall]

theorem expandChars_of_split {acc cs name after : List Char}
    (h : splitAtBrace? cs = some (name, after)) :
    e.expandChars acc ('$' :: '\x7b' :: cs) =
      e.expandChars ((e.value (String.ofList name)).toList.reverse ++ acc) after := by
  rw [expandChars]
  split
  · next name' after' h' =>
      rw [h] at h'
      cases h'
      rfl
  · next h' =>
      rw [h] at h'
      cases h'

theorem expandChars_of_split_none {acc cs : List Char} (h : splitAtBrace? cs = none) :
    e.expandChars acc ('$' :: '\x7b' :: cs) = e.expandChars ('$' :: acc) ('\x7b' :: cs) := by
  rw [expandChars]
  split
  · next name' after' h' =>
      rw [h] at h'
      cases h'
  · rfl

theorem expandChars_append_written (acc written cs : List Char) :
    e.expandChars (acc ++ written) cs = written.reverse ++ e.expandChars acc cs := by
  induction acc, cs using expandChars.induct e with
  | case1 acc => simp [expandChars]
  | case2 acc rest name after h ih =>
      rw [expandChars_of_split h, expandChars_of_split h, ← ih, List.append_assoc]
  | case3 acc rest h ih =>
      rw [expandChars_of_split_none h, expandChars_of_split_none h]
      exact ih
  | case4 acc c rest h ih =>
      rw [expandChars, expandChars]
      · exact ih
      · exact h
      · exact h

theorem expandChars_eq (acc cs : List Char) :
    e.expandChars acc cs = acc.reverse ++ e.expandChars [] cs := by
  simpa using expandChars_append_written [] acc cs

theorem expandChars_cons {c : Char} {cs : List Char} (h : ¬ opening <+: c :: cs) :
    e.expandChars [] (c :: cs) = c :: e.expandChars [] cs := by
  have hplain : ∀ rest, c = '$' → cs = '\x7b' :: rest → False := by
    rintro rest rfl rfl
    exact h ⟨rest, rfl⟩
  rw [expandChars, expandChars_eq]
  · rfl
  · exact hplain

theorem expandChars_reference {name : List Char} (h : '\x7d' ∉ name) (after : List Char) :
    e.expandChars [] (opening ++ (name ++ '\x7d' :: after)) =
      (e.value (String.ofList name)).toList ++ e.expandChars [] after := by
  change e.expandChars [] ('$' :: '\x7b' :: (name ++ '\x7d' :: after)) = _
  rw [expandChars_of_split (splitAtBrace?_append h after), expandChars_eq]
  simp

theorem expandChars_unclosed {cs : List Char} (h : '\x7d' ∉ cs) :
    e.expandChars [] (opening ++ cs) = '$' :: e.expandChars [] ('\x7b' :: cs) := by
  change e.expandChars [] ('$' :: '\x7b' :: cs) = _
  rw [expandChars_of_split_none (splitAtBrace?_eq_none h), expandChars_eq]
  rfl

/-! ## Runs -/

theorem opening_prefix_cons_cons {c d : Char} {cs : List Char} :
    opening <+: c :: d :: cs ↔ c = '$' ∧ d = '\x7b' := by
  rw [opening, List.cons_prefix_cons, List.cons_prefix_cons, eq_comm, @eq_comm _ d]
  simp

theorem expandChars_append {cs : List Char} (h : ¬ opening <:+: cs) (rest : List Char) :
    e.expandChars [] (cs ++ (opening ++ rest)) = cs ++ e.expandChars [] (opening ++ rest) := by
  induction cs with
  | nil => rfl
  | cons c cs ih =>
      have hlater : ¬ opening <:+: cs := fun hlater => h (List.infix_cons hlater)
      have hhere : ¬ opening <+: c :: (cs ++ (opening ++ rest)) := by
        intro hopening
        cases cs with
        | nil =>
            -- The character in front of an opening is followed by a dollar sign.
            have hbrace := (opening_prefix_cons_cons.mp hopening).2
            simp at hbrace
        | cons d cs =>
            have hpair := opening_prefix_cons_cons.mp hopening
            exact h (opening_prefix_cons_cons.mpr hpair).isInfix
      rw [List.cons_append, expandChars_cons hhere, ih hlater, List.cons_append]

/-- A text in which no opening has a closing brace anywhere behind it. -/
def Unclosed (cs : List Char) : Prop :=
  ∀ before after, cs = before ++ (opening ++ after) → '\x7d' ∉ after

theorem Unclosed.tail {c : Char} {cs : List Char} (h : Unclosed (c :: cs)) : Unclosed cs := by
  intro before after hcs
  exact h (c :: before) after (by rw [hcs]; rfl)

theorem Unclosed.of_not_mem {cs : List Char} (h : '\x7d' ∉ cs) : Unclosed cs := by
  intro before after hcs hclosed
  apply h
  simp [hcs, hclosed]

theorem Unclosed.cons {c : Char} {cs : List Char} (h : Unclosed cs)
    (hopening : ¬ opening <+: c :: cs) : Unclosed (c :: cs) := by
  intro before after hcs
  cases before with
  | nil => exact absurd ⟨after, hcs.symm⟩ hopening
  | cons d before =>
      rw [List.cons_append, List.cons.injEq] at hcs
      exact h before after hcs.2

/-- A text without a complete reference is written as it stands. -/
theorem expandChars_of_unclosed {cs : List Char} (h : Unclosed cs) :
    e.expandChars [] cs = cs := by
  induction cs with
  | nil => rw [expandChars, List.reverse_nil]
  | cons c cs ih =>
      by_cases hopening : opening <+: c :: cs
      · obtain ⟨after, hafter⟩ := hopening
        have hclosed : '\x7d' ∉ after := h [] after hafter.symm
        rw [← hafter, expandChars_unclosed hclosed]
        cases hafter
        exact congrArg (List.cons '$') (ih h.tail)
      · rw [expandChars_cons hopening, ih h.tail]

theorem unclosed_or_reference (cs : List Char) :
    Unclosed cs ∨ ∃ before name after, ¬ opening <:+: before ∧ '\x7d' ∉ name ∧
      cs = before ++ (opening ++ (name ++ '\x7d' :: after)) := by
  induction cs with
  | nil => exact .inl (.of_not_mem List.not_mem_nil)
  | cons c cs ih =>
      by_cases hopening : opening <+: c :: cs
      · by_cases hclosed : '\x7d' ∈ c :: cs
        · obtain ⟨behind, hbehind⟩ := hopening
          have hmem : '\x7d' ∈ behind := by
            rw [← hbehind] at hclosed
            simpa [opening] using hclosed
          obtain ⟨name, after, hname, hfirst⟩ := List.eq_append_cons_of_mem hmem
          refine .inr ⟨[], name, after, by simp [opening], hfirst, ?_⟩
          rw [← hbehind, hname, List.nil_append]
        · exact .inl (.of_not_mem hclosed)
      · obtain hunclosed | ⟨before, name, after, hbefore, hname, hcs⟩ := ih
        · exact .inl (hunclosed.cons hopening)
        · refine .inr ⟨c :: before, name, after, ?_, hname, by rw [hcs, List.cons_append]⟩
          rw [List.infix_cons_iff, not_or]
          refine ⟨fun hprefix => hopening ?_, hbefore⟩
          rw [hcs, ← List.cons_append]
          exact hprefix.trans (List.prefix_append _ _)

/-! ## One pass -/

/--
The rules of replacing references by values: a text without a complete reference is left
alone, and otherwise the first complete reference gives way to its value, with nothing changed
in front of it and the rules applied again behind it only.
-/
structure Substitutes (value f : String → String) : Prop where
  unchanged : ∀ s, Unclosed s.toList → f s = s
  reference : ∀ before name after, ¬ opening <:+: before.toList → '\x7d' ∉ name.toList →
    f (before ++ "$\x7b" ++ name ++ "\x7d" ++ after) = before ++ value name ++ f after

theorem substitutes_expand (e : Environment) : Substitutes e.value e.expand where
  unchanged := by
    intro s hs
    rw [expand, expandChars_of_unclosed hs, String.ofList_toList]
  reference := by
    intro before name after hbefore hname
    have htext : (before ++ "$\x7b" ++ name ++ "\x7d" ++ after).toList =
        before.toList ++ (opening ++ (name.toList ++ '\x7d' :: after.toList)) := by
      simp [opening]
    rw [expand, htext, expandChars_append hbefore, expandChars_reference hname, expand,
      ← String.toList_inj]
    simp

/-- The rules leave no choice. -/
theorem Substitutes.unique {value f g : String → String} (hf : Substitutes value f)
    (hg : Substitutes value g) (s : String) : f s = g s := by
  induction hlength : s.length using Nat.strongRecOn generalizing s with
  | ind n ih =>
      obtain hunclosed | ⟨before, name, after, hbefore, hname, hs⟩ :=
        unclosed_or_reference s.toList
      · rw [hf.unchanged s hunclosed, hg.unchanged s hunclosed]
      · have htext : s = String.ofList before ++ "$\x7b" ++ String.ofList name ++ "\x7d" ++
            String.ofList after := by
          rw [← String.toList_inj, hs]
          simp [opening]
        have hshorter : (String.ofList after).length < n := by
          have hlengths := congrArg List.length hs
          simp only [String.length_toList, List.length_append, List.length_cons] at hlengths
          rw [String.length_ofList]
          omega
        have hbehind := ih _ hshorter (String.ofList after) rfl
        rw [htext, hf.reference _ _ _ (by simpa using hbefore) (by simpa using hname),
          hg.reference _ _ _ (by simpa using hbefore) (by simpa using hname), hbehind]

/--
What a reference to a variable stands for: the value of the variable, or nothing when there is
none that is text.
-/
inductive StandsFor (e : Environment) (name : String) : String → Prop
  | text {s : String} : e.Holds name (Text.Utf8.encode s) → StandsFor e name s
  | nothing : (∀ s, ¬ e.Holds name (Text.Utf8.encode s)) → StandsFor e name ""

theorem standsFor_iff {name s : String} : e.StandsFor name s ↔ s = e.value name := by
  constructor
  · intro h
    cases h with
    | text h => exact (value_of_holds h).symm
    | nothing h => exact (value_eq_empty h).symm
  · rintro rfl
    by_cases h : ∃ s, e.Holds name (Text.Utf8.encode s)
    · obtain ⟨s, hs⟩ := h
      rw [value_of_holds hs]
      exact .text hs
    · rw [not_exists] at h
      rw [value_eq_empty h]
      exact .nothing h

/--
Replacing the references of a text by what they stand for is one pass from left to right, and
the only function of texts that is.
-/
theorem expand_unique (e : Environment) :
    (∀ name s, e.StandsFor name s ↔ s = e.value name) ∧
    ∀ f, Substitutes e.value f ↔ f = e.expand := by
  refine ⟨fun name s => standsFor_iff, fun f => ⟨fun hf => ?_, ?_⟩⟩
  · exact funext fun s => hf.unique (substitutes_expand e) s
  · rintro rfl
    exact substitutes_expand e

/-- A value that looks like a reference stays, and so does an opening that is never closed. -/
theorem expand_unique_nested :
    let e : Environment := .ofVariables [("A", "$\x7bB\x7d"), ("B", "b")]
    e.expand "$$\x7bA\x7d$\x7b\x7d$\x7bB" = "$$\x7bB\x7d$\x7bB" := by
  intro e
  have hrules : Substitutes e.value e.expand := ((expand_unique e).2 e.expand).mpr rfl
  have hvalue : "$\x7bB\x7d" = e.value "A" :=
    ((expand_unique e).1 "A" _).mp (.text ⟨by decide, [], _, rfl, nofun⟩)
  have hnameless : "" = e.value "" :=
    ((expand_unique e).1 "" _).mp (.nothing fun s hs => hs.named rfl)
  have hend : e.expand "$\x7bB" = "$\x7bB" := hrules.unchanged _ (.of_not_mem (by decide))
  have hbehind := hrules.reference "" "" "$\x7bB" (by decide) (by decide)
  have hfirst := hrules.reference "$" "A" "$\x7b\x7d$\x7bB" (by decide) (by decide)
  rw [← hnameless, hend] at hbehind
  rw [← hvalue] at hfirst
  exact hfirst.trans (congrArg ("$" ++ "$\x7bB\x7d" ++ ·) hbehind)

end Environment

end Marginalia
