import Mathlib.Data.List.Basic
import Marginalia.Text.Parts

/-!
# Parts of texts that are put together

Cutting a text at a character can be done on either side of any cut, and the parts are the
pieces that reach from one cut, or the beginning, to the next one, or the end.
-/

namespace Marginalia

namespace Text

variable {sep : Char}

theorem partsAt_cons_sep (cs : List Char) : partsAt sep (sep :: cs) = [] :: partsAt sep cs := by
  simp [partsAt]

theorem partsAt_cons_of_ne {c : Char} (h : c ≠ sep) (cs : List Char) :
    ∃ part parts, partsAt sep cs = part :: parts ∧
      partsAt sep (c :: cs) = (c :: part) :: parts := by
  cases hparts : partsAt sep cs with
  | nil => exact absurd hparts (partsAt_ne_nil sep cs)
  | cons part parts =>
      refine ⟨part, parts, rfl, ?_⟩
      simp only [partsAt, List.foldr_cons, if_neg h] at hparts ⊢
      rw [hparts]

theorem partsAt_of_not_mem {part : List Char} (h : sep ∉ part) : partsAt sep part = [part] := by
  induction part with
  | nil => rfl
  | cons c part ih =>
      rw [List.mem_cons, not_or] at h
      obtain ⟨first, parts, hpart, hcons⟩ := partsAt_cons_of_ne (Ne.symm h.1) part
      rw [ih h.2] at hpart
      cases hpart
      exact hcons

theorem partsAt_append_sep (cs rest : List Char) :
    partsAt sep (cs ++ sep :: rest) = partsAt sep cs ++ partsAt sep rest := by
  induction cs with
  | nil => exact partsAt_cons_sep rest
  | cons c cs ih =>
      by_cases hc : c = sep
      · rw [hc, List.cons_append, partsAt_cons_sep, partsAt_cons_sep, ih, List.cons_append]
      · obtain ⟨part, parts, hcs, hcons⟩ := partsAt_cons_of_ne hc cs
        obtain ⟨part', parts', hcs', hcons'⟩ := partsAt_cons_of_ne hc (cs ++ sep :: rest)
        rw [ih, hcs] at hcs'
        cases hcs'
        rw [List.cons_append, hcons', hcons]
        rfl

theorem partsAt_append {part : List Char} (h : sep ∉ part) (rest : List Char) :
    partsAt sep (part ++ sep :: rest) = part :: partsAt sep rest := by
  rw [partsAt_append_sep, partsAt_of_not_mem h, List.singleton_append]

theorem partsAt_flatMap_append {parts : List (List Char)} (h : ∀ part ∈ parts, sep ∉ part)
    {last : List Char} (hlast : sep ∉ last) :
    partsAt sep (parts.flatMap (· ++ [sep]) ++ last) = parts ++ [last] := by
  induction parts with
  | nil => exact partsAt_of_not_mem hlast
  | cons part parts ih =>
      have hrest := ih fun p hp => h p (List.mem_cons_of_mem part hp)
      rw [List.flatMap_cons, List.append_assoc, List.append_assoc, List.singleton_append,
        partsAt_append (h part List.mem_cons_self), hrest, List.cons_append]

theorem partsAt_flatMap {parts : List (List Char)} (h : ∀ part ∈ parts, sep ∉ part) :
    partsAt sep (parts.flatMap (· ++ [sep])) = parts ++ [[]] := by
  have hlast : sep ∉ [] := List.not_mem_nil
  have hparts := partsAt_flatMap_append h hlast
  rwa [List.append_nil] at hparts

theorem ne_and_mem_of_mem_partsAt {cs part : List Char} (h : part ∈ partsAt sep cs) {c : Char}
    (hc : c ∈ part) : c ≠ sep ∧ c ∈ cs := by
  induction cs generalizing part with
  | nil =>
      rw [partsAt_of_not_mem List.not_mem_nil, List.mem_singleton] at h
      exact absurd (h ▸ hc) List.not_mem_nil
  | cons d cs ih =>
      by_cases hd : d = sep
      · rw [hd, partsAt_cons_sep, List.mem_cons] at h
        rcases h with rfl | hmem
        · exact absurd hc List.not_mem_nil
        · exact (ih hmem hc).imp_right (List.mem_cons_of_mem d)
      · obtain ⟨first, parts, hparts, hcons⟩ := partsAt_cons_of_ne hd cs
        rw [hparts] at ih
        rw [hcons, List.mem_cons] at h
        rcases h with rfl | hmem
        · rcases List.mem_cons.mp hc with rfl | hfirst
          · exact ⟨hd, List.mem_cons_self⟩
          · exact (ih List.mem_cons_self hfirst).imp_right (List.mem_cons_of_mem d)
        · exact (ih (List.mem_cons_of_mem first hmem) hc).imp_right (List.mem_cons_of_mem d)

theorem joinWith_append (before : List (List Char)) (part : List Char) (after : List (List Char)) :
    joinWith sep (before ++ part :: after) =
      before.flatMap (· ++ [sep]) ++ (part ++ after.flatMap (sep :: ·)) := by
  induction before with
  | nil =>
      induction after generalizing part with
      | nil => simp [joinWith]
      | cons next after ih => simpa [joinWith] using ih next
  | cons first before ih =>
      have hstep : joinWith sep (first :: (before ++ part :: after)) =
          first ++ sep :: joinWith sep (before ++ part :: after) := by
        cases before <;> rfl
      rw [List.cons_append, hstep, ih, List.flatMap_cons, List.append_assoc, List.append_assoc]
      rfl

theorem joinWith_eq_intercalate (parts : List (List Char)) :
    joinWith sep parts = [sep].intercalate parts := by
  induction parts with
  | nil => rfl
  | cons part parts ih =>
      cases parts with
      | nil => simp [joinWith]
      | cons next parts => simp [joinWith, ih, List.intercalate_cons_cons]

theorem mem_joinWith {c : Char} {parts : List (List Char)} (h : c ∈ joinWith sep parts) :
    c = sep ∨ ∃ part ∈ parts, c ∈ part := by
  induction parts with
  | nil => cases h
  | cons part parts ih =>
      cases parts with
      | nil => exact .inr ⟨part, List.mem_singleton_self part, h⟩
      | cons next parts =>
          rw [joinWith, List.mem_append, List.mem_cons] at h
          · rcases h with hpart | rfl | hrest
            · exact .inr ⟨part, List.mem_cons_self, hpart⟩
            · exact .inl rfl
            · obtain rfl | ⟨other, hother, hc⟩ := ih hrest
              · exact .inl rfl
              · exact .inr ⟨other, List.mem_cons_of_mem part hother, hc⟩
          · exact List.cons_ne_nil _ _

theorem head?_joinWith {c : Char} {part : List Char} {parts : List (List Char)}
    (h : (joinWith sep (part :: parts)).head? = some c) : c = sep ∨ part.head? = some c := by
  cases parts with
  | nil => exact .inr h
  | cons next parts =>
      rw [joinWith] at h
      · cases part with
        | nil => exact .inl (Option.some.inj h).symm
        | cons d part => exact .inr h
      · exact List.cons_ne_nil _ _

/-- Parts that have no cut in them are the parts of the text that they make. -/
theorem partsAt_joinWith {parts : List (List Char)} (hne : parts ≠ [])
    (h : ∀ part ∈ parts, sep ∉ part) : partsAt sep (joinWith sep parts) = parts := by
  induction parts with
  | nil => exact absurd rfl hne
  | cons part parts ih =>
      have hpart := h part List.mem_cons_self
      cases parts with
      | nil => exact partsAt_of_not_mem hpart
      | cons next parts =>
          have hrest := ih (List.cons_ne_nil _ _) fun p hp => h p (List.mem_cons_of_mem part hp)
          rw [joinWith, partsAt_append hpart, hrest]
          exact List.cons_ne_nil _ _

/-- Whether a piece of a text reaches, on either side, a cut or the end of the text. -/
def Between (sep : Char) (piece cs : List Char) : Prop :=
  ∃ before after, cs = before ++ piece ++ after ∧
    (before = [] ∨ before.getLast? = some sep) ∧ (after = [] ∨ after.head? = some sep)

theorem mem_partsAt_iff {part : List Char} (h : sep ∉ part) (cs : List Char) :
    part ∈ partsAt sep cs ↔ Between sep part cs := by
  constructor
  · intro hmem
    obtain ⟨before, after, hparts⟩ := List.append_of_mem hmem
    refine ⟨before.flatMap (· ++ [sep]), after.flatMap (sep :: ·), ?_, ?_, ?_⟩
    · rw [← joinWith_partsAt sep cs, hparts, joinWith_append, List.append_assoc]
    · rcases List.eq_nil_or_concat before with rfl | ⟨before', last, rfl⟩
      · exact .inl rfl
      · right
        simp [List.getLast?_append]
    · cases after with
      | nil => exact .inl rfl
      | cons next after => exact .inr rfl
  · rintro ⟨before, after, rfl, hbefore, hafter⟩
    have hhead : part ∈ partsAt sep (part ++ after) := by
      rcases hafter with rfl | hafter
      · rw [List.append_nil, partsAt_of_not_mem h]
        exact List.mem_singleton_self part
      · obtain ⟨rest, rfl⟩ := List.head?_eq_some_iff.mp hafter
        rw [partsAt_append h]
        exact List.mem_cons_self
    rcases hbefore with rfl | hbefore
    · exact hhead
    · obtain ⟨front, rfl⟩ := List.getLast?_eq_some_iff.mp hbefore
      rw [List.append_assoc, List.append_assoc, List.singleton_append, partsAt_append_sep]
      exact List.mem_append_right _ hhead

end Text

end Marginalia
