import Marginalia.Proofs.FileChoice.PathList

/-!
# Which of the listed paths are chosen

Of the paths that a reply lists first, those that were offered are chosen, each once and in the
order in which they come.  A reply that lists none chooses none.
-/

namespace Marginalia

namespace FileChoice

/-! ## Each once -/

/--
Whether a list holds those items of another one that pass a test, each once, in the order in
which they come first.
-/
structure FirstOccurrences (wanted : String → Prop) (all kept : List String) : Prop where
  mem : ∀ s, s ∈ kept ↔ s ∈ all ∧ wanted s
  order : kept.Pairwise fun s t => all.idxOf s < all.idxOf t

theorem FirstOccurrences.nodup {wanted : String → Prop} {all kept : List String}
    (h : FirstOccurrences wanted all kept) : kept.Nodup :=
  h.order.imp fun hlt => by
    rintro rfl
    exact Nat.lt_irrefl _ hlt

theorem FirstOccurrences.nil (wanted : String → Prop) : FirstOccurrences wanted [] [] :=
  ⟨fun s => by simp, .nil⟩

theorem distinct_cons (seen : List String) (s : String) (all : List String) :
    distinct seen (s :: all) =
      if s ∈ seen then distinct seen all else s :: distinct (s :: seen) all := by
  simp [distinct]

theorem idxOf_cons_ne {s t : String} (h : s ≠ t) (all : List String) :
    (s :: all).idxOf t = all.idxOf t + 1 := by
  rw [List.idxOf_cons, beq_false_of_ne h, cond_false]

theorem mem_distinct {seen all : List String} {s : String} :
    s ∈ distinct seen all ↔ s ∈ all ∧ s ∉ seen := by
  induction all generalizing seen with
  | nil => simp [distinct]
  | cons t all ih =>
      rw [distinct_cons]
      by_cases ht : t ∈ seen
      · rw [if_pos ht, ih, List.mem_cons]
        refine ⟨fun h => ⟨.inr h.1, h.2⟩, fun h => ⟨h.1.resolve_left ?_, h.2⟩⟩
        rintro rfl
        exact h.2 ht
      · rw [if_neg ht, List.mem_cons, List.mem_cons, ih, List.mem_cons]
        by_cases hs : s = t
        · simp [hs, ht]
        · simp [hs]

theorem pairwise_idxOf_cons {s : String} {all kept : List String} (hkept : s ∉ kept)
    (h : kept.Pairwise fun t u => all.idxOf t < all.idxOf u) :
    kept.Pairwise fun t u => (s :: all).idxOf t < (s :: all).idxOf u := by
  refine h.imp_of_mem fun {t u} ht hu hlt => ?_
  have hne {v : String} (hv : v ∈ kept) : s ≠ v := by
    rintro rfl
    exact hkept hv
  rw [idxOf_cons_ne (hne ht), idxOf_cons_ne (hne hu)]
  exact Nat.succ_lt_succ hlt

/-- The first occurrences keep the order of the whole list, also where others are left out. -/
theorem pairwise_distinct_filter (test : String → Bool) (seen all : List String) :
    (distinct seen (all.filter test)).Pairwise fun s t => all.idxOf s < all.idxOf t := by
  induction all generalizing seen with
  | nil => exact .nil
  | cons s all ih =>
      by_cases htest : test s = true
      · rw [List.filter_cons_of_pos htest, distinct_cons]
        by_cases hs : s ∈ seen
        · rw [if_pos hs]
          exact pairwise_idxOf_cons (fun hmem => (mem_distinct.mp hmem).2 hs) (ih seen)
        · have hnot : s ∉ distinct (s :: seen) (all.filter test) := fun hmem =>
            (mem_distinct.mp hmem).2 List.mem_cons_self
          rw [if_neg hs]
          refine .cons (fun t ht => ?_) (pairwise_idxOf_cons hnot (ih (s :: seen)))
          have hne : s ≠ t := by
            rintro rfl
            exact hnot ht
          rw [List.idxOf_cons_self, idxOf_cons_ne hne]
          exact Nat.succ_pos _
      · rw [List.filter_cons_of_neg htest]
        refine pairwise_idxOf_cons (fun hmem => htest ?_) (ih seen)
        exact (List.mem_filter.mp (mem_distinct.mp hmem).1).2

/-! ## The paths of a reply -/

/-- The paths that a text lists at the first place where it lists any, and none without one. -/
inductive Listed (text : List Char) : List String → Prop where
  | first {paths : List String} (first : ListsFirst text paths) : Listed text paths
  | nowhere (none : ∀ before after, text = before ++ after → ∀ paths, ¬ ListsPaths after paths) :
      Listed text []

theorem not_listsPaths_of_firstPathList?_eq_none {fuel : Nat} {text : List Char}
    (hfuel : text.length ≤ fuel) (h : firstPathList? fuel text = none) {before after : List Char}
    (hsplit : text = before ++ after) (paths : List String) : ¬ ListsPaths after paths := by
  intro hlists
  induction before generalizing text with
  | nil =>
      rw [List.nil_append] at hsplit
      have hfirst := listsFirst_of_listsPaths (hsplit ▸ hlists)
      rw [(firstPathList?_eq_some_iff hfuel).mpr hfirst] at h
      cases h
  | cons c before ih =>
      rw [hsplit, List.cons_append] at h hfuel
      rw [List.length_cons] at hfuel
      refine ih (by omega) ?_ rfl
      rw [firstPathList?] at h
      split at h
      · split at h
        · cases h
        · exact h
      · exact h

/-- A choice takes the offered ones among the paths that the reply lists. -/
theorem exists_listed_select (reply : String) (offered : List String) :
    ∃ paths, Listed reply.toList paths ∧
      FirstOccurrences (· ∈ offered) paths (select reply offered) := by
  let fuel := Json.fuelFor reply.toList
  have hfuel : reply.toList.length ≤ fuel := Nat.le_succ _
  have hselect : select reply offered =
      distinct [] (((firstPathList? fuel reply.toList).getD []).filter offered.contains) := rfl
  rw [hselect]
  cases hfound : firstPathList? fuel reply.toList with
  | none =>
      refine ⟨[], .nowhere fun before after hsplit paths => ?_, .nil _⟩
      exact not_listsPaths_of_firstPathList?_eq_none hfuel hfound hsplit paths
  | some paths =>
      have hfirst := (firstPathList?_eq_some_iff hfuel).mp hfound
      refine ⟨paths, .first hfirst, fun s => ?_, pairwise_distinct_filter _ _ _⟩
      rw [mem_distinct, Option.getD_some, List.mem_filter, List.contains_iff_mem]
      simp

end FileChoice

end Marginalia
