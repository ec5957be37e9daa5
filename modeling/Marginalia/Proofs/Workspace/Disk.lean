import Marginalia.Workspace.Disk

/-!
# Paths that lead where they say

A path of which no step is a dot or a link leads to the place that its steps name, and a text
that was written to a file there is read again.  A path that is put together leads where its
second half leads from the place of the first one.
-/

namespace Marginalia

theorem Tree.at?_append (t : Tree) (names more : List String) :
    t.at? (names ++ more) = (t.at? names).bind (·.at? more) := by
  induction names generalizing t with
  | nil => rfl
  | cons name names ih =>
      cases t with
      | directory entries =>
          rw [List.cons_append, at?, at?]
          cases child? entries name with
          | none => rfl
          | some inner => exact ih inner
      | _ => rfl

theorem Tree.exists_directory_of_at? {t u : Tree} {name : String} {names : List String}
    (h : t.at? (name :: names) = some u) :
    ∃ entries inner, t = directory entries ∧ child? entries name = some inner ∧
      inner.at? names = some u := by
  cases t with
  | directory entries =>
      rw [at?] at h
      cases hchild : child? entries name with
      | none =>
          rw [hchild] at h
          cases h
      | some inner =>
          rw [hchild] at h
          exact ⟨entries, inner, rfl, hchild, h⟩
  | _ => cases h

namespace Disk

structure IsName (name : String) : Prop where
  ne_empty : name ≠ ""
  no_slash : '/' ∉ name.toList
  no_null : '\x00' ∉ name.toList
  not_here : name ≠ "."
  not_above : name ≠ ".."
  size_le : name.utf8ByteSize ≤ maxNameBytes

instance (name : String) : Decidable (IsName name) :=
  decidable_of_iff
    (name ≠ "" ∧ '/' ∉ name.toList ∧ '\x00' ∉ name.toList ∧ name ≠ "." ∧ name ≠ ".." ∧
      name.utf8ByteSize ≤ maxNameBytes)
    ⟨fun ⟨h₁, h₂, h₃, h₄, h₅, h₆⟩ => ⟨h₁, h₂, h₃, h₄, h₅, h₆⟩,
      fun ⟨h₁, h₂, h₃, h₄, h₅, h₆⟩ => ⟨h₁, h₂, h₃, h₄, h₅, h₆⟩⟩

/-- Whether steps lead on from a place as they are written: none is a dot or a link. -/
def leads (root : Tree) (place : List String) : List String → Bool
  | [] => true
  | step :: steps =>
      match root.at? place with
      | some (.directory entries) =>
          step != "." && step != ".." && step.utf8ByteSize ≤ maxNameBytes &&
            (match Tree.child? entries step with
              | some (.link _) => false
              | some _ => leads root (place ++ [step]) steps
              | none => false)
      | _ => false

theorem follow_of_leads {root : Tree} {place steps : List String}
    (h : leads root place steps = true) (mayMiss : Bool) (links : Nat) :
    follow root mayMiss links place steps = .ok (place ++ steps) := by
  induction steps generalizing place with
  | nil => rw [follow, List.append_nil]
  | cons step steps ih =>
      rw [leads] at h
      split at h
      · next entries hplace =>
          simp only [Bool.and_eq_true, bne_iff_ne, decide_eq_true_eq] at h
          obtain ⟨⟨⟨hdot, habove⟩, hlength⟩, hchild⟩ := h
          rw [follow, hplace]
          dsimp only
          rw [if_neg hdot, if_neg habove, if_neg (Nat.not_lt.mpr hlength)]
          split at hchild
          · cases hchild
          · next t hlink hfound =>
              rw [hfound]
              cases t with
              | link target => exact absurd rfl (hlink target)
              | _ =>
                  rw [ih hchild, List.append_assoc]
                  rfl
          · cases hchild
      · cases h

theorem leads_of_file {root : Tree} {place names : List String} {bytes : ByteArray}
    (hnames : ∀ name ∈ names, IsName name)
    (hfile : root.at? (place ++ names) = some (.file bytes)) :
    leads root place names = true := by
  induction names generalizing place with
  | nil => rfl
  | cons name names ih =>
      have hname := hnames name List.mem_cons_self
      have hinside : ∃ t, root.at? place = some t ∧ t.at? (name :: names) = some (.file bytes) := by
        rwa [Tree.at?_append, Option.bind_eq_some_iff] at hfile
      obtain ⟨t, hplace, ht⟩ := hinside
      obtain ⟨entries, inner, rfl, hchild, hinner⟩ := Tree.exists_directory_of_at? ht
      rw [List.append_cons] at hfile
      have hrest := ih (fun other hother => hnames other (List.mem_cons_of_mem name hother)) hfile
      simp only [leads, hplace, hchild, hrest]
      cases inner with
      | link target => cases names <;> cases hinner
      | _ => simp [hname.not_here, hname.not_above, hname.size_le]

/--
Steps that come to an end at all come to a place from which the steps behind them go on, with the
links that are left.
-/
theorem exists_follow_append (root : Tree) (links : Nat) (place steps : List String) :
    (∃ fault, ∀ more, follow root false links place (steps ++ more) = .error fault) ∨
    ∃ middle left, ∀ more,
      follow root false links place (steps ++ more) = follow root false left middle more := by
  induction links, place, steps using follow.induct root false with
  | case1 links place => exact .inr ⟨place, links, fun _ => rfl⟩
  | case2 links place steps entries hplace ih =>
      have hstep (more : List String) : follow root false links place ("." :: steps ++ more) =
          follow root false links place (steps ++ more) := by
        rw [List.cons_append, follow, hplace]
        exact if_pos rfl
      simpa only [hstep] using ih
  | case3 links place steps entries hplace hdot ih =>
      have hstep (more : List String) : follow root false links place (".." :: steps ++ more) =
          follow root false links place.dropLast (steps ++ more) := by
        rw [List.cons_append, follow, hplace]
        exact (if_neg hdot).trans (if_pos rfl)
      simpa only [hstep] using ih
  | case4 links place step steps entries hplace hdot habove hlong =>
      refine .inl ⟨.nameTooLong, fun more => ?_⟩
      rw [List.cons_append, follow, hplace]
      simp only [if_neg hdot, if_neg habove, if_pos hlong]
  | case5 links place step steps entries hplace hdot habove hlong hchild hmiss => cases hmiss
  | case6 links place step steps entries hplace hdot habove hlong hchild =>
      refine .inl ⟨.notFound, fun more => ?_⟩
      rw [List.cons_append, follow, hplace]
      simp [if_neg hdot, if_neg habove, if_neg hlong, hchild]
  | case7 place step steps entries hplace hdot habove hlong target hchild =>
      refine .inl ⟨.tooManyLinks, fun more => ?_⟩
      rw [List.cons_append, follow, hplace]
      simp only [if_neg hdot, if_neg habove, if_neg hlong, hchild]
  | case8 place step steps entries hplace hdot habove hlong target hchild links start ih =>
      have hstep (more : List String) :
          follow root false (links + 1) place (step :: steps ++ more) =
            follow root false links start (stepsOf target ++ steps ++ more) := by
        rw [List.cons_append, follow, hplace, List.append_assoc]
        simp only [if_neg hdot, if_neg habove, if_neg hlong, hchild]
        rfl
      simpa only [hstep] using ih
  | case9 links place step steps entries hplace hdot habove hlong t hlink hchild ih =>
      have hstep (more : List String) : follow root false links place (step :: steps ++ more) =
          follow root false links (place ++ [step]) (steps ++ more) := by
        rw [List.cons_append, follow, hplace]
        simp only [if_neg hdot, if_neg habove, if_neg hlong, hchild]
      simpa only [hstep] using ih
  | case10 links place step steps hplace =>
      refine .inl ⟨.notADirectory, fun more => ?_⟩
      rw [List.cons_append, follow]
      split
      · next entries hdirectory => exact absurd hdirectory (hplace entries)
      · rfl

/-- Behind the steps to a place the others go on from there, with the links that are left. -/
theorem exists_follow_append_eq {root : Tree} {links : Nat} {place middle steps : List String}
    (h : follow root false links place steps = .ok middle) :
    ∃ left, ∀ more,
      follow root false links place (steps ++ more) = follow root false left middle more := by
  obtain ⟨fault, hfault⟩ | ⟨middle', left, hmore⟩ := exists_follow_append root links place steps
  · have hnone := hfault []
    rw [List.append_nil, h] at hnone
    cases hnone
  · have hnone := hmore []
    rw [List.append_nil, h, follow] at hnone
    cases hnone
    exact ⟨left, hmore⟩

theorem follow_of_append_here {root : Tree} {links : Nat} {place middle steps : List String}
    (h : follow root false links place (steps ++ ["."]) = .ok middle) :
    follow root false links place steps = .ok middle := by
  obtain ⟨fault, hfault⟩ | ⟨middle', left, hmore⟩ := exists_follow_append root links place steps
  · rw [hfault] at h
    cases h
  · have hnone := hmore []
    rw [List.append_nil] at hnone
    rw [hmore, follow] at h
    rw [hnone, follow]
    split at h
    · rwa [if_pos rfl, follow] at h
    · cases h

section

variable {d : Disk} {path text : String} {start steps : List String}

theorem locate_of_leads
    (hpath : ¬path.toList.contains '\x00' = true ∧ path ≠ "" ∧ path.utf8ByteSize ≤ maxPathBytes)
    (hstart : d.startOf path = start) (hsteps : stepsOf path = steps)
    (hleads : leads d.root start steps = true) : d.locate path = .ok (start ++ steps) := by
  rw [locate, if_neg hpath.1, if_neg hpath.2.1, if_neg (Nat.not_lt.mpr hpath.2.2), hstart, hsteps,
    follow_of_leads hleads]

/-- A path from the top of a disk leads nowhere if its first name is not there. -/
theorem find_of_missing {entries : List (String × Tree)} {name : String}
    (hpath : ¬path.toList.contains '\x00' = true ∧ path ≠ "" ∧ path.utf8ByteSize ≤ maxPathBytes)
    (hroot : d.root = .directory entries) (hstart : d.startOf path = [])
    (hsteps : stepsOf path = name :: steps) (hname : IsName name)
    (hchild : Tree.child? entries name = none) : d.find path = .error .notFound := by
  have hmissing : follow d.root false maxLinks [] (name :: steps) = .error .notFound := by
    rw [follow, hroot]
    simp [Tree.at?, hname.not_here, hname.not_above, Nat.not_lt.mpr hname.size_le, hchild]
  rw [find, locate, if_neg hpath.1, if_neg hpath.2.1, if_neg (Nat.not_lt.mpr hpath.2.2), hstart,
    hsteps, hmissing]

/-- The text of a file is the one that its bytes spell. -/
theorem readText_eq_ok_iff {bytes : ByteArray} (hfind : d.find path = .ok (.file bytes)) :
    d.readText path = .ok text ↔ bytes = text.toUTF8 := by
  have hdecoded : String.fromUTF8? bytes = some text ↔ bytes = text.toUTF8 := by
    constructor
    · intro h
      unfold String.fromUTF8? at h
      split at h
      · cases h
        rfl
      · cases h
    · rintro rfl
      exact dif_pos text.isValidUTF8
  rw [readText, readBytes, hfind, ← hdecoded]
  dsimp only
  cases String.fromUTF8? bytes with
  | none => simp
  | some found => simp

theorem readText_of_locate {place : List String} (hlocate : d.locate path = .ok place)
    (hfile : d.root.at? place = some (.file text.toUTF8)) : d.readText path = .ok text := by
  have hfind : d.find path = .ok (.file text.toUTF8) := by
    simp only [find, hlocate, hfile]
  exact (readText_eq_ok_iff hfind).mpr rfl

end

end Disk

end Marginalia
