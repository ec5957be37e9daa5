import Marginalia.FileContext
import Marginalia.Proofs.Json.Expected

/-!
# Where a reply lists paths

A reply is searched for the first opening brace at which an object stands that lists paths: one
of its members is named `paths` and holds a list of strings, and the other members may be
anything.  What stands around the object does not matter.
-/

namespace Marginalia

namespace FileChoice

open Json

/-- What stands behind the name and the colon of a member, with the paths if it lists them. -/
inductive PathMember : String → List Char → Option (List String) → List Char → Prop where
  | paths {text inner rest : List Char} {paths : List String}
      (bracket : skipSpace text = '[' :: inner)
      (items : Items Quotes true inner paths rest) :
      PathMember "paths" text (some paths) rest
  | other {name : String} {text rest : List Char} {v : Json} (hname : name ≠ "paths")
      (value : Skims text v rest) : PathMember name text none rest

/-- An object at the front of a text, with just one member that lists paths. -/
inductive ListsPaths : List Char → List String → Prop where
  | intro {inner rest : List Char} {ms : List (String × Option (List String))}
      {paths : List String} (members : Members Body PathMember true inner ms rest)
      (one : ms.filterMap (·.2) = [paths]) : ListsPaths ('\x7b' :: inner) paths

def pathsField (fuel : Nat) : Expect.Field (Option (List String)) :=
  { key := "paths"
    isRead := Option.isSome
    read := fun _ cs => do
      let (paths, rest) ← Expect.list fuel Expect.string cs
      return (some paths, rest) }

/-- Keeps the paths of a member; two members with paths are not allowed. -/
def keepOnce (acc : Option (List String)) :
    String × Option (List String) → Option (Option (List String))
  | (_, none) => some acc
  | (_, some paths) => if acc.isSome then none else some (some paths)

theorem foldlM_keepOnce_some {members : List (String × Option (List String))}
    {paths result : List String} :
    members.foldlM keepOnce (some paths) = some (some result) ↔
      members.filterMap (·.2) = [] ∧ paths = result := by
  induction members with
  | nil => simp
  | cons m members ih =>
      obtain ⟨name, _ | found⟩ := m
      · simp [keepOnce, ih]
      · simp [keepOnce]

theorem foldlM_keepOnce_none {members : List (String × Option (List String))}
    {result : List String} :
    members.foldlM keepOnce none = some (some result) ↔ members.filterMap (·.2) = [result] := by
  induction members with
  | nil => simp
  | cons m members ih =>
      obtain ⟨name, _ | found⟩ := m
      · simp [keepOnce, ih]
      · simp [keepOnce, foldlM_keepOnce_some, and_comm]

section

variable {fuel : Nat}

theorem pathsField_read_iff {acc acc' : Option (List String)} {text rest : List Char}
    (hfuel : text.length ≤ fuel) :
    (pathsField fuel).read acc text = .ok (acc', rest) ↔
      ∃ paths, acc' = some paths ∧ PathMember "paths" text (some paths) rest := by
  have hlist := @Expect.list_eq_ok_iff String fuel fuel _ _ (Expect.string_realizes fuel) text rest
  simp only [pathsField]
  rw [bind_eq_ok_iff]
  constructor
  · rintro ⟨⟨paths, after⟩, hread, hpure⟩
    cases hpure
    obtain ⟨inner, bracket, items⟩ := (hlist hfuel hfuel).mp hread
    exact ⟨paths, rfl, .paths bracket items⟩
  · rintro ⟨paths, rfl, hmember⟩
    cases hmember with
    | paths bracket items => exact ⟨(paths, rest), (hlist hfuel hfuel).mpr ⟨_, bracket, items⟩, rfl⟩

theorem skipped_eq_ok_iff {text rest : List Char} (hfuel : text.length ≤ fuel) :
    Expect.skipped fuel text = .ok ((), rest) ↔ ∃ v, Skims text v rest := by
  have hskims : Realizes fuel (value false fuel fuel) Skims :=
    value_realizes_skims (Nat.le_refl _) (Nat.le_refl _)
  rw [Expect.skipped, bind_eq_ok_iff]
  constructor
  · rintro ⟨⟨v, after⟩, hvalue, hpure⟩
    cases hpure
    exact ⟨v, (hskims.iff hfuel).mp hvalue⟩
  · rintro ⟨v, hv⟩
    exact ⟨(v, rest), (hskims.iff hfuel).mpr hv, rfl⟩

theorem member_paths_iff {acc acc' : Option (List String)} {text rest : List Char}
    (hfuel : text.length ≤ fuel) :
    Expect.member fuel [pathsField fuel] acc "paths" text = .ok (acc', rest) ↔
      ∃ next a, skipSpace text = ':' :: next ∧ PathMember "paths" next a rest ∧
        keepOnce acc ("paths", a) = some acc' := by
  have hmember : Expect.member fuel [pathsField fuel] acc "paths" text =
      if acc.isSome then Expect.unsuitable text else keyed ((pathsField fuel).read acc) text := rfl
  rw [hmember]
  cases acc with
  | some before =>
      rw [if_pos (by rfl)]
      refine ⟨nofun, ?_⟩
      rintro ⟨next, a, -, hpaths, hkeep⟩
      cases hpaths with
      | paths _ _ => cases hkeep
      | other hname _ => exact absurd rfl hname
  | none =>
      rw [if_neg (by simp), keyed_eq_ok_iff]
      constructor
      · rintro ⟨next, ahead, hread⟩
        have hlt := length_lt_of_skipSpace_eq ahead
        obtain ⟨paths, rfl, hpaths⟩ := (pathsField_read_iff (by omega)).mp hread
        exact ⟨next, some paths, ahead, hpaths, rfl⟩
      · rintro ⟨next, a, ahead, hpaths, hkeep⟩
        have hlt := length_lt_of_skipSpace_eq ahead
        cases hpaths with
        | @paths _ inner _ paths bracket items =>
            cases hkeep
            have hpaths := PathMember.paths bracket items
            exact ⟨next, ahead, (pathsField_read_iff (by omega)).mpr ⟨paths, rfl, hpaths⟩⟩
        | other hname _ => exact absurd rfl hname

theorem member_other_iff {acc acc' : Option (List String)} {name : String} {text rest : List Char}
    (hname : name ≠ "paths") (hfuel : text.length ≤ fuel) :
    Expect.member fuel [pathsField fuel] acc name text = .ok (acc', rest) ↔
      ∃ next a, skipSpace text = ':' :: next ∧ PathMember name next a rest ∧
        keepOnce acc (name, a) = some acc' := by
  have hfind : [pathsField fuel].find? (fun field => field.key == name) = none := by
    simpa [pathsField] using hname.symm
  rw [Expect.member, hfind, bind_eq_ok_iff]
  constructor
  · rintro ⟨⟨⟨⟩, after⟩, hkeyed, hpure⟩
    cases hpure
    obtain ⟨next, ahead, hskipped⟩ := keyed_eq_ok_iff.mp hkeyed
    have hlt := length_lt_of_skipSpace_eq ahead
    obtain ⟨v, hv⟩ := (skipped_eq_ok_iff (by omega)).mp hskipped
    exact ⟨next, none, ahead, .other hname hv, rfl⟩
  · rintro ⟨next, a, ahead, hother, hkeep⟩
    have hlt := length_lt_of_skipSpace_eq ahead
    cases hother with
    | paths _ _ => exact absurd rfl hname
    | other _ value =>
        cases hkeep
        have hskipped := (skipped_eq_ok_iff (Nat.le_trans (Nat.le_of_lt hlt) hfuel)).mpr ⟨_, value⟩
        exact ⟨((), rest), keyed_eq_ok_iff.mpr ⟨next, ahead, hskipped⟩, rfl⟩

theorem pathsField_collects :
    Collects fuel (Expect.member fuel [pathsField fuel]) PathMember keepOnce := by
  refine ⟨fun {acc acc' name text rest} hbound => ?_, fun hbound hmember => ?_⟩
  · by_cases hname : name = "paths"
    · subst hname
      exact member_paths_iff hbound
    · exact member_other_iff hname hbound
  · cases hmember with
    | paths bracket items =>
        have hlt := length_lt_of_skipSpace_eq bracket
        have hitems := items.length_lt (Expect.string_realizes _) (Nat.le_refl _)
        omega
    | other _ hvalue =>
        have hskims : Realizes fuel (value false fuel fuel) Skims :=
          value_realizes_skims (Nat.le_refl _) (Nat.le_refl _)
        exact Nat.le_of_lt (hskims.length_lt hbound hvalue)

theorem pathList_brace {inner rest : List Char} {paths : List String} :
    pathList fuel ('\x7b' :: inner) = .ok (paths, rest) ↔
      foldMembers true (Expect.member fuel [pathsField fuel]) fuel true none inner =
        .ok (some paths, rest) := by
  have ahead : skipSpace ('\x7b' :: inner) = '\x7b' :: inner :=
    skipSpace_cons_of_not_isSpace (by decide)
  have hfield : pathList fuel = Expect.record fuel [pathsField fuel] none id := rfl
  simp only [hfield, Expect.record, ahead, bind_eq_ok_iff]
  constructor
  · rintro ⟨⟨_ | found, after⟩, hfold, hcomplete⟩
    · cases hcomplete
    · cases hcomplete
      exact hfold
  · intro hfold
    exact ⟨_, hfold, rfl⟩

/-- At an opening brace the reader takes just the objects that list paths. -/
theorem pathList_eq_ok_iff {inner : List Char} (hfuel : inner.length < fuel)
    {paths : List String} :
    (∃ rest, pathList fuel ('\x7b' :: inner) = .ok (paths, rest)) ↔
      ListsPaths ('\x7b' :: inner) paths := by
  have hmembers {rest : List Char} :
      foldMembers true (Expect.member fuel [pathsField fuel]) fuel true none inner =
          .ok (some paths, rest) ↔
        ∃ ms, ms.foldlM keepOnce none = some (some paths) ∧
          Members Body PathMember true inner ms rest :=
    pathsField_collects.foldMembers_eq_ok_iff Body.spelling (Nat.le_of_lt hfuel) hfuel
  constructor
  · rintro ⟨rest, hread⟩
    obtain ⟨ms, hkeep, hderived⟩ := hmembers.mp (pathList_brace.mp hread)
    exact .intro hderived (foldlM_keepOnce_none.mp hkeep)
  · rintro ⟨hderived, hone⟩
    have hfold := hmembers.mpr ⟨_, foldlM_keepOnce_none.mpr hone, hderived⟩
    exact ⟨_, pathList_brace.mpr hfold⟩

end

/-! ## Searching a reply -/

theorem ListsPaths.exists_brace {text : List Char} {paths : List String}
    (h : ListsPaths text paths) : ∃ inner, text = '\x7b' :: inner := by
  cases h with
  | intro _ _ => exact ⟨_, rfl⟩

theorem ListsPaths.unique {text : List Char} {paths paths' : List String}
    (h : ListsPaths text paths) (h' : ListsPaths text paths') : paths = paths' := by
  obtain ⟨inner, rfl⟩ := h.exists_brace
  obtain ⟨rest, hread⟩ := (pathList_eq_ok_iff (Nat.lt_succ_self _)).mpr h
  obtain ⟨rest', hread'⟩ := (pathList_eq_ok_iff (Nat.lt_succ_self _)).mpr h'
  rw [hread] at hread'
  cases hread'
  rfl

/-- Whether paths are those listed at the first place of a text where paths are listed. -/
def ListsFirst (text : List Char) (paths : List String) : Prop :=
  ∃ before after, text = before ++ after ∧ ListsPaths after paths ∧
    ∀ before' after', text = before' ++ after' → before'.length < before.length →
      ∀ paths', ¬ ListsPaths after' paths'

theorem listsFirst_cons {c : Char} {text : List Char}
    (hnone : ∀ paths, ¬ ListsPaths (c :: text) paths) {paths : List String} :
    ListsFirst (c :: text) paths ↔ ListsFirst text paths := by
  constructor
  · rintro ⟨before, after, hsplit, hlists, hfirst⟩
    cases before with
    | nil =>
        rw [List.nil_append] at hsplit
        exact absurd (hsplit ▸ hlists) (hnone paths)
    | cons d before =>
        obtain ⟨rfl, rfl⟩ := List.cons.inj hsplit
        refine ⟨before, after, rfl, hlists, fun before' after' hsplit' hlt => ?_⟩
        have hlt' : (c :: before').length < (c :: before).length := by
          simpa using hlt
        exact hfirst (c :: before') after' (by rw [hsplit', List.cons_append]) hlt'
  · rintro ⟨before, after, rfl, hlists, hfirst⟩
    refine ⟨c :: before, after, rfl, hlists, fun before' after' hsplit' hlt => ?_⟩
    cases before' with
    | nil =>
        rw [List.nil_append] at hsplit'
        exact hsplit' ▸ hnone
    | cons d before' =>
        obtain ⟨-, hsplit'⟩ := List.cons.inj hsplit'
        exact hfirst before' after' hsplit' (by simpa using hlt)

theorem listsFirst_of_listsPaths {text : List Char} {paths : List String}
    (h : ListsPaths text paths) : ListsFirst text paths :=
  ⟨[], text, rfl, h, fun _ _ _ hlt => absurd hlt (Nat.not_lt_zero _)⟩

theorem ListsFirst.eq_of_listsPaths {text : List Char} {paths paths' : List String}
    (h : ListsFirst text paths) (h' : ListsPaths text paths') : paths = paths' := by
  obtain ⟨before, after, hsplit, hlists, hfirst⟩ := h
  cases before with
  | nil =>
      rw [List.nil_append] at hsplit
      exact (hsplit ▸ hlists).unique h'
  | cons c before => exact absurd h' (hfirst [] text rfl (Nat.succ_pos _) paths')

theorem firstPathList?_eq_some_iff {fuel : Nat} {text : List Char} (hfuel : text.length ≤ fuel)
    {paths : List String} :
    firstPathList? fuel text = some paths ↔ ListsFirst text paths := by
  induction text with
  | nil =>
      refine ⟨nofun, ?_⟩
      rintro ⟨before, after, hsplit, hlists, -⟩
      obtain ⟨inner, rfl⟩ := hlists.exists_brace
      simp at hsplit
  | cons c text ih =>
      rw [List.length_cons] at hfuel
      rw [firstPathList?]
      by_cases hc : c = '\x7b'
      · subst hc
        have hread (paths : List String) := @pathList_eq_ok_iff fuel text hfuel paths
        rw [if_pos rfl]
        split
        · next found rest hfound =>
            have hlists := (hread found).mp ⟨rest, hfound⟩
            rw [Option.some.injEq]
            constructor
            · rintro rfl
              exact listsFirst_of_listsPaths hlists
            · intro hfirst
              exact (hfirst.eq_of_listsPaths hlists).symm
        · next fault hfault =>
            rw [ih (by omega)]
            refine (listsFirst_cons fun paths hlists => ?_).symm
            obtain ⟨rest, hok⟩ := (hread paths).mpr hlists
            rw [hfault] at hok
            cases hok
      · rw [if_neg hc, ih (by omega)]
        refine (listsFirst_cons fun paths hlists => ?_).symm
        obtain ⟨inner, hbrace⟩ := hlists.exists_brace
        exact hc (List.cons.inj hbrace).1

end FileChoice

end Marginalia
