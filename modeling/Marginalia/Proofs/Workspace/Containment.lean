import Marginalia.Proofs.Text.Parts
import Marginalia.Workspace

/-!
# What is read lies inside

The normal form of a path is what is left of it when the parts that say nothing are dropped
and each step up takes back the step in front of it; no disk is asked.  A path text that a
workspace does not turn away leads below its root in this sense.
-/

namespace Marginalia

namespace Path

/-! ## Texts that are turned away -/

def Rooted (text : String) : Prop :=
  text.toList.head? = some '/'

instance (text : String) : Decidable (Rooted text) :=
  inferInstanceAs (Decidable (_ = _))

/-- Whether a path text has a step up in it, between slashes or the ends of the text. -/
def GoesUp (text : String) : Prop :=
  Text.Between '/' above text.toList

theorem goesUp_iff (text : String) : GoesUp text ↔ above ∈ Text.partsAt '/' text.toList :=
  (Text.mem_partsAt_iff (by decide) _).symm

theorem ofText_of_rooted {text : String} (h : Rooted text) :
    ∃ parts, Text.partsAt '/' text.toList = [] :: parts ∧ ofText text = ⟨.root, parts⟩ := by
  obtain ⟨rest, hrest⟩ := List.head?_eq_some_iff.mp h
  have hparts : Text.partsAt '/' text.toList = [] :: Text.partsAt '/' rest := by
    rw [hrest, Text.partsAt_cons_sep]
  refine ⟨_, hparts, ?_⟩
  rw [ofText, hparts]
  simp [Text.partsAt_ne_nil]

theorem ofText_of_not_rooted {text : String} (h : ¬ Rooted text) (hempty : text ≠ "") :
    (ofText text).start ≠ .root ∧
      (above ∈ (ofText text).parts ↔ above ∈ Text.partsAt '/' text.toList) := by
  cases htext : text.toList with
  | nil => exact absurd (String.toList_eq_nil_iff.mp htext) hempty
  | cons c cs =>
      have hc : c ≠ '/' := by
        rintro rfl
        exact h (by rw [Rooted, htext]; rfl)
      obtain ⟨part, parts, -, hparts⟩ := Text.partsAt_cons_of_ne hc cs
      rw [ofText, htext, hparts]
      split
      · next heq => cases heq
      · next heq => cases heq
      · next heq =>
          cases heq
          simp [above]
      · simp

theorem isContained_eq_false_iff (text : String) :
    isContained text = false ↔ text = "" ∨ Rooted text ∨ GoesUp text := by
  by_cases hempty : text = ""
  · simp [isContained, hempty]
  · by_cases hrooted : Rooted text
    · obtain ⟨parts, -, htext⟩ := ofText_of_rooted hrooted
      simp [isContained, htext, hrooted]
    · obtain ⟨hstart, habove⟩ := ofText_of_not_rooted hrooted hempty
      simp [isContained, hempty, hrooted, hstart, goesUp_iff, ← habove]

/-! ## Normal forms -/

/--
A path in normal form: whether it begins at the root, how often it goes up from where it
begins, and the names that lead on.  There is nothing above the root.
-/
structure NormalForm where
  rooted : Bool
  ups : Nat
  names : List (List Char)
  grounded : rooted = true → ups = 0
  proper : ∀ name ∈ names, isIdle name = false ∧ name ≠ above

namespace NormalForm

def start (rooted : Bool) : NormalForm where
  rooted := rooted
  ups := 0
  names := []
  grounded := fun _ => rfl
  proper := nofun

def up (p : NormalForm) : NormalForm where
  rooted := p.rooted
  ups := if p.names.isEmpty && !p.rooted then p.ups + 1 else p.ups
  names := p.names.dropLast
  grounded := by
    intro hrooted
    rw [hrooted, Bool.not_true, Bool.and_false]
    exact p.grounded hrooted
  proper := fun name hname => p.proper name (List.dropLast_subset _ hname)

def into (p : NormalForm) (name : List Char) (h : isIdle name = false ∧ name ≠ above) :
    NormalForm where
  rooted := p.rooted
  ups := p.ups
  names := p.names ++ [name]
  grounded := p.grounded
  proper := by
    intro other hother
    rcases List.mem_append.mp hother with hother | hother
    · exact p.proper other hother
    · rw [List.mem_singleton.mp hother]
      exact h

def enter (p : NormalForm) (part : List Char) : NormalForm :=
  if hidle : isIdle part = true then p
  else if habove : part = above then p.up
  else p.into part ⟨Bool.eq_false_iff.mpr hidle, habove⟩

def components (p : NormalForm) : List (List Char) :=
  List.replicate p.ups above ++ p.names

def Below (base p : NormalForm) : Prop :=
  p.rooted = base.rooted ∧ base.components <+: p.components

/-- What the parts of a text lead to, one after the other. -/
def walk (p : NormalForm) (cs : List Char) : NormalForm :=
  (Text.partsAt '/' cs).foldl enter p

theorem rooted_enter (p : NormalForm) (part : List Char) : (p.enter part).rooted = p.rooted := by
  unfold enter
  split
  · rfl
  · split
    · rfl
    · rfl

theorem rooted_walk (p : NormalForm) (cs : List Char) : (p.walk cs).rooted = p.rooted := by
  rw [walk]
  induction Text.partsAt '/' cs generalizing p with
  | nil => rfl
  | cons part parts ih => rw [List.foldl_cons, ih, rooted_enter]

theorem walk_append (p : NormalForm) (cs rest : List Char) :
    p.walk (cs ++ '/' :: rest) = (p.walk cs).walk rest := by
  rw [walk, Text.partsAt_append_sep, List.foldl_append]
  rfl

theorem walk_nil (p : NormalForm) : p.walk [] = p :=
  rfl

theorem components_enter (p : NormalForm) {part : List Char} (h : part ≠ above) :
    p.components <+: (p.enter part).components := by
  unfold enter
  split
  · exact List.prefix_refl _
  · rw [components, components, into, ← List.append_assoc]
    exact List.prefix_append _ _

/-- Without a step up, nothing is taken back. -/
theorem components_walk (p : NormalForm) {cs : List Char} (h : above ∉ Text.partsAt '/' cs) :
    p.components <+: (p.walk cs).components := by
  unfold walk
  revert h
  induction Text.partsAt '/' cs generalizing p with
  | nil => exact fun _ => List.prefix_refl _
  | cons part parts ih =>
      intro h
      rw [List.mem_cons, not_or] at h
      exact (components_enter p (Ne.symm h.1)).trans (ih _ h.2)

end NormalForm

def normalForm (text : String) : NormalForm :=
  (NormalForm.start (decide (Rooted text))).walk text.toList

theorem rooted_normalForm (text : String) : (normalForm text).rooted = decide (Rooted text) :=
  NormalForm.rooted_walk _ _

/-! ## Joined paths -/

theorem startsWith_iff (text : String) : text.startsWith "/" = true ↔ Rooted text := by
  rw [String.startsWith_string_iff, Rooted, List.head?_eq_some_iff]
  exact ⟨fun ⟨rest, hrest⟩ => ⟨rest, hrest.symm⟩, fun ⟨rest, hrest⟩ => ⟨rest, hrest.symm⟩⟩

theorem endsWith_iff (text : String) :
    text.endsWith "/" = true ↔ ∃ front, text.toList = front ++ ['/'] := by
  rw [← String.endsWith_toSlice, String.Slice.endsWith_string_iff, String.copy_toSlice]
  exact ⟨fun ⟨front, hfront⟩ => ⟨front, hfront.symm⟩, fun ⟨front, hfront⟩ => ⟨front, hfront.symm⟩⟩

/-- What a joined path shows of both texts, when the second one is not taken alone. -/
theorem exists_join {root path : String} (hroot : root ≠ "") (hpath : ¬ Rooted path) :
    ∃ front : List Char, (root.toList = front ∨ root.toList = front ++ ['/']) ∧
      (join root path).toList = front ++ '/' :: path.toList := by
  rw [join, if_neg (fun h => hpath ((startsWith_iff path).mp h))]
  by_cases hslash : root.endsWith "/" = true
  · rw [if_pos (.inr hslash)]
    obtain ⟨front, hfront⟩ := (endsWith_iff root).mp hslash
    refine ⟨front, .inr hfront, ?_⟩
    simp [hfront]
  · rw [if_neg (by simp [hroot, hslash])]
    refine ⟨root.toList, .inl rfl, ?_⟩
    simp

theorem rooted_join_iff {root path : String} (hroot : root ≠ "") (hpath : ¬ Rooted path) :
    Rooted (join root path) ↔ Rooted root := by
  obtain ⟨front, hfront, hjoin⟩ := exists_join hroot hpath
  have hne : root.toList ≠ [] := by simpa using hroot
  rw [Rooted, Rooted, hjoin]
  rcases hfront with hfront | hfront
  · rw [hfront] at hne ⊢
    rw [List.head?_append_of_ne_nil _ hne]
  · rw [hfront]
    cases front <;> simp

theorem normalForm_join {root path : String} (hroot : root ≠ "") (hpath : ¬ Rooted path) :
    normalForm (join root path) = (normalForm root).walk path.toList := by
  obtain ⟨front, hfront, hjoin⟩ := exists_join hroot hpath
  have hwalk (p : NormalForm) : p.walk root.toList = p.walk front := by
    rcases hfront with hfront | hfront
    · rw [hfront]
    · -- A slash at the end says nothing.
      rw [hfront, NormalForm.walk_append, NormalForm.walk_nil]
  rw [normalForm, normalForm, decide_eq_decide.mpr (rooted_join_iff hroot hpath), hjoin,
    NormalForm.walk_append, hwalk]

/-- A path that neither begins at the root nor goes up leads below whatever it is joined to. -/
theorem below_join (root : String) {path : String} (hpath : ¬ Rooted path) (hup : ¬ GoesUp path) :
    (normalForm root).Below (normalForm (join root path)) := by
  by_cases hroot : root = ""
  · have hjoin : join root path = path := by
      rw [join, if_neg (fun h => hpath ((startsWith_iff path).mp h)), if_pos (.inl hroot), hroot,
        String.empty_append]
    have hempty : normalForm root = .start false := by rw [hroot]; rfl
    rw [hjoin, hempty, NormalForm.Below, rooted_normalForm]
    exact ⟨decide_eq_false hpath, List.nil_prefix⟩
  · rw [NormalForm.Below, rooted_normalForm, rooted_normalForm,
      decide_eq_decide.mpr (rooted_join_iff hroot hpath), normalForm_join hroot hpath]
    rw [goesUp_iff] at hup
    exact ⟨rfl, NormalForm.components_walk _ hup⟩

end Path

namespace Workspace

theorem readText_of_not_isContained (w : Workspace) (d : Disk) {path : String}
    (h : Path.isContained path = false) : w.readText d path = .error (.outside path) := by
  rw [readText, h]
  rfl

/-- What is read for a contained path is what the disk has where the joined path leads. -/
theorem readText_of_isContained (w : Workspace) (d : Disk) {path : String}
    (h : Path.isContained path = true) :
    w.readText d path ≠ .error (.outside path) ∧
    ∀ text, w.readText d path = .ok text → d.readText (Path.join w.root path) = .ok text := by
  rw [readText, h]
  simp only [Bool.not_true, Bool.false_eq_true, if_false]
  split
  · simp
  · split
    · simp
    · split
      · next text hread => simp [hread]
      · simp
  · simp

/--
A workspace turns a path text away, whatever the disk holds, exactly when the text is empty,
begins at the root or goes up; any other text leads below the root of the workspace, and what
is read for it is read there.
-/
theorem readText_contained (w : Workspace) (path : String) :
    (Path.isContained path = false ↔ path = "" ∨ Path.Rooted path ∨ Path.GoesUp path) ∧
    (Path.isContained path = false →
      ∀ d, w.readText d path = .error (.outside path) ∧
        (WorkspaceFault.outside path).kind = .invalidInput) ∧
    (Path.isContained path = true →
      (Path.normalForm w.root).Below (Path.normalForm (Path.join w.root path)) ∧
      ∀ d, w.readText d path ≠ .error (.outside path) ∧
        ∀ text, w.readText d path = .ok text → d.readText (Path.join w.root path) = .ok text) := by
  refine ⟨Path.isContained_eq_false_iff path, fun h d => ?_, fun h => ⟨?_, fun d => ?_⟩⟩
  · exact ⟨w.readText_of_not_isContained d h, rfl⟩
  · have hinside : ¬ (path = "" ∨ Path.Rooted path ∨ Path.GoesUp path) := by
      rw [← Path.isContained_eq_false_iff, h]
      decide
    rw [not_or, not_or] at hinside
    exact Path.below_join w.root hinside.2.1 hinside.2.2
  · exact w.readText_of_isContained d h

/-- The root of a workspace may itself go up; what goes up from it is not read. -/
theorem readText_contained_sources :
    let w : Workspace := ⟨"/work/../data/"⟩
    (Path.normalForm "/work/../data/").components = [['d', 'a', 't', 'a']] ∧
    (Path.normalForm "/work/../data/").Below
      (Path.normalForm (Path.join "/work/../data/" ".//src/a.rs")) ∧
    ∀ d, w.readText d "src/../../a.rs" = .error (.outside "src/../../a.rs") := by
  intro w
  have hinside := (readText_contained w ".//src/a.rs").2.2 (by decide)
  have houtside := (readText_contained w "src/../../a.rs").2.1 (by decide)
  exact ⟨by decide, hinside.1, fun d => (houtside d).1⟩

end Workspace

end Marginalia
