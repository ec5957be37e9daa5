import Marginalia.Proofs.Workspace.Containment
import Marginalia.Proofs.Workspace.Walked

/-!
# Listed paths lead back

A path that a workspace lists, read as it stands, leads to the file that it was listed for, as
long as no name on the way has a backslash in it.  A backslash is shown as a slash, and then the
path may be that of another file.
-/

namespace Marginalia

open Disk (IsName)

namespace Listing

/-! ## Paths made of names -/

variable {names : List String}

theorem toList_pathOf (names : List String) :
    (pathOf names).toList = Text.joinWith '/' (names.map String.toList) := by
  rw [Text.joinWith_eq_intercalate]
  simp [pathOf]

theorem partsAt_pathOf (hne : names ≠ []) (hnames : ∀ name ∈ names, IsName name) :
    Text.partsAt '/' (pathOf names).toList = names.map String.toList := by
  rw [toList_pathOf]
  refine Text.partsAt_joinWith (by simpa using hne) ?_
  exact List.forall_mem_map.mpr fun name hname => (hnames name hname).no_slash

theorem pathOf_injective {others : List String} (hne : names ≠ [])
    (hnames : ∀ name ∈ names, IsName name) (hne' : others ≠ [])
    (hothers : ∀ name ∈ others, IsName name) (h : pathOf names = pathOf others) :
    names = others := by
  have hparts := partsAt_pathOf hne hnames
  rw [h, partsAt_pathOf hne' hothers] at hparts
  exact (List.map_injective_iff.mpr (fun _ _ => String.toList_inj.mp) hparts).symm

theorem no_backslash_pathOf (h : ∀ name ∈ names, '\\' ∉ name.toList) :
    '\\' ∉ (pathOf names).toList := by
  intro hmem
  rw [toList_pathOf] at hmem
  obtain hslash | ⟨part, hpart, hmem⟩ := Text.mem_joinWith hmem
  · cases hslash
  · obtain ⟨name, hname, rfl⟩ := List.mem_map.mp hpart
    exact h name hname hmem

theorem nil_not_mem_partsAt_pathOf (hne : names ≠ []) (hnames : ∀ name ∈ names, IsName name) :
    [] ∉ Text.partsAt '/' (pathOf names).toList := by
  rw [partsAt_pathOf hne hnames]
  intro hempty
  obtain ⟨name, hname, htext⟩ := List.mem_map.mp hempty
  exact (hnames name hname).ne_empty (String.toList_eq_nil_iff.mp htext)

theorem not_rooted_pathOf (hne : names ≠ []) (hnames : ∀ name ∈ names, IsName name) :
    ¬ Path.Rooted (pathOf names) := by
  intro hrooted
  obtain ⟨parts, hparts, -⟩ := Path.ofText_of_rooted hrooted
  apply nil_not_mem_partsAt_pathOf hne hnames
  rw [hparts]
  exact List.mem_cons_self

theorem pathOf_ne_empty (hne : names ≠ []) (hnames : ∀ name ∈ names, IsName name) :
    pathOf names ≠ "" := by
  intro hempty
  apply nil_not_mem_partsAt_pathOf hne hnames
  rw [hempty]
  exact List.mem_singleton_self []

theorem isContained_pathOf (hne : names ≠ []) (hnames : ∀ name ∈ names, IsName name) :
    Path.isContained (pathOf names) = true := by
  rw [← Bool.not_eq_false, Path.isContained_eq_false_iff]
  rintro (hempty | hrooted | hup)
  · exact pathOf_ne_empty hne hnames hempty
  · exact not_rooted_pathOf hne hnames hrooted
  · rw [Path.goesUp_iff, partsAt_pathOf hne hnames] at hup
    obtain ⟨name, hname, htext⟩ := List.mem_map.mp hup
    exact (hnames name hname).not_above (String.toList_inj.mp htext)

/-! ## Where joined paths lead -/

/-- A joined path has the steps of its first half, but for one to where it is, and the names. -/
theorem exists_stepsOf_join {root : String} (hroot : root ≠ "") (hne : names ≠ [])
    (hnames : ∀ name ∈ names, IsName name) :
    ∃ steps, (Disk.stepsOf root = steps ∨ Disk.stepsOf root = steps ++ ["."]) ∧
      Disk.stepsOf (Path.join root (pathOf names)) = steps ++ names := by
  obtain ⟨front, hfront, hjoin⟩ := Path.exists_join hroot (not_rooted_pathOf hne hnames)
  refine ⟨((Text.partsAt '/' front).filter (!·.isEmpty)).map String.ofList, ?_, ?_⟩
  · rcases hfront with hfront | hfront
    · rw [Disk.stepsOf, hfront]
      split
      · exact .inr rfl
      · exact .inl rfl
    · right
      rw [Disk.stepsOf, hfront, Text.partsAt_append_sep]
      simp [Text.partsAt]
  · have hkept : (names.map String.toList).filter (!·.isEmpty) = names.map String.toList := by
      refine List.filter_eq_self.mpr (List.forall_mem_map.mpr fun name hname => ?_)
      simpa using (hnames name hname).ne_empty
    have hlast : (names.map String.toList).getLast? ≠ some [] := by
      intro hlast
      apply nil_not_mem_partsAt_pathOf hne hnames
      rw [partsAt_pathOf hne hnames]
      exact List.mem_of_getLast? hlast
    have hlast' : (Text.partsAt '/' front ++ names.map String.toList).getLast? ≠ some [] := by
      rwa [List.getLast?_append_of_ne_nil _ (by simpa using hne)]
    rw [Disk.stepsOf, hjoin, Text.partsAt_append_sep, partsAt_pathOf hne hnames]
    simp only [if_neg hlast', List.filter_append, hkept, List.map_append, List.map_map]
    have hid : String.ofList ∘ String.toList = id := funext fun _ => String.ofList_toList
    rw [hid, List.map_id]

theorem no_null_join {root : String} (hroot : '\x00' ∉ root.toList)
    (hnames : ∀ name ∈ names, IsName name) :
    '\x00' ∉ (Path.join root (pathOf names)).toList := by
  have hpath : '\x00' ∉ (pathOf names).toList := by
    intro hnull
    rw [toList_pathOf] at hnull
    obtain hslash | ⟨part, hpart, hnull⟩ := Text.mem_joinWith hnull
    · exact absurd hslash (by decide)
    · obtain ⟨name, hname, rfl⟩ := List.mem_map.mp hpart
      exact (hnames name hname).no_null hnull
  unfold Path.join
  split_ifs
  · exact hpath
  · simp [hroot, hpath]
  · simp [hroot, hpath]

/-- The joined path to a file leads to it, unless it is too long to lead anywhere. -/
theorem locate_join {d : Disk} {root : String} {place : List String} {bytes : ByteArray}
    (hroot : d.locate root = .ok place) (hne : names ≠ []) (hnames : ∀ name ∈ names, IsName name)
    (hfile : d.root.at? (place ++ names) = some (.file bytes))
    (hsize : (Path.join root (pathOf names)).utf8ByteSize ≤ Disk.maxPathBytes) :
    d.locate (Path.join root (pathOf names)) = .ok (place ++ names) := by
  unfold Disk.locate at hroot
  split_ifs at hroot with hnull hempty hlong
  have hrooted := Path.rooted_join_iff hempty (not_rooted_pathOf hne hnames)
  have hstart : d.startOf (Path.join root (pathOf names)) = d.startOf root := by
    simp only [Disk.startOf, Path.startsWith_iff, hrooted]
  have hjoined : Path.join root (pathOf names) ≠ "" := by
    obtain ⟨front, -, hjoin⟩ := Path.exists_join hempty (not_rooted_pathOf hne hnames)
    intro hjoined
    rw [hjoined] at hjoin
    simp at hjoin
  have hnull' := no_null_join (by simpa using hnull) hnames
  obtain ⟨steps, hsteps, hjoin⟩ := exists_stepsOf_join hempty hne hnames
  have hfollow : Disk.follow d.root false Disk.maxLinks (d.startOf root) steps = .ok place := by
    rcases hsteps with hsteps | hsteps
    · rwa [hsteps] at hroot
    · rw [hsteps] at hroot
      exact Disk.follow_of_append_here hroot
  obtain ⟨left, hmore⟩ := Disk.exists_follow_append_eq hfollow
  rw [Disk.locate, if_neg (by simpa using hnull'), if_neg hjoined, if_neg (Nat.not_lt.mpr hsize),
    hstart, hjoin, hmore]
  exact Disk.follow_of_leads (Disk.leads_of_file hnames hfile) false left

end Listing

namespace Path

/-! ## Paths as seen from a root -/

/-- The start of a path and the parts behind it are told by the parts of its front. -/
theorem exists_ofText (front : List Char) :
    ∃ start parts, (start = .unsaid → ∃ part ∈ parts, isIdle part = false) ∧
      ∀ text rest, text ≠ "" → Text.partsAt '/' text.toList = Text.partsAt '/' front ++ rest →
        ofText text = ⟨start, parts ++ rest⟩ := by
  cases hparts : Text.partsAt '/' front with
  | nil => exact absurd hparts (Text.partsAt_ne_nil '/' front)
  | cons part parts =>
      by_cases hempty : part = []
      · refine ⟨.root, parts, fun hstart => absurd hstart (by decide),
          fun text rest htext hrest => ?_⟩
        have hsome : parts ++ rest ≠ [] := by
          intro hnone
          rw [List.cons_append, hempty, hnone] at hrest
          have hjoin := Text.joinWith_partsAt '/' text.toList
          rw [hrest] at hjoin
          exact htext (String.toList_eq_nil_iff.mp hjoin.symm)
        rw [ofText, hrest, hempty, List.cons_append]
        simpa using hsome
      · by_cases hdot : part = ['.']
        · refine ⟨.here, parts, fun hstart => absurd hstart (by decide),
            fun text rest _ hrest => ?_⟩
          rw [ofText, hrest, hdot]
          rfl
        · refine ⟨.unsaid, part :: parts, fun _ => ⟨part, List.mem_cons_self, ?_⟩,
            fun text rest _ hrest => ?_⟩
          · simp [isIdle, hempty, hdot]
          · rw [ofText, hrest]
            split
            · next heq => cases heq
            · next heq => exact absurd (List.cons.inj heq).1 hempty
            · next heq => exact absurd (List.cons.inj heq).1 hdot
            · rfl

/-- Behind its own steps a path goes on with parts that say nothing and then with the rest. -/
theorem exists_behindSteps? (parts rest : List (List Char)) :
    ∃ idle, (∀ part ∈ idle, isIdle part = true) ∧
      behindSteps? (parts.filter (!isIdle ·)) (parts ++ rest) = some (idle ++ rest) := by
  induction parts with
  | nil =>
      refine ⟨[], fun part hpart => absurd hpart List.not_mem_nil, ?_⟩
      cases rest <;> rfl
  | cons part parts ih =>
      obtain ⟨idle, hidle, hbehind⟩ := ih
      by_cases hpart : isIdle part = true
      · rw [List.filter_cons_of_neg (by simp [hpart])]
        cases hsteps : parts.filter (!isIdle ·) with
        | nil =>
            have hall : ∀ other ∈ parts, isIdle other = true := by
              simpa using List.filter_eq_nil_iff.mp hsteps
            refine ⟨part :: parts, List.forall_mem_cons.mpr ⟨hpart, hall⟩, rfl⟩
        | cons step steps =>
            rw [hsteps] at hbehind
            refine ⟨idle, hidle, ?_⟩
            rw [List.cons_append, behindSteps?, if_pos hpart, hbehind]
      · refine ⟨idle, hidle, ?_⟩
        rw [List.filter_cons_of_pos (by simp [hpart]), List.cons_append, behindSteps?,
          if_neg hpart, if_pos rfl, hbehind]

theorem trimParts_append {idle names : List (List Char)} (hidle : ∀ part ∈ idle, isIdle part = true)
    (hnames : ∀ part ∈ names, isIdle part = false) : trimParts (idle ++ names) = names := by
  have hkept {parts : List (List Char)} (h : ∀ part ∈ parts, isIdle part = false) :
      parts.dropWhile isIdle = parts := by
    cases parts with
    | nil => rfl
    | cons part parts => exact List.dropWhile_cons_of_neg (by simp [h part List.mem_cons_self])
  rw [trimParts, List.dropWhile_append_of_pos hidle, hkept hnames,
    hkept fun part hpart => hnames part (List.mem_reverse.mp hpart), List.reverse_reverse]

/-- As seen from a root, the joined path is what was joined to it. -/
theorem below?_join {root : String} {names : List String} (hroot : root ≠ "") (hne : names ≠ [])
    (hnames : ∀ name ∈ names, IsName name) :
    below? (ofText root) (ofText (join root (Listing.pathOf names))) =
      some (Listing.pathOf names).toList := by
  have hpath := Listing.not_rooted_pathOf hne hnames
  obtain ⟨front, hfront, hjoin⟩ := exists_join hroot hpath
  obtain ⟨start, parts, hstart, htext⟩ := exists_ofText front
  have hjoined : ofText (join root (Listing.pathOf names)) =
      ⟨start, parts ++ names.map String.toList⟩ := by
    refine htext _ _ (fun hempty => ?_) ?_
    · rw [hempty] at hjoin
      simp at hjoin
    · rw [hjoin, Text.partsAt_append_sep, Listing.partsAt_pathOf hne hnames]
  have hbase : (ofText root).start = start ∧
      (ofText root).steps = parts.filter (!isIdle ·) := by
    rcases hfront with hfront | hfront
    · rw [htext root [] hroot (by rw [hfront, List.append_nil]), List.append_nil]
      exact ⟨rfl, rfl⟩
    · rw [htext root [[]] hroot (by rw [hfront, Text.partsAt_append_sep]; rfl)]
      refine ⟨rfl, ?_⟩
      rw [steps, List.filter_append]
      exact List.append_nil _
  obtain ⟨idle, hidle, hbehind⟩ := exists_behindSteps? parts (names.map String.toList)
  have hproper : ∀ part ∈ names.map String.toList, isIdle part = false := by
    refine List.forall_mem_map.mpr fun name hname => ?_
    have hdot : name.toList ≠ ['.'] := fun h =>
      (hnames name hname).not_here (String.toList_inj.mp h)
    simp [isIdle, (hnames name hname).ne_empty, hdot]
  have hsteps : ¬ (start = .unsaid ∧ (parts.filter (!isIdle ·)).isEmpty = true) := by
    rintro ⟨hunsaid, hempty⟩
    obtain ⟨part, hpart, hkept⟩ := hstart hunsaid
    have hnone := List.filter_eq_nil_iff.mp (List.isEmpty_iff.mp hempty) part hpart
    simp [hkept] at hnone
  rw [below?, hbase.1, hbase.2, if_neg hsteps, hjoined, if_pos rfl, hbehind, Option.map_some,
    trimParts_append hidle hproper, ← Listing.toList_pathOf]

end Path

namespace Workspace

/-- Names without a backslash are shown as the path that they make. -/
theorem relativePath?_join (w : Workspace) {names : List String} (hroot : w.root ≠ "")
    (hne : names ≠ []) (hnames : ∀ name ∈ names, IsName name)
    (hplain : ∀ name ∈ names, '\\' ∉ name.toList) :
    w.relativePath? (Path.join w.root (Listing.pathOf names)) = some (Listing.pathOf names) := by
  have hsome : (Listing.pathOf names).toList ≠ [] := by
    simpa using Listing.pathOf_ne_empty hne hnames
  have hkept : ∀ c ∈ (Listing.pathOf names).toList, (if c = '\\' then '/' else c) = id c := by
    intro c hc
    have hother : c ≠ '\\' := by
      rintro rfl
      exact Listing.no_backslash_pathOf hplain hc
    exact if_neg hother
  have hshown : String.ofList
      ((Listing.pathOf names).toList.map fun c => if c = '\\' then '/' else c) =
        Listing.pathOf names := by
    rw [List.map_congr_left hkept, List.map_id, String.ofList_toList]
  rw [relativePath?, Path.below?_join hroot hne hnames]
  cases htext : (Listing.pathOf names).toList with
  | nil => exact absurd htext hsome
  | cons c cs =>
      rw [htext] at hshown
      exact congrArg some hshown

theorem exists_walked_of_mem_files {w : Workspace} {d : Disk} {e : Environment} {path : String}
    (h : path ∈ w.files d e) : ∃ names ∈ Listing.walked d e w.root,
      w.relativePath? (Path.join w.root (Listing.pathOf names)) = some path := by
  rw [files, List.mem_mergeSort] at h
  exact List.mem_filterMap.mp (List.mem_of_mem_take h)

/-- Whether a path of a workspace leads to a file, and what is read for it is what that holds. -/
structure Delivers (w : Workspace) (d : Disk) (path : String) (place : List String)
    (bytes : ByteArray) : Prop where
  located : d.locate (Path.join w.root path) = .ok place
  stands : d.root.at? place = some (.file bytes)
  read : ∀ text, w.readText d path = .ok text ↔ bytes.size ≤ maxFileBytes ∧ bytes = text.toUTF8

theorem delivers_of_locate {w : Workspace} {d : Disk} {path : String} {place : List String}
    {bytes : ByteArray} (hcontained : Path.isContained path = true)
    (hlocate : d.locate (Path.join w.root path) = .ok place)
    (hfile : d.root.at? place = some (.file bytes)) : w.Delivers d path place bytes := by
  refine ⟨hlocate, hfile, fun text => ?_⟩
  have hfind : d.find (Path.join w.root path) = .ok (.file bytes) := by
    rw [Disk.find, hlocate]
    simp only [hfile]
  have hread : d.readText (Path.join w.root path) = .ok text ↔ bytes = text.toUTF8 :=
    Disk.readText_eq_ok_iff hfind
  simp only [readText, hcontained, hfind, ← hread, Bool.not_true, Bool.false_eq_true, if_false]
  by_cases hsize : bytes.size > maxFileBytes
  · simp [if_pos hsize, Nat.not_le.mpr hsize]
  · rw [if_neg hsize]
    cases d.readText (Path.join w.root path) with
    | error fault => simp
    | ok found => simp [Nat.le_of_not_lt hsize]

/--
On a disk with proper names each path that a workspace lists is that of a file which was walked
over, as seen from the root.  Where no name has a backslash, it is shown as it is: joined to the
root again it leads to that file, unless it is too long to lead anywhere, and no other such file
has the same path; what is read for it is what the file holds.
-/
theorem listed_leadsBack (w : Workspace) {d : Disk} (hnamed : d.root.Named) (e : Environment) :
    (∀ path ∈ w.files d e, ∃ names ∈ Listing.walked d e w.root,
      w.relativePath? (Path.join w.root (Listing.pathOf names)) = some path) ∧
    ∀ names ∈ Listing.walked d e w.root, (∀ name ∈ names, '\\' ∉ name.toList) →
      ∃ path place bytes, d.locate w.root = .ok place ∧
        d.root.at? (place ++ names) = some (.file bytes) ∧
        w.relativePath? (Path.join w.root (Listing.pathOf names)) = some path ∧
        Path.join w.root path = Path.join w.root (Listing.pathOf names) ∧
        (∀ others ∈ Listing.walked d e w.root, (∀ name ∈ others, '\\' ∉ name.toList) →
          w.relativePath? (Path.join w.root (Listing.pathOf others)) = some path →
          others = names) ∧
        ((Path.join w.root path).utf8ByteSize ≤ Disk.maxPathBytes →
          w.Delivers d path (place ++ names) bytes) := by
  refine ⟨fun path => exists_walked_of_mem_files, fun names hwalked hplain => ?_⟩
  obtain ⟨place, bytes, hlocate, hne, hfile, hnames⟩ :=
    Listing.exists_file_of_mem_walked hnamed hwalked
  have hroot : w.root ≠ "" := by
    rintro hroot
    rw [hroot] at hlocate
    cases hlocate
  refine ⟨_, place, bytes, hlocate, hfile, w.relativePath?_join hroot hne hnames hplain, rfl,
    fun others hothers hplain' hsame => ?_, fun hsize => ?_⟩
  · obtain ⟨-, -, -, hne', -, hnames'⟩ := Listing.exists_file_of_mem_walked hnamed hothers
    rw [w.relativePath?_join hroot hne' hnames' hplain'] at hsame
    exact Listing.pathOf_injective hne' hnames' hne hnames (Option.some.inj hsame)
  · exact delivers_of_locate (Listing.isContained_pathOf hne hnames)
      (Listing.locate_join hlocate hne hnames hfile hsize) hfile

/-- The one file of a workspace is read by the path under which it is listed. -/
theorem listed_leadsBack_oneFile :
    let bytes := "fn main() {}".toUTF8
    let d : Disk := { root := .directory [("main.rs", .file bytes)] }
    let w : Workspace := ⟨"/"⟩
    d.root.Named ∧ Listing.walked d {} w.root = [["main.rs"]] ∧ w.files d {} = ["main.rs"] ∧
      w.relativePath? "/main.rs" = some "main.rs" ∧
      w.readText d "main.rs" = .ok "fn main() {}" := by
  intro bytes d w
  have hnamed : d.root.Named := by
    refine Tree.named_directory (by decide) (List.forall_mem_singleton.mpr ⟨?_, Tree.named_file _⟩)
    decide +kernel
  have hwalked : Listing.walked d {} w.root = [["main.rs"]] := by
    obtain ⟨s, levels, hwalked, hkept⟩ := Listing.exists_walked_eq (d := d) rfl (by decide)
    rw [hwalked, Listing.filesIn_cons_file ((hkept _ _).trans (by decide +kernel)), Listing.filesIn]
    rfl
  have hfiles : w.files d {} = ["main.rs"] := by
    rw [files, hwalked]
    decide +kernel
  obtain ⟨-, hback⟩ := w.listed_leadsBack hnamed {}
  have hmem : ["main.rs"] ∈ Listing.walked d {} w.root := by
    rw [hwalked]
    exact List.mem_singleton_self _
  obtain ⟨path, place, found, hlocate, hfile, hpath, -, -, hdelivers⟩ :=
    hback ["main.rs"] hmem (by decide)
  have hrelative : w.relativePath? "/main.rs" = some "main.rs" := by decide +kernel
  have hjoin : Path.join w.root (Listing.pathOf ["main.rs"]) = "/main.rs" := by decide +kernel
  rw [hjoin, hrelative] at hpath
  cases hpath
  rw [Listing.locate_top rfl] at hlocate
  cases hlocate
  cases hfile
  have hread := (hdelivers (by decide +kernel)).read "fn main() {}"
  exact ⟨hnamed, hwalked, hfiles, hrelative, hread.mpr ⟨by decide +kernel, rfl⟩⟩

/--
A file whose name has a backslash in it is listed under the path of another file, and what is read
for it is what the other file holds.
-/
theorem listed_elsewhere :
    let d : Disk :=
      { root := .directory
          [("target", .directory [("out", .file "inner".toUTF8)]),
            ("target\\out", .file "other".toUTF8)] }
    let w : Workspace := ⟨"/"⟩
    Listing.walked d {} w.root = [["target\\out"]] ∧ w.files d {} = ["target/out"] ∧
      w.relativePath? (Path.join w.root "target\\out") = some "target/out" ∧
      d.locate (Path.join w.root "target/out") = .ok ["target", "out"] ∧
      d.root.at? ["target\\out"] = some (.file "other".toUTF8) ∧
      w.readText d "target/out" = .ok "inner" := by
  intro d w
  have hwalked : Listing.walked d {} w.root = [["target\\out"]] := by
    obtain ⟨s, levels, hwalked, hkept⟩ := Listing.exists_walked_eq (d := d) rfl (by decide)
    rw [hwalked, Listing.filesIn_cons_of_isLeftOut ((hkept _ _).trans (by decide +kernel)),
      Listing.filesIn_cons_file ((hkept _ _).trans (by decide +kernel)), Listing.filesIn]
    rfl
  have hfiles : w.files d {} = ["target/out"] := by
    rw [files, hwalked]
    decide +kernel
  have hstart : d.startOf (Path.join w.root "target/out") = [] := if_pos (by decide +kernel)
  have hlocate : d.locate (Path.join w.root "target/out") = .ok ["target", "out"] :=
    Disk.locate_of_leads (by decide +kernel) hstart (by decide +kernel) (by decide +kernel)
  have hdelivers : w.Delivers d "target/out" ["target", "out"] "inner".toUTF8 :=
    delivers_of_locate (by decide +kernel) hlocate rfl
  exact ⟨hwalked, hfiles, by decide +kernel, hlocate, rfl,
    (hdelivers.read "inner").mpr ⟨by decide +kernel, rfl⟩⟩

end Workspace

end Marginalia
