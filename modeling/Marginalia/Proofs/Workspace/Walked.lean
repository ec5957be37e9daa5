import Mathlib.Data.List.Nodup
import Marginalia.Proofs.Workspace.Disk
import Marginalia.Workspace.Listing

/-!
# Files that a listing walks over

A listing goes through the directories of a tree and keeps the names that lead to each file which
no rule leaves out.
-/

namespace Marginalia

/-! ## Directories with proper names -/

namespace Tree

/-- Whether all entries below a tree have proper names, no two in one directory the same. -/
def Named (t : Tree) : Prop :=
  ∀ place entries, t.at? place = some (.directory entries) →
    (entries.map (·.1)).Nodup ∧ ∀ entry ∈ entries, Disk.IsName entry.1

theorem named_file (bytes : ByteArray) : (file bytes).Named := by
  intro place entries h
  cases place with
  | nil => cases h
  | cons name place => cases h

theorem named_directory {entries : List (String × Tree)} (hnodup : (entries.map (·.1)).Nodup)
    (hentries : ∀ entry ∈ entries, Disk.IsName entry.1 ∧ entry.2.Named) :
    (directory entries).Named := by
  intro place others h
  cases place with
  | nil =>
      cases h
      exact ⟨hnodup, fun entry hentry => (hentries entry hentry).1⟩
  | cons name place =>
      obtain ⟨_, inner, heq, hchild, hinner⟩ := exists_directory_of_at? h
      cases heq
      obtain ⟨entry, hfound, rfl⟩ := Option.map_eq_some_iff.mp hchild
      exact (hentries entry (List.mem_of_find?_eq_some hfound)).2 place others hinner

theorem child?_of_mem {entries : List (String × Tree)} (hnodup : (entries.map (·.1)).Nodup)
    {name : String} {inner : Tree} (h : (name, inner) ∈ entries) :
    child? entries name = some inner := by
  induction entries with
  | nil => cases h
  | cons entry entries ih =>
      rw [List.map_cons, List.nodup_cons] at hnodup
      cases h with
      | head => simp [child?]
      | tail _ hlater =>
          have hne : entry.1 ≠ name := by
            rintro rfl
            exact hnodup.1 (List.mem_map.mpr ⟨_, hlater, rfl⟩)
          rw [child?, List.find?_cons_of_neg (by simpa using hne)]
          exact ih hnodup.2 hlater

theorem at?_child {entries : List (String × Tree)} {name : String} {inner : Tree}
    (h : child? entries name = some inner) (names : List String) :
    (directory entries).at? (name :: names) = inner.at? names := by
  rw [at?, h]

theorem Named.child {entries : List (String × Tree)} (h : (directory entries).Named) {name : String}
    {inner : Tree} (hchild : child? entries name = some inner) : inner.Named :=
  fun place others hplace => h (name :: place) others (by rw [at?_child hchild, hplace])

end Tree

namespace Listing

/-! ## Walking -/

/-- What is found among entries is one of them that is a file, or is found inside one of them. -/
theorem exists_entry_of_mem_filesIn {s : Setup} {levels : List Level}
    {place below names : List String} {entries : List (String × Tree)}
    (h : names ∈ filesIn s levels place below entries) :
    ∃ entry ∈ entries, names = below ++ [entry.1] ∧ entry.2.isFile = true ∨
      names ∈ filesOf s levels (place ++ [entry.1]) (below ++ [entry.1]) entry.2 := by
  induction entries with
  | nil => simp [filesIn] at h
  | cons entry entries ih =>
      rw [filesIn, List.mem_append] at h
      rcases h with h | h
      · refine ⟨entry, List.mem_cons_self, ?_⟩
        split at h
        · cases h
        · split at h
          · next hfile => exact .inl ⟨List.mem_singleton.mp h, hfile⟩
          · exact .inr h
      · obtain ⟨found, hfound, hnames⟩ := ih h
        exact ⟨found, List.mem_cons_of_mem entry hfound, hnames⟩

theorem exists_file_of_mem_filesOf {s : Setup} {levels : List Level}
    {place below names : List String} {tree : Tree} (hnamed : tree.Named)
    (h : names ∈ filesOf s levels place below tree) :
    ∃ rest bytes, names = below ++ rest ∧ rest ≠ [] ∧ tree.at? rest = some (.file bytes) ∧
      ∀ name ∈ rest, Disk.IsName name := by
  match tree, hnamed, h with
  | .directory entries, hnamed, h =>
      obtain ⟨hnodup, hnames⟩ := hnamed [] entries rfl
      rw [filesOf] at h
      obtain ⟨⟨name, inner⟩, hentry, hfound⟩ := exists_entry_of_mem_filesIn h
      have hchild := Tree.child?_of_mem hnodup hentry
      have hname := hnames _ hentry
      rcases hfound with ⟨rfl, hfile⟩ | hfound
      · cases inner with
        | file bytes =>
            refine ⟨[name], bytes, rfl, List.cons_ne_nil _ _, Tree.at?_child hchild [], ?_⟩
            exact List.forall_mem_singleton.mpr hname
        | link target => cases hfile
        | directory inner => cases hfile
      · obtain ⟨rest, bytes, rfl, -, hat, hrest⟩ :=
          exists_file_of_mem_filesOf (hnamed.child hchild) hfound
        refine ⟨name :: rest, bytes, ?_, List.cons_ne_nil _ _, ?_, ?_⟩
        · rw [List.append_assoc, List.singleton_append]
        · rw [Tree.at?_child hchild, hat]
        · exact List.forall_mem_cons.mpr ⟨hname, hrest⟩
  | .file bytes, _, h => cases h
  | .link target, _, h => cases h
termination_by sizeOf tree
decreasing_by
  have hlt := List.sizeOf_lt_of_mem hentry
  simp only [Prod.mk.sizeOf_spec, Tree.directory.sizeOf_spec] at hlt ⊢
  omega

/-! ## What is listed -/

theorem exists_file_of_mem_walked {d : Disk} (hnamed : d.root.Named) {e : Environment}
    {base : String} {names : List String} (h : names ∈ walked d e base) :
    ∃ place bytes, d.locate base = .ok place ∧ names ≠ [] ∧
      d.root.at? (place ++ names) = some (.file bytes) ∧ ∀ name ∈ names, Disk.IsName name := by
  unfold walked at h
  cases hlocate : d.locate base with
  | error fault =>
      rw [hlocate] at h
      cases h
  | ok place =>
      rw [hlocate] at h
      dsimp only at h
      cases htree : d.root.at? place with
      | none =>
          rw [htree] at h
          cases h
      | some tree =>
          rw [htree] at h
          have hinside : tree.Named := fun inner entries hinner =>
            hnamed (place ++ inner) entries (by rw [Tree.at?_append, htree]; exact hinner)
          obtain ⟨rest, bytes, rfl, hne, hfile, hnames⟩ := exists_file_of_mem_filesOf hinside h
          refine ⟨place, bytes, rfl, hne, ?_, hnames⟩
          rw [Tree.at?_append, htree]
          exact hfile

/-! ## Directories without rules -/

/-- Whether no rules are kept in a directory. -/
structure Level.IsBare (level : Level) : Prop where
  plain : level.plain = {}
  git : level.git = {}
  excluded : level.excluded = {}

theorem rulesIn_of_missing {d : Disk} {path : String} (h : d.find path = .error .notFound) :
    rulesIn d path = {} := by
  rw [rulesIn, Disk.readBytes, h]

/-- At the top of a disk there are no rules unless a file or a directory is named for them. -/
theorem isBare_levelAt {d : Disk} {entries : List (String × Tree)}
    (hroot : d.root = .directory entries)
    (hbare : ∀ name ∈ [".ignore", ".gitignore", ".git"], Tree.child? entries name = none)
    (path : List Char) : (levelAt d [] path).IsBare := by
  have hmissing (path name : String) (steps : List String)
      (hpath : (¬path.toList.contains '\x00' = true ∧ path ≠ "" ∧
        path.utf8ByteSize ≤ Disk.maxPathBytes) ∧ path.startsWith "/" = true ∧
        Disk.stepsOf path = name :: steps ∧ Disk.IsName name ∧
        name ∈ [".ignore", ".gitignore", ".git"]) : d.find path = .error .notFound := by
    obtain ⟨hvalid, htop, hsteps, hname, hmem⟩ := hpath
    have hstart : d.startOf path = [] := if_pos htop
    exact Disk.find_of_missing hvalid hroot hstart hsteps hname (hbare name hmem)
  refine ⟨rulesIn_of_missing ?_, rulesIn_of_missing ?_, ?_⟩
  · exact hmissing (Path.join (Disk.pathTo []) ".ignore") ".ignore" [] (by decide +kernel)
  · exact hmissing (Path.join (Disk.pathTo []) ".gitignore") ".gitignore" [] (by decide +kernel)
  · let link := Path.join (Disk.pathTo []) ".git"
    have hgit : d.find link = .error .notFound := hmissing link ".git" [] (by decide +kernel)
    have hexclude := hmissing (Path.join link "info/exclude") ".git" ["info", "exclude"]
      (by decide +kernel)
    unfold levelAt excludedIn
    simp only [link] at hgit hexclude
    simp only [hgit]
    exact rulesIn_of_missing hexclude

theorem verdictOf_of_isBare {kind : Level → IgnoreRules} {levels : List Level}
    (h : ∀ level ∈ levels, kind level = {}) (path : List Char) (isDirectory : Bool) :
    verdictOf kind levels path isDirectory = .unsaid := by
  induction levels with
  | nil => rfl
  | cons level levels ih =>
      obtain ⟨hlevel, hlevels⟩ := List.forall_mem_cons.mp h
      rw [verdictOf] at ih ⊢
      rw [List.foldr_cons, ih hlevels, hlevel]
      rfl

theorem ofRepository_front (levels : List Level) : ofRepository levels <+: levels := by
  induction levels with
  | nil => exact List.prefix_refl _
  | cons level levels ih =>
      rw [ofRepository]
      split
      · exact List.prefix_append [level] levels
      · exact (List.prefix_cons_inj level).mpr ih

theorem isLeftOut_of_isBare {s : Setup} {levels : List Level} {below : List String} {name : String}
    (huser : s.userRules = {}) (habove : s.above = []) (hbare : ∀ level ∈ levels, level.IsBare)
    (isDirectory : Bool) :
    isLeftOut s levels (below ++ [name]) isDirectory =
      (leftOutNames.contains name || name.startsWith ".") := by
  have hnear : ∀ level ∈ ofRepository levels, level.IsBare := fun level hlevel =>
    hbare level ((ofRepository_front levels).subset hlevel)
  have hplain := verdictOf_of_isBare fun level hlevel => (hbare level hlevel).plain
  have hgit := verdictOf_of_isBare fun level hlevel => (hnear level hlevel).git
  have hexcluded := verdictOf_of_isBare fun level hlevel => (hnear level hlevel).excluded
  have hfar (kind : Level → IgnoreRules) : ∀ level ∈ ([] : List Level), kind level = {} := nofun
  have hnothing (path : List UInt8) : ({} : IgnoreRules).verdict path isDirectory = .unsaid := rfl
  unfold isLeftOut
  rw [List.getLast?_concat, Option.getD_some, huser, habove]
  simp only [ofRepository, ite_self, hplain, hgit, hexcluded, verdictOf_of_isBare (hfar _),
    hnothing, Verdict.or]
  cases leftOutNames.contains name <;> rfl

theorem filesIn_cons_file {s : Setup} {levels : List Level} {place below : List String}
    {name : String} (hkept : isLeftOut s levels (below ++ [name]) false = false)
    (bytes : ByteArray) (entries : List (String × Tree)) :
    filesIn s levels place below ((name, .file bytes) :: entries) =
      (below ++ [name]) :: filesIn s levels place below entries := by
  simp [filesIn, Tree.isDirectory, hkept, Tree.isFile]

theorem filesIn_cons_of_isLeftOut {s : Setup} {levels : List Level} {place below : List String}
    {name : String} {inner : Tree}
    (hleft : isLeftOut s levels (below ++ [name]) inner.isDirectory = true)
    (entries : List (String × Tree)) :
    filesIn s levels place below ((name, inner) :: entries) =
      filesIn s levels place below entries := by
  simp [filesIn, hleft]

theorem locate_top {d : Disk} {entries : List (String × Tree)}
    (hroot : d.root = .directory entries) : d.locate "/" = .ok [] := by
  have hsteps : Disk.stepsOf "/" = ["."] := by decide +kernel
  have hstart : d.startOf "/" = [] := if_pos (by decide +kernel)
  rw [Disk.locate, if_neg (by decide +kernel), if_neg (by decide +kernel),
    if_neg (by decide +kernel), hstart, hsteps, Disk.follow, hroot]
  simp [Tree.at?, Disk.follow]

/-- What is walked over from the top of a disk, where there are no rules. -/
theorem exists_walked_eq {d : Disk} {entries : List (String × Tree)}
    (hroot : d.root = .directory entries)
    (hbare : ∀ name ∈ [".ignore", ".gitignore", ".git"], Tree.child? entries name = none) :
    ∃ s levels, walked d {} "/" = filesIn s levels [] [] entries ∧
      ∀ name isDirectory, isLeftOut s levels ([] ++ [name]) isDirectory =
        (leftOutNames.contains name || name.startsWith ".") := by
  have hlevel := isBare_levelAt hroot hbare "/".toList
  refine ⟨setup d {} "/" [], [levelAt d [] "/".toList], ?_, fun name isDirectory => ?_⟩
  · rw [walked, locate_top hroot]
    simp only [hroot, Tree.at?, filesOf]
    rfl
  · exact isLeftOut_of_isBare rfl rfl (List.forall_mem_singleton.mpr hlevel) isDirectory

end Listing

end Marginalia
