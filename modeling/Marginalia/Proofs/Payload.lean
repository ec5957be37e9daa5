import Mathlib.Data.List.Forall2
import Marginalia.Proofs.FileChoice.Gathering
import Marginalia.Proofs.Json.Compact
import Marginalia.Proofs.Message

/-!
# Payloads put together again

Files and requirements go to a model as JSON texts that are cut into messages wherever the budget
wants it.  The messages of one file, put together, are a text of the object with its path and its
content; a file that cannot be read has none, and leaves those of the others as they are.
-/

namespace Marginalia

/--
Whether messages from the user, each within the budget and none empty, put together are a text of
a value.
-/
structure Message.Carries (budget : Text.Budget) (messages : List Message) (v : Json) : Prop where
  decoded : Json.parseChars (messages.flatMap (·.content.toList)) = .ok v
  bounds : ∀ m ∈ messages, 1 ≤ m.content.length ∧ m.content.length ≤ budget.chars
  role : ∀ m ∈ messages, m.role = .user

/-- The compact text of a value carries the value through any chunks. -/
theorem Message.carries_chunked {v : Json} (h : Json.Fits Json.maxDepth v)
    (budget : Text.Budget) : Carries budget (chunked v.compact budget) v := by
  refine ⟨?_, fun m => length_content_of_mem_chunked, fun m => role_of_mem_chunked⟩
  rw [flatMap_chunked]
  exact Json.parseChars_eq_ok_iff.mpr h.spells

/-! ## Requirements -/

namespace Requirements

theorem messages_of_isBlank {r : Requirements} (h : Text.isBlankText r.text = true)
    (budget : Text.Budget) : r.messages budget = [] := by
  rw [messages, payload?, isBlank, if_pos h]

theorem carries_messages {r : Requirements} (h : Text.isBlankText r.text = false)
    (budget : Text.Budget) :
    Message.Carries budget (r.messages budget)
      (.object [("projectRequirements", .string r.text)]) := by
  have hfits : Json.Fits Json.maxDepth (.object [("projectRequirements", .string r.text)]) :=
    .object (List.forall_mem_singleton.mpr (.string r.text))
  have hblank : ¬ Text.isBlankText r.text = true := by simp [h]
  rw [messages, payload?, isBlank, if_neg hblank]
  exact Message.carries_chunked hfits budget

end Requirements

/-! ## Files -/

namespace FileChoice

def readable (library : Library) (paths : List String) : List (String × String) :=
  paths.filterMap fun path => (library.read path).map fun text => (path, text)

theorem carries_payload (path text : String) (budget : Text.Budget) :
    Message.Carries budget (Message.chunked (payload path text) budget)
      (.object [(path, .array [.string text])]) := by
  have htexts : Json.Fits (Json.maxDepth - 1) (.array [.string text]) :=
    .array (List.forall_mem_singleton.mpr (.string text))
  have hfits : Json.Fits Json.maxDepth (.object [(path, .array [.string text])]) :=
    .object (List.forall_mem_singleton.mpr htexts)
  exact Message.carries_chunked hfits budget

def groups (library : Library) (budget : Text.Budget) (paths : List String) :
    List (List Message) :=
  (readable library paths).map fun file => Message.chunked (payload file.1 file.2) budget

theorem flatten_groups (library : Library) (budget : Text.Budget) (paths : List String) :
    (groups library budget paths).flatten = fileMessages library budget paths := by
  induction paths with
  | nil => rfl
  | cons path paths ih =>
      rw [groups, readable] at ih ⊢
      rw [fileMessages, List.flatMap_cons, ← fileMessages, ← ih, List.filterMap_cons]
      cases library.read path with
      | none => rfl
      | some text => rfl

theorem carries_groups (library : Library) (budget : Text.Budget) (paths : List String) :
    List.Forall₂ (fun file group => Message.Carries budget group
        (.object [(file.1, .array [.string file.2])]))
      (readable library paths) (groups library budget paths) := by
  rw [groups, List.forall₂_map_right_iff, List.forall₂_same]
  intro file _
  exact carries_payload file.1 file.2 budget

theorem Answered.messages {r : Reviewer} {library : Library} {d : Document} {isCancelled : Bool}
    {x : Model.Exchange} {wakes : List Bool} {text : String}
    (h : Answered r isCancelled x wakes text) :
    (gather r library d isCancelled x wakes).messages =
      fileMessages library r.settings.budget (select text (offeredFor library d)) := by
  cases gathered r library d isCancelled x wakes with
  | whole answered reads messages => rw [messages, reads, h.unique answered]
  | nothing hnone reads messages =>
      have hempty : offeredFor library d = [] := hnone.resolve_right fun hnever => hnever text h
      have hnone (paths : List String) : paths.filter ([] : List String).contains = [] :=
        List.filter_eq_nil_iff.mpr (by simp)
      rw [messages, hempty, select, hnone]
      rfl

end FileChoice

/--
The messages of some files fall into those of each file that can be read, in the order of their
paths; put together, each file's are a text of the object with its path for a key and a list of
its content.  A reply to a choice that arrives whole leads to the messages of the files that it
selects.  The messages of requirements are a text of theirs, and there are none of blank ones.
-/
theorem payloads_carried (library : Library) :
    (∀ budget paths, ∃ groups : List (List Message),
      groups.flatten = FileChoice.fileMessages library budget paths ∧
      List.Forall₂ (fun file group => Message.Carries budget group
          (.object [(file.1, .array [.string file.2])]))
        (FileChoice.readable library paths) groups) ∧
    (∀ r d isCancelled x wakes text, FileChoice.Answered r isCancelled x wakes text →
      (FileChoice.gather r library d isCancelled x wakes).messages =
        FileChoice.fileMessages library r.settings.budget
          (FileChoice.select text (FileChoice.offeredFor library d))) ∧
    ∀ budget text,
      let messages := (Requirements.mk text).messages budget
      (Text.isBlankText text = true → messages = []) ∧
      (Text.isBlankText text = false →
        Message.Carries budget messages (.object [("projectRequirements", .string text)])) := by
  refine ⟨fun budget paths => ?_, fun r d isCancelled x wakes text h => h.messages,
    fun budget text => ⟨fun h => ?_, fun h => ?_⟩⟩
  · exact ⟨FileChoice.groups library budget paths, FileChoice.flatten_groups library budget paths,
      FileChoice.carries_groups library budget paths⟩
  · exact Requirements.messages_of_isBlank h budget
  · exact Requirements.carries_messages h budget

def quotedLibrary : Library :=
  { files := ["a\"b.rs", "c.rs", "main.rs"]
    read := fun path => if path = "a\"b.rs" then some "let s = \"\\\t\";" else none }

def quotedExchange : Model.Exchange :=
  { replies := [.stream [.fragment "\x7b\"paths\": [\"c.rs\", ", .pause,
      .fragment "\"a\\\"b.rs\"]\x7d"]] }

theorem FileChoice.exists_answered_quoted {r : Reviewer} (hmodel : r.model?.isSome = true)
    {d : Document} (hid : d.id = "main.rs") :
    ∃ text, Answered r false quotedExchange [false] text ∧
      select text (offeredFor quotedLibrary d) = ["c.rs", "a\"b.rs"] := by
  refine ⟨_, ⟨hmodel, rfl, _, rfl, .fragment (.pause (.fragment (.ended (by simp))))⟩, ?_⟩
  rw [offeredFor, hid]
  decide +kernel

/-- Three characters to a message, escapes among them, carry the file that can be read. -/
theorem payloads_carried_quoted :
    let settings : ReviewSettings := { budget := ⟨3, by decide⟩ }
    let r : Reviewer := { catalog := ⟨[⟨"test", "scripted"⟩]⟩, settings }
    let d : Document := { id := "main.rs", lines := ["fn main()"] }
    (∃ text, FileChoice.Answered r false quotedExchange [false] text ∧
      FileChoice.select text (FileChoice.offeredFor quotedLibrary d) = ["c.rs", "a\"b.rs"]) ∧
    Message.Carries settings.budget
      (FileChoice.gather r quotedLibrary d false quotedExchange [false]).messages
      (.object [("a\"b.rs", .array [.string "let s = \"\\\t\";"])]) ∧
    (Requirements.mk " \n").messages settings.budget = [] ∧
    Message.Carries settings.budget ((Requirements.mk "no \"unsafe\"").messages settings.budget)
      (.object [("projectRequirements", .string "no \"unsafe\"")]) := by
  intro settings r d
  obtain ⟨hfiles, hgather, hrequirements⟩ := payloads_carried quotedLibrary
  have hmodel : r.model?.isSome = true := by decide +kernel
  have hreply := FileChoice.exists_answered_quoted hmodel (rfl : d.id = "main.rs")
  refine ⟨hreply, ?_, (hrequirements settings.budget " \n").1 (by decide),
    (hrequirements settings.budget "no \"unsafe\"").2 (by decide)⟩
  obtain ⟨text, hanswered, hselect⟩ := hreply
  have hmessages := hgather r d false quotedExchange [false] text hanswered
  rw [hselect] at hmessages
  obtain ⟨groups, hflatten, hgroups⟩ := hfiles settings.budget ["c.rs", "a\"b.rs"]
  -- there is one group, since one of the two files can be read
  cases hgroups with
  | cons hfirst hothers =>
      cases hothers
      rw [hmessages, ← hflatten, List.flatten_singleton]
      exact hfirst

end Marginalia
