import Marginalia.FollowUp
import Marginalia.Proofs.Filter.Requests
import Marginalia.Proofs.Numbering
import Marginalia.Proofs.Payload

/-!
# Requests section by section

A request begins with the instructions, if there are any, and goes on with messages from the
user only, section by section.  A section is a text cut into messages within the budget, or
such messages as they were given, or a text that goes in one message however long it is.
-/

namespace Marginalia

/-! ## Sections -/

/-- What a part of a request behind the instructions holds. -/
inductive Section where
  | cut (text : String)
  | given (messages : List Message)
  | whole (text : String)

def Message.Within (budget : Text.Budget) (messages : List Message) : Prop :=
  ∀ m ∈ messages, m.role = .user ∧ 1 ≤ m.content.length ∧ m.content.length ≤ budget.chars

theorem Message.within_chunked (text : String) (budget : Text.Budget) :
    Within budget (chunked text budget) :=
  fun _ hm => ⟨role_of_mem_chunked hm, length_content_of_mem_chunked hm⟩

/-- Whether messages are those of a section. -/
inductive Section.Shown (budget : Text.Budget) : Section → List Message → Prop
  | cut {text : String} {messages : List Message} (within : Message.Within budget messages)
      (joined : messages.flatMap (·.content.toList) = text.toList) :
      Shown budget (.cut text) messages
  | given {messages : List Message} (within : Message.Within budget messages) :
      Shown budget (.given messages) messages
  | whole {text : String} {m : Message} (user : m.role = .user) (content : m.content = text) :
      Shown budget (.whole text) [m]

namespace Section.Shown

variable {budget : Text.Budget}

theorem chunked (text : String) (budget : Text.Budget) :
    Shown budget (.cut text) (Message.chunked text budget) :=
  .cut (Message.within_chunked text budget) (Message.flatMap_chunked text budget)

theorem nil : Shown budget (.cut "") [] :=
  .cut (fun _ hm => absurd hm List.not_mem_nil) rfl

theorem user {s : Section} {messages : List Message} (h : Shown budget s messages) :
    ∀ m ∈ messages, m.role = .user := by
  intro m hm
  cases h with
  | cut within joined => exact (within m hm).1
  | given within => exact (within m hm).1
  | whole user content =>
      rw [List.mem_singleton.mp hm]
      exact user

end Section.Shown

/-- A message from the system with the instructions, if there are any. -/
def Message.Instructs (instructions : Option String) (messages : List Message) : Prop :=
  messages.map (fun m => (m.role, m.content)) = instructions.toList.map (Role.system, ·)

/--
Whether messages are a request with these sections.  The instructions come first, and all that
follows them is from the user.
-/
structure Composed (budget : Text.Budget) (instructions : Option String)
    (sections : List Section) (messages : List Message) : Prop where
  nonempty : ∀ m ∈ messages, m.content ≠ ""
  others : ∀ m ∈ messages.tail, m.role = .user
  split : ∃ first groups, messages = first ++ groups.flatten ∧
    Message.Instructs instructions first ∧
      List.Forall₂ (Section.Shown budget) sections groups

namespace Composed

variable {budget : Text.Budget} {instructions : Option String} {sections : List Section}
  {first : List Message} {groups : List (List Message)}

theorem user_of_mem_flatten (h : List.Forall₂ (Section.Shown budget) sections groups) :
    ∀ m ∈ groups.flatten, m.role = .user := by
  induction h with
  | nil => simp
  | cons hshown hothers ih =>
      intro m hm
      rw [List.flatten_cons, List.mem_append] at hm
      exact hm.elim (hshown.user m) (ih m)

theorem of_split (hfirst : Message.Instructs instructions first)
    (hgroups : List.Forall₂ (Section.Shown budget) sections groups) :
    Composed budget instructions sections (first ++ groups.flatten) where
  nonempty := fun m _ => m.nonempty
  others := by
    have hlength : first.length ≤ 1 := by
      have hlengths := congrArg List.length hfirst
      simp only [List.length_map, Option.length_toList] at hlengths
      split at hlengths <;> omega
    intro m hm
    apply user_of_mem_flatten hgroups
    cases first with
    | nil => exact List.mem_of_mem_tail hm
    | cons m' first =>
        have hnone : first = [] := List.eq_nil_of_length_eq_zero (by simpa using hlength)
        rw [hnone] at hm
        exact hm
  split := ⟨first, groups, rfl, hfirst, hgroups⟩

end Composed

theorem Message.instructs_of_exists {text : String}
    (h : ∃ m, system? text = some m ∧ m.content = text) :
    Instructs (some text) (system? text).toList := by
  obtain ⟨m, hm, hcontent⟩ := h
  have hrole : m.role = .system := by
    rw [system?, Option.map_eq_some_iff] at hm
    obtain ⟨content, -, rfl⟩ := hm
    rfl
  rw [Instructs, hm]
  simp [hrole, hcontent]

theorem Message.exists_followUp (a : Annotation) :
    ∃ m, system? (Prompt.followUp a) = some m ∧ m.content = Prompt.followUp a :=
  exists_system? (Prompt.getElem?_ofLines (c := 'Y') (by simp) _ _) (by decide)

/-! ## Documents -/

/-- A document as it is opened, and which parts were asked to be visible, one after the other. -/
structure Opened where
  id : String
  text : String
  asked : List (Nat × Nat) := []

namespace Opened

def document (o : Opened) : Document :=
  (Document.ofText o.id o.text).marked o.asked

def rows (o : Opened) (scope : Scope) : String :=
  String.join ((scope.selected o.asked o.document.lineCount).map fun n =>
    Text.numberedRow n ((o.document.line? n).getD ""))

theorem rows_document (o : Opened) (scope : Scope) : o.document.rows scope = o.rows scope := by
  rw [rows, document, ← Document.map_fst_linesIn_rangeOf, Document.rows,
    Document.numberLines_linesIn (Document.one_le_rangeOf o.id o.text o.asked scope), List.map_map]
  congr 1
  refine List.map_congr_left fun r hr => ?_
  rw [Function.comp_apply, Document.line?_of_mem_linesIn hr, Option.getD_some]

theorem shown_messages (o : Opened) (scope : Scope) (budget : Text.Budget) :
    Section.Shown budget (.cut (o.rows scope)) (o.document.messages scope budget) := by
  rw [Document.messages, rows_document]
  exact .chunked _ _

end Opened

/-! ## Requests -/

theorem Requirements.shown_messages (r : Requirements) (budget : Text.Budget) :
    Section.Shown budget (.cut (r.payload?.getD "")) (r.messages budget) := by
  rw [messages]
  cases r.payload? with
  | none => exact .nil
  | some payload => exact .chunked payload budget

/-- What a choice of files leads to is within the budget of the choice. -/
theorem FileChoice.within_gather (r : Reviewer) (library : Library) (d : Document)
    (isCancelled : Bool) (x : Model.Exchange) (wakes : List Bool) :
    Message.Within r.settings.budget (gather r library d isCancelled x wakes).messages := by
  cases gathered r library d isCancelled x wakes with
  | whole answered reads messages =>
      rw [messages, fileMessages]
      intro m hm
      obtain ⟨path, -, hfile⟩ := List.mem_flatMap.mp hm
      split at hfile
      · cases hfile
      · exact Message.within_chunked _ _ m hfile
  | nothing hnone reads messages =>
      rw [messages]
      exact fun m hm => absurd hm List.not_mem_nil

theorem Reviewer.composed_messages (r : Reviewer) (o : Opened) {files : List Message}
    (h : Message.Within r.settings.budget files) :
    Composed r.settings.budget (some Prompt.review)
      [.cut (r.requirements.payload?.getD ""), .given files, .cut (o.rows r.settings.scope)]
      (r.messages o.document files) := by
  have hgroups := List.Forall₂.cons (r.requirements.shown_messages r.settings.budget)
    (.cons (.given h) (.cons (o.shown_messages r.settings.scope r.settings.budget) .nil))
  have hcomposed := Composed.of_split (Message.instructs_of_exists Message.exists_review) hgroups
  simpa [messages] using hcomposed

theorem FileChoice.composed_messages (r : Reviewer) (o : Opened) (offered : List String) :
    Composed r.settings.budget (some Prompt.fileChoice)
      [.cut (o.rows .document), .whole Prompt.endOfCode,
        .cut (String.intercalate "\n" offered)]
      (messages r o.document offered) := by
  have hmark : Section.Shown r.settings.budget (.whole Prompt.endOfCode)
      (Message.user? Prompt.endOfCode).toList := by
    rw [Message.user?_eq (by decide)]
    exact .whole rfl rfl
  have hgroups := List.Forall₂.cons (o.shown_messages .document r.settings.budget)
    (.cons hmark (.cons (.chunked (String.intercalate "\n" offered) r.settings.budget) .nil))
  have hcomposed :=
    Composed.of_split (Message.instructs_of_exists Message.exists_fileChoice) hgroups
  simpa [messages] using hcomposed

theorem FollowUp.foldl_turnTo (contexts : List Annotation) :
    contexts.foldl FollowUp.turnTo {} = ⟨contexts.getLast?⟩ := by
  cases contexts using List.reverseRecOn with
  | nil => rfl
  | append_singleton contexts a =>
      rw [List.foldl_append, List.getLast?_concat]
      rfl

theorem FollowUp.composed_messages (r : Reviewer) (current : Option Annotation)
    (question : NonBlank) {files : List Message} (h : Message.Within r.settings.budget files)
    (document : Option Opened) :
    let rows := document.map fun o => o.document.messages r.settings.scope r.settings.budget
    Composed r.settings.budget (current.map Prompt.followUp)
      [.given files, .cut ((document.map (·.rows r.settings.scope)).getD ""),
        .whole question.text]
      (FollowUp.messages ⟨current⟩ question files (rows.getD [])) := by
  intro rows
  have hrows : Section.Shown r.settings.budget
      (.cut ((document.map (·.rows r.settings.scope)).getD "")) (rows.getD []) := by
    cases document with
    | none => exact .nil
    | some o => exact o.shown_messages r.settings.scope r.settings.budget
  have hfirst : Message.Instructs (current.map Prompt.followUp)
      (current.bind fun a => Message.system? (Prompt.followUp a)).toList := by
    cases current with
    | none => rfl
    | some a =>
        rw [Option.map_some, Option.bind_some]
        exact Message.instructs_of_exists (Message.exists_followUp a)
  have hquestion : Section.Shown r.settings.budget (.whole question.text)
      [.ofNonBlank .user question] := .whole rfl rfl
  have hgroups := List.Forall₂.cons (.given h) (.cons hrows (.cons hquestion .nil))
  have hcomposed := Composed.of_split hfirst hgroups
  simpa [messages] using hcomposed

theorem FollowUp.requests_ask (f : FollowUp) {r : Reviewer} {model : Nat}
    (h : r.model? = some model) (question : NonBlank) (files : List Message)
    (document : Option Document) (token : Model.Token) (x : Model.Exchange) :
    let rows := (document.map (·.messages r.settings.scope r.settings.budget)).getD []
    (f.ask r question files document token x).2.requests =
      x.requests ++ [⟨model, f.messages question files rows, token⟩] := by
  simp only [ask, h, Model.Exchange.send_eq]
  cases x.answer 0 with
  | _ => rfl

/--
Every request is composed of its sections, whole and in order: instructions, requirements, the
files that were chosen, and the selected rows of the document for a review; instructions, all
rows, a mark and the paths on offer for a choice of files; instructions about the annotation
that was turned to last, files, rows and the question for a conversation.  Files go along as
they were gathered under the same settings.
-/
theorem requests_composed (r g : Reviewer) (o : Opened) (library : Library) (d : Document)
    (isCancelled : Bool) (x : Model.Exchange) (wakes : List Bool) :
    let budget := r.settings.budget
    let files := (FileChoice.gather { g with settings := r.settings } library d isCancelled x
      wakes).messages
    Composed budget (some Prompt.review)
      [.cut (r.requirements.payload?.getD ""), .given files, .cut (o.rows r.settings.scope)]
      (r.messages o.document files) ∧
    (∀ offered, Composed budget (some Prompt.fileChoice)
      [.cut (o.rows .document), .whole Prompt.endOfCode, .cut (String.intercalate "\n" offered)]
      (FileChoice.messages r o.document offered)) ∧
    ∀ (contexts : List Annotation) question (document : Option Opened) token x',
      let asked := (contexts.foldl FollowUp.turnTo {}).ask r question files
        (document.map (·.document)) token x'
      (r.model? = none → asked = (.error .noModelAvailable, x')) ∧
      ∀ model, r.model? = some model → ∃ messages,
        asked.2.requests = x'.requests ++ [⟨model, messages, token⟩] ∧
        Composed budget (contexts.getLast?.map Prompt.followUp)
          [.given files, .cut ((document.map (·.rows r.settings.scope)).getD ""),
            .whole question.text]
          messages := by
  intro budget files
  have hfiles : Message.Within budget files :=
    FileChoice.within_gather { g with settings := r.settings } library d isCancelled x wakes
  refine ⟨r.composed_messages o hfiles, FileChoice.composed_messages r o, ?_⟩
  intro contexts question document token x' asked
  have hasked : asked = FollowUp.ask ⟨contexts.getLast?⟩ r question files
      (document.map (·.document)) token x' := by
    rw [← FollowUp.foldl_turnTo]
  constructor
  · intro hnone
    rw [hasked, FollowUp.ask, hnone]
  · intro model hmodel
    have hcomposed := FollowUp.composed_messages r contexts.getLast? question hfiles document
    refine ⟨_, ?_, hcomposed⟩
    rw [hasked, FollowUp.requests_ask _ hmodel, Option.map_map]
    rfl

/--
With eight characters to a message, a file that was chosen and a document of two lines: a review,
a choice of files, and a conversation that turned from one annotation to another.
-/
theorem requests_composed_turned :
    let settings : ReviewSettings := { budget := ⟨8, by decide⟩ }
    let r : Reviewer :=
      { catalog := ⟨[⟨"test", "scripted"⟩]⟩, requirements := ⟨"no \"unsafe\""⟩, settings }
    let o : Opened := { id := "main.rs", text := "fn main()\n  run();" }
    let files :=
      (FileChoice.gather r quotedLibrary o.document false quotedExchange [false]).messages
    let first : Annotation := ⟨3, "Is this bound right?", .red, "red"⟩
    let second : Annotation := ⟨9, "Could this be shorter?", .green, "green"⟩
    let f := [first, second].foldl FollowUp.turnTo {}
    let rows := "1: fn main() \n2:   run(); \n"
    files.flatMap (·.content.toList) =
        (FileChoice.payload "a\"b.rs" "let s = \"\\\t\";").toList ∧
      Composed settings.budget (some Prompt.review)
        [.cut "\x7b\"projectRequirements\":\"no \\\"unsafe\\\"\"\x7d", .given files, .cut rows]
        (r.messages o.document files) ∧
      Composed settings.budget (some Prompt.fileChoice)
        [.cut rows, .whole Prompt.endOfCode, .cut "c.rs\na\"b.rs"]
        (FileChoice.messages r o.document ["c.rs", "a\"b.rs"]) ∧
      ∃ messages,
        (f.ask r ⟨"why?", by decide⟩ files (some o.document) 0 {}).2.requests =
          [⟨0, messages, 0⟩] ∧
        Composed settings.budget (some (Prompt.followUp second))
          [.given files, .cut rows, .whole "why?"] messages := by
  intro settings r o files first second f rows
  have hrows : o.rows .document = rows := by decide +kernel
  have hrequirements : r.requirements.payload? =
      some "\x7b\"projectRequirements\":\"no \\\"unsafe\\\"\"\x7d" := by
    decide +kernel
  have hfiles : files.flatMap (·.content.toList) =
      (FileChoice.payload "a\"b.rs" "let s = \"\\\t\";").toList := by
    have hmodel : r.model?.isSome = true := by decide +kernel
    obtain ⟨text, hanswered, hselect⟩ :=
      FileChoice.exists_answered_quoted hmodel (rfl : o.document.id = "main.rs")
    have hmessages : files = Message.chunked
        (FileChoice.payload "a\"b.rs" "let s = \"\\\t\";") settings.budget ++ [] := by
      rw [show files = _ from hanswered.messages, hselect]
      rfl
    rw [hmessages, List.append_nil, Message.flatMap_chunked]
  obtain ⟨hreview, hchoice, hasked⟩ :=
    requests_composed r r o quotedLibrary o.document false quotedExchange [false]
  obtain ⟨messages, hrequests, hmessages⟩ :=
    (hasked [first, second] ⟨"why?", by decide⟩ (some o) 0 {}).2 0 (by decide +kernel)
  rw [hrequirements] at hreview
  refine ⟨hfiles, ?_, ?_, messages, hrequests, ?_⟩
  · rw [← hrows]
    exact hreview
  · rw [← hrows]
    exact hchoice ["c.rs", "a\"b.rs"]
  · rw [← hrows]
    exact hmessages

end Marginalia
