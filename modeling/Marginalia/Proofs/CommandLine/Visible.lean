import Marginalia.Proofs.CommandLine.Reviewed
import Marginalia.Proofs.Numbering
import Marginalia.Proofs.Workspace.Disk

/-!
# Reviews of a range of lines

A range of lines that is given on the command line marks these lines as visible.  They are
reviewed and no others when the settings say that the visible part is reviewed; otherwise all
lines of the document are.
-/

namespace Marginalia

/-- The lines that are selected when a single range is asked for that is not empty. -/
theorem Scope.selected_singleton (scope : Scope) {first last count : Nat} (hfirst : 1 ≤ first)
    (hlast : first ≤ last) :
    scope.selected [(first, last)] count =
      if scope = .visible ∧ first ≤ count then
        List.range' first (min last count + 1 - first)
      else List.range' 1 count := by
  cases scope with
  | document => rfl
  | visible =>
      simp only [selected, List.getLast?_singleton, filter_range'_eq hfirst, true_and,
        List.range'_eq_nil_iff]
      by_cases hcount : first ≤ count
      · rw [if_neg (by omega), if_pos hcount]
      · rw [if_pos (by omega), if_neg hcount]

/-- A service that is used by settings is the one that they select. -/
theorem Settings.matches_service {settings : Settings} {e : Environment} {service : Chat.Service}
    (h : settings.service e = .ok service) :
    settings.reviewSettings.criteria.matches service.identity = true := by
  simp only [Settings.service] at h
  split at h
  · cases h
  · cases h
    simp [Model.Criteria.matches, Model.accepts, reviewSettings, Chat.Service.identity,
      Text.sameIgnoringCase_refl]

namespace CommandLine

theorem exists_openDocument {d : Disk} {path : String} {document : Document}
    (h : openDocument d path = .ok document) : ∃ id text, document = .ofText id text := by
  unfold openDocument at h
  split at h
  · cases h
  · dsimp only at h
    split at h
    · cases h
    · cases h
      exact ⟨_, _, rfl⟩

theorem requests_exchangeWith (w : Surroundings) (service : Chat.Service) (endpoint : Url) :
    (exchangeWith w service endpoint).requests = [] := by
  unfold exchangeWith
  dsimp only
  split
  · rfl
  · split
    · rfl
    · rfl

def Surroundings.logged (w : Surroundings) : Surroundings :=
  { w with disk := (Log.start w.disk w.environment).1 }

/-- A review of a range of lines, with all that a run has read for it; its requests are sent. -/
structure RangeReview (w : Surroundings) (words : List String) where
  config : Option String
  file : String
  severity : Option Severity
  range : LineRange
  source : RequirementsSource
  settings : Settings
  requirements : Requirements
  document : Document
  service : Chat.Service
  endpoint : Url
  parsed : parse words = .ok ⟨config, .annotate file severity (some range) source⟩
  configured : loadSettings w.logged config = .ok settings
  required : loadRequirements w.logged.disk source = .ok requirements
  opened : openDocument w.logged.disk file = .ok document
  served : settings.service w.environment = .ok service
  addressed : service.endpoint = .ok endpoint
  allowed : service.refusal? endpoint = none
  direct : isDiverted w endpoint = false

namespace RangeReview

variable {w : Surroundings} {words : List String}

def desk (r : RangeReview w words) : Desk :=
  { document := narrow r.document (some r.range)
    setup :=
      { reviewer :=
          { catalog := ⟨[r.service.identity]⟩, requirements := r.requirements
            settings := r.settings.reviewSettings }
        palette := r.settings.palette
        library :=
          if r.settings.choosesFiles then
            some ((workspaceHere w.logged.disk).library w.logged.disk w.environment)
          else none }
    service := r.service
    endpoint := r.endpoint
    isReached := true
    exchange := exchangeWith w.logged r.service r.endpoint }

theorem posts_run (r : RangeReview w words) :
    (run w words).posts = (r.desk.annotate r.severity).posts := by
  have hprepare : prepare w.logged r.settings r.file (some r.range) r.source = .ok r.desk := by
    have hserved : r.settings.service w.logged.environment = .ok r.service := r.served
    have hdirect : isDiverted w.logged r.endpoint = false := r.direct
    simp only [prepare, bind, Except.bind, Except.mapError, r.required, r.opened, hserved,
      r.addressed, r.allowed, hdirect]
    rfl
  have hcarried : carryOut w.logged ⟨r.config, .annotate r.file r.severity (some r.range)
      r.source⟩ = r.desk.annotate r.severity := by
    simp only [carryOut, r.configured]
    show orFault (prepare w.logged r.settings r.file (some r.range) r.source >>= _) = _
    rw [hprepare]
    rfl
  rw [run, r.parsed]
  exact congrArg Performance.posts hcarried

theorem model?_desk (r : RangeReview w words) : r.desk.setup.reviewer.model? = some 0 := by
  have hmatches := Settings.matches_service r.served
  simp [Reviewer.model?, Model.Catalog.select?, desk, List.findIdx?_cons, hmatches]

def part (r : RangeReview w words) : List Message :=
  (narrow r.document (some r.range)).messages r.settings.reviewSettings.scope
    r.settings.reviewSettings.budget

theorem exists_rows (r : RangeReview w words) :
    ∃ rows : List (Nat × String),
      Text.partsAt '\n' (r.part.flatMap (·.content.toList)) =
          rows.map (fun row => Text.row row.1 row.2) ++ [[]] ∧
        rows.map (·.1) =
            (if r.settings.reviewSettings.scope = .visible ∧
                r.range.first ≤ r.document.lineCount then
              List.range' r.range.first
                (min r.range.last r.document.lineCount + 1 - r.range.first)
            else List.range' 1 r.document.lineCount) ∧
          ∀ row ∈ rows, r.document.line? row.1 = some row.2 := by
  obtain ⟨id, text, hdocument⟩ := exists_openDocument r.opened
  obtain ⟨rows, hparts, hnumbers, -, hline⟩ := Document.exists_rows id text
    [(r.range.first, r.range.last)] r.settings.reviewSettings.scope
    r.settings.reviewSettings.budget
  rw [Scope.selected_singleton _ r.range.one_le_first r.range.first_le_last,
    ← hdocument] at hnumbers
  rw [← hdocument] at hparts hline
  exact ⟨rows, (hparts rows).mpr rfl, hnumbers, hline⟩

/-- What is posted: some requests for no review, and at most one for a review. -/
theorem exists_posts (r : RangeReview w words) :
    ∃ choices reviews : List (List Message),
      (run w words).posts = (choices ++ reviews).map (r.service.post r.endpoint) ∧
        (∀ messages ∈ choices, messages.head? ≠ Message.system? Prompt.review) ∧
          (∀ messages ∈ reviews, ∃ fileContext, messages =
            (Message.system? Prompt.review).toList ++
              r.requirements.messages r.settings.reviewSettings.budget ++ fileContext ++ r.part) ∧
            reviews.length ≤ 1 ∧
              (r.settings.choosesFiles = false ∨
                ((exchangeWith w.logged r.service r.endpoint).answer 0).isHeard = true →
                  reviews.length = 1) := by
  obtain ⟨choices, reviews, hrequests, hrequested⟩ :=
    r.desk.review_requested r.model?_desk r.severity
  have hnone : r.desk.exchange.requests = [] := requests_exchangeWith ..
  rw [hnone, List.nil_append] at hrequests
  refine ⟨choices.map (·.messages), reviews.map (·.messages), ?_, ?_, ?_, ?_, ?_⟩
  · have hposts : (r.desk.annotate r.severity).posts =
        (r.desk.review r.severity).1.exchange.requests.map
          fun request => r.service.post r.endpoint request.messages := rfl
    rw [r.posts_run, hposts, hrequests, ← List.map_append, List.map_map]
    rfl
  · intro messages hmem
    obtain ⟨request, hrequest, rfl⟩ := List.mem_map.mp hmem
    exact beq_eq_false_iff_ne.mp (hrequested.others request hrequest)
  · intro messages hmem
    obtain ⟨request, hrequest, rfl⟩ := List.mem_map.mp hmem
    exact hrequested.shown request hrequest
  · rw [List.length_map]
    exact hrequested.single
  · intro hheard
    rw [List.length_map]
    refine hrequested.heard (hheard.imp_left fun hnever => ?_)
    show (if r.settings.choosesFiles then _ else none) = none
    rw [hnever]
    rfl

end RangeReview

/-! ## A document of two lines -/

/-- Settings that say which part is reviewed only when it is not the whole document. -/
def pairText (scope : Scope) : String :=
  "[model]\nbase_url = \"http://[::1]/v1\"\n[annotate]\ncontext_files = false\n" ++
    match scope with
    | .document => ""
    | .visible => "scope = \"visible\"\n"

def pairSettings (scope : Scope) : Settings :=
  { model := some { base := some "http://[::1]/v1" }
    review := some { scope, choosesFiles := false } }

/-- A directory with settings and a document, where no log can be had. -/
def pairDisk (scope : Scope) : Disk :=
  { root := .directory [("work", .directory
      [(".tutor", .file ByteArray.empty), ("config.toml", .file (pairText scope).toUTF8),
        ("main.rs", .file "a\nb\n".toUTF8)])]
    here := ["work"] }

def pairSurroundings (scope : Scope) : Surroundings :=
  { disk := pairDisk scope }

def pairWords : List String :=
  ["annotate", "main.rs", "--visible", "1:1", "--config", "config.toml"]

def pairDocument : Document :=
  { id := "main.rs", lines := ["a", "b"] }

def loopback (path : String) : Url :=
  { scheme := "http".toList
    authority := some { user := [], password := [], host := "[::1]".toList, port := none }
    path := .rooted path.toList }

def pairService : Chat.Service :=
  { base := loopback "/v1", model := Settings.defaultModel }

def pairEndpoint : Url :=
  loopback "/v1/chat/completions"

section

variable (scope : Scope)

theorem startOf_pairDisk {path : String} (h : path.startsWith "/" = false) :
    (pairDisk scope).startOf path = ["work"] := by
  rw [Disk.startOf, h]
  rfl

theorem logged_pair : (pairSurroundings scope).logged = pairSurroundings scope := by
  have hsteps : Disk.stepsOf Log.fallback = [".tutor", "logs"] := by decide +kernel
  have hfollow : Disk.follow (pairDisk scope).root false Disk.maxLinks ["work"] [".tutor"] =
      .ok ["work", ".tutor"] :=
    Disk.follow_of_leads rfl false Disk.maxLinks
  have hplace : (pairDisk scope).root.at? ["work", ".tutor"] = some (.file ByteArray.empty) := rfl
  have hlog : Log.start (pairDisk scope) {} = (pairDisk scope, none) := by
    have hdirectories : Log.directories {} = [Log.fallback] := rfl
    simp only [Log.start, hdirectories, Log.openFirst, Disk.ensureFile, hsteps,
      startOf_pairDisk scope (by decide +kernel : Log.fallback.startsWith "/" = false),
      Disk.makeDirectories, hfollow, hplace]
  exact congrArg (fun log : Disk × Option (List String) => ({ disk := log.1 } : Surroundings)) hlog

theorem loadSettings_pair :
    loadSettings (pairSurroundings scope) (some "config.toml") = .ok (pairSettings scope) := by
  have hlocate : (pairDisk scope).locate "config.toml" = .ok ["work", "config.toml"] :=
    Disk.locate_of_leads (by decide +kernel) (startOf_pairDisk scope (by decide +kernel))
      (by decide +kernel : _ = ["config.toml"]) rfl
  have hread : (pairDisk scope).readText "config.toml" = .ok (pairText scope) :=
    Disk.readText_of_locate hlocate rfl
  have hparse : Settings.parse? (pairText scope) = some (pairSettings scope) := by
    cases scope with
    | document => decide +kernel
    | visible => decide +kernel
  simp only [loadSettings, pairSurroundings, Settings.read, hread, hparse]

theorem openDocument_pair : openDocument (pairDisk scope) "main.rs" = .ok pairDocument := by
  have hlocate : (pairDisk scope).locate "main.rs" = .ok ["work", "main.rs"] :=
    Disk.locate_of_leads (by decide +kernel) (startOf_pairDisk scope (by decide +kernel))
      (by decide +kernel : _ = ["main.rs"]) rfl
  have hfull : Disk.pathTo ["work", "main.rs"] = "/work/main.rs" := by decide +kernel
  have hroot : (pairDisk scope).startOf "/work/main.rs" = [] := by
    rw [Disk.startOf, if_pos (by decide +kernel)]
  have hfound : (pairDisk scope).locate "/work/main.rs" = .ok ["work", "main.rs"] :=
    Disk.locate_of_leads (by decide +kernel) hroot
      (by decide +kernel : _ = ["work", "main.rs"]) rfl
  have hread : (pairDisk scope).readText "/work/main.rs" = .ok "a\nb\n" :=
    Disk.readText_of_locate hfound rfl
  have hname : (workspaceHere (pairDisk scope)).relativePath? "/work/main.rs" = some "main.rs" := by
    show (Workspace.mk (Disk.pathTo ["work"])).relativePath? "/work/main.rs" = some "main.rs"
    decide +kernel
  have hlines : Document.ofText "main.rs" "a\nb\n" = pairDocument := by decide +kernel
  simp only [openDocument, hlocate, hfull, hread, hname, Option.getD_some, hlines]

theorem eq_ok_of_toOption {ε α : Type} {x : Except ε α} {a : α} (h : x.toOption = some a) :
    x = .ok a := by
  cases x with
  | error e => cases h
  | ok b => exact congrArg Except.ok (Option.some.inj h)

/-- The first line of the document is asked for. -/
def pairReview : RangeReview (pairSurroundings scope) pairWords where
  config := some "config.toml"
  file := "main.rs"
  severity := none
  range := ⟨1, 1, Nat.le_refl 1, Nat.le_refl 1⟩
  source := .none
  settings := pairSettings scope
  requirements := {}
  document := pairDocument
  service := pairService
  endpoint := pairEndpoint
  parsed := eq_ok_of_toOption (by decide +kernel)
  configured := by rw [logged_pair, loadSettings_pair]
  required := rfl
  opened := by
    rw [logged_pair]
    exact openDocument_pair scope
  served := by
    cases scope with
    | document => exact eq_ok_of_toOption (by decide +kernel)
    | visible => exact eq_ok_of_toOption (by decide +kernel)
  addressed := eq_ok_of_toOption (by decide +kernel)
  allowed := by decide +kernel
  direct := (by decide +kernel : Chat.Proxy.isUsed {} pairEndpoint = false)

theorem requirements_pairReview (budget : Text.Budget) :
    (pairReview scope).requirements.messages budget = [] := rfl

end

theorem exists_mem_posts {α β γ : Type} {post : β → γ} {shown : α → β} {posts : List γ}
    {choices reviews : List β} (hposts : posts = (choices ++ reviews).map post)
    (hreviews : ∀ messages ∈ reviews, ∃ fileContext, messages = shown fileContext)
    (hasked : reviews.length = 1) : ∃ fileContext, post (shown fileContext) ∈ posts := by
  obtain ⟨messages, rfl⟩ := List.length_eq_one_iff.mp hasked
  obtain ⟨fileContext, rfl⟩ := hreviews messages (List.mem_singleton_self messages)
  refine ⟨fileContext, ?_⟩
  rw [hposts]
  exact List.mem_map_of_mem (List.mem_append_right choices (List.mem_singleton_self _))

/-! ## The lines that are reviewed -/

/--
The requests of a run that reviews a range of lines are at most one for a review, and some that
are for none.  The review is asked for in any case if no files are chosen, or if the reply to
that choice is heard to its end.  Its last messages are the rows of all lines of the range that
the document has if the visible part is reviewed and the document has any of them, and those
of all lines otherwise.
-/
theorem RangeReview.reviews_lines {w : Surroundings} {words : List String}
    (r : RangeReview w words) :
    (∃ rows : List (Nat × String),
      Text.partsAt '\n' (r.part.flatMap (·.content.toList)) =
          rows.map (fun row => Text.row row.1 row.2) ++ [[]] ∧
        rows.map (·.1) =
            (if r.settings.reviewSettings.scope = .visible ∧
                r.range.first ≤ r.document.lineCount then
              List.range' r.range.first
                (min r.range.last r.document.lineCount + 1 - r.range.first)
            else List.range' 1 r.document.lineCount) ∧
          ∀ row ∈ rows, r.document.line? row.1 = some row.2) ∧
      ∃ choices reviews : List (List Message),
        (run w words).posts = (choices ++ reviews).map (r.service.post r.endpoint) ∧
          (∀ messages ∈ choices, messages.head? ≠ Message.system? Prompt.review) ∧
            (∀ messages ∈ reviews, ∃ fileContext, messages =
              (Message.system? Prompt.review).toList ++
                r.requirements.messages r.settings.reviewSettings.budget ++ fileContext ++
                  r.part) ∧
              reviews.length ≤ 1 ∧
                (r.settings.choosesFiles = false ∨
                  ((exchangeWith w.logged r.service r.endpoint).answer 0).isHeard = true →
                    reviews.length = 1) :=
  ⟨r.exists_rows, r.exists_posts⟩

/-- When the settings say so, the first line alone is reviewed. -/
theorem reviews_first_line :
    ∃ fileContext, pairService.post pairEndpoint ((Message.system? Prompt.review).toList ++
        fileContext ++ [⟨.user, "1: a \n", by decide⟩]) ∈
      (run (pairSurroundings .visible) pairWords).posts := by
  obtain ⟨-, choices, reviews, hposts, -, hreviews, -, hasked⟩ :=
    (pairReview .visible).reviews_lines
  obtain ⟨fileContext, hmem⟩ := exists_mem_posts hposts hreviews (hasked (.inl rfl))
  have hpart : (pairReview .visible).part = [⟨.user, "1: a \n", by decide⟩] := by decide +kernel
  rw [requirements_pairReview, List.append_nil, hpart] at hmem
  exact ⟨fileContext, hmem⟩

/--
When they leave out the scope, the second line is reviewed too, although only the first one is
asked for.
-/
theorem reviews_beyond_range :
    parse pairWords = .ok ⟨some "config.toml", .annotate "main.rs" none
        (some ⟨1, 1, Nat.le_refl 1, Nat.le_refl 1⟩) .none⟩ ∧
      ∃ fileContext, pairService.post pairEndpoint ((Message.system? Prompt.review).toList ++
          fileContext ++ [⟨.user, "1: a \n2: b \n", by decide⟩]) ∈
        (run (pairSurroundings .document) pairWords).posts := by
  obtain ⟨choices, reviews, hposts, -, hreviews, -, hasked⟩ := (pairReview .document).exists_posts
  obtain ⟨fileContext, hmem⟩ := exists_mem_posts hposts hreviews (hasked (.inl rfl))
  have hpart : (pairReview .document).part = [⟨.user, "1: a \n2: b \n", by decide⟩] := by
    decide +kernel
  rw [requirements_pairReview, List.append_nil, hpart] at hmem
  exact ⟨(pairReview .document).parsed, fileContext, hmem⟩

end CommandLine

end Marginalia
