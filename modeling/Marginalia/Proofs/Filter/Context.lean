import Marginalia.Proofs.Filter.Collapse
import Marginalia.Proofs.Filter.Outcome
import Marginalia.Proofs.Filter.Reached

/-!
# The file context that a filter keeps

A pass takes over the messages that its choice of files gives before it is known whether it
will ask for a review.  So a filter keeps the file context of the last review that was asked
for, unless a later pass came to the end of its choice and then asked for none: because it
was cancelled, or because there was no document any more.
-/

namespace Marginalia

/-! ## What a pass takes over -/

/-- The messages that a choice gives, and whether it was cancelled, once it has ended. -/
def FileChoice.given? (r : Reviewer) (library : Library) (choice : FileChoice) :
    Option (List Message × Bool) :=
  match choice.advance with
  | .complete reply isCancelled => some ((conclude r library choice.offered reply).1, isCancelled)
  | .abandoned isCancelled => some ([], isCancelled)
  | .waiting _ _ => none

/-- The messages that a pass takes over when it goes on, if that ends its choice of files. -/
def Pass.gathered? (setup : FilterSetup) (library : Library) (s : Session) (p : Pass) :
    Option (List Message) :=
  match p.phase, s.document with
  | .opening, some d =>
      match (FileChoice.start setup.reviewer library d p.token p.isCancelled s.exchange).1 with
      | .nothing => some []
      | .reading choice => (choice.given? setup.reviewer library).map (·.1)
  | .choosing choice, _ => (choice.given? setup.reviewer library).map (·.1)
  | _, _ => none

/-- Whether a session came from another one without asking for a review. -/
def Session.AsksNone (s s' : Session) : Prop :=
  ∃ made, s'.exchange.requests = s.exchange.requests ++ made ∧
    ∀ r ∈ made, r.asksForReview = false

namespace Session.AsksNone

variable {s s' s'' : Session}

theorem of_eq (h : s'.exchange.requests = s.exchange.requests) : s.AsksNone s' :=
  ⟨[], by rw [h, List.append_nil], by simp⟩

theorem trans (h : s.AsksNone s') (h' : s'.AsksNone s'') : s.AsksNone s'' := by
  obtain ⟨made, hmade, hreviews⟩ := h
  obtain ⟨made', hmade', hreviews'⟩ := h'
  refine ⟨made ++ made', ?_, List.forall_mem_append.mpr ⟨hreviews, hreviews'⟩⟩
  rw [hmade', hmade, List.append_assoc]

end Session.AsksNone

/-- Whether a session keeps the file context of another one, and no review was asked for since. -/
structure Session.Keeps (s s' : Session) : Prop where
  context : s'.filter.fileContext = s.filter.fileContext
  asksNone : s.AsksNone s'

namespace Session.Keeps

variable {s s' s'' : Session}

theorem of_eq (hcontext : s'.filter.fileContext = s.filter.fileContext)
    (hrequests : s'.exchange.requests = s.exchange.requests) : s.Keeps s' :=
  ⟨hcontext, .of_eq hrequests⟩

theorem refl (s : Session) : s.Keeps s :=
  .of_eq rfl rfl

theorem trans (h : s.Keeps s') (h' : s'.Keeps s'') : s.Keeps s'' :=
  ⟨h'.context.trans h.context, h.asksNone.trans h'.asksNone⟩

end Session.Keeps

theorem Review.start_sends {r : Reviewer} {model : Nat} (hmodel : r.model? = some model)
    (d : Document) (fileContext : List Message) (color : String) (signal : Signal)
    (token : Model.Token) (isCancelled : Bool) (x : Model.Exchange) :
    (start r (some d) fileContext color signal token isCancelled x).2.requests =
      x.requests ++ [⟨model, r.messages d fileContext, token⟩] := by
  simp only [start, hmodel, Model.Exchange.send_eq]
  cases x.answer 0 with
  | _ => rfl

namespace Pass

variable {setup : FilterSetup} {library : Library} {s s' : Session} {p : Pass}
  {next : Session × Pass}

/-- A pass that asks for a review of the active document, with a file context. -/
def Submits (setup : FilterSetup) (s : Session) (p : Pass) (context : List Message)
    (next : Session × Pass) : Prop :=
  ∃ d model earlier, s.document = some d ∧ (∀ r ∈ earlier, r.asksForReview = false) ∧
    next.1.exchange.requests = s.exchange.requests ++ earlier ++
      [⟨model, setup.reviewer.messages d context, p.token⟩]

/-- A pass that is over without having asked for a review: cancelled, or without a document. -/
structure Forfeits (s : Session) (next : Session × Pass) : Prop where
  asksNone : s.AsksNone next.1
  isOver : next.2.isOver = true
  reason : next.2.isCancelled = true ∨ s.document = none

theorem Submits.behind {context : List Message} (h : Submits setup s' p context next)
    (hdocument : s'.document = s.document) (hasksNone : s.AsksNone s') :
    Submits setup s p context next := by
  obtain ⟨d, model, earlier, hd, hreviews, hrequests⟩ := h
  obtain ⟨made, hmade, hreviews'⟩ := hasksNone
  have hall := List.forall_mem_append.mpr ⟨hreviews', hreviews⟩
  refine ⟨d, model, made ++ earlier, hdocument ▸ hd, hall, ?_⟩
  rw [hrequests, hmade]
  simp only [List.append_assoc]

theorem Forfeits.behind (h : Forfeits s' next) (hdocument : s'.document = s.document)
    (hasksNone : s.AsksNone s') : Forfeits s next :=
  ⟨hasksNone.trans h.asksNone, h.isOver, hdocument ▸ h.reason⟩

theorem openReview_starts (setup : FilterSetup) (s : Session) (p : Pass) :
    let started := Review.start setup.reviewer s.document s.filter.fileContext
      (setup.palette.colorFor p.signal) p.signal p.token false s.exchange
    let opened := openReview setup s p false
    opened.1.exchange = started.2 ∧ opened.1.filter.fileContext = s.filter.fileContext := by
  intro started opened
  cases hstart : started with
  | mk result exchange =>
      cases result with
      | error failure =>
          obtain ⟨-, hexchange, hcontext, -⟩ :=
            close_conclude { s with exchange } p (.error failure)
          rw [show opened = _ from openReview_of_failure hstart]
          exact ⟨hexchange, hcontext⟩
      | ok review =>
          rw [show opened = _ from openReview_of_review hstart]
          exact ⟨rfl, rfl⟩

theorem openReview_context (setup : FilterSetup) (s : Session) (p : Pass) (isCancelled : Bool) :
    (openReview setup s p isCancelled).1.filter.fileContext = s.filter.fileContext := by
  cases isCancelled with
  | true => rfl
  | false => exact (openReview_starts setup s p).2

theorem openReview_submits {model : Nat} (hmodel : setup.reviewer.model? = some model)
    (s : Session) (p : Pass) (isCancelled : Bool) :
    Submits setup s p s.filter.fileContext (openReview setup s p isCancelled) ∨
      Forfeits s (openReview setup s p isCancelled) := by
  cases isCancelled with
  | true => exact .inr ⟨.of_eq (close_sends s p true).1, rfl, .inl rfl⟩
  | false =>
      have hexchange := (openReview_starts setup s p).1
      cases hdocument : s.document with
      | none =>
          right
          rw [hdocument] at hexchange
          refine ⟨.of_eq (congrArg _ hexchange), ?_, .inr hdocument⟩
          simp only [openReview, hdocument, Review.start, Bool.false_eq_true, if_false]
          rfl
      | some d =>
          left
          refine ⟨d, model, [], hdocument, by simp, ?_⟩
          rw [hexchange, hdocument, Review.start_sends hmodel, List.append_nil]

/-! ## One step -/

theorem continueChoice_of_given {choice : FileChoice} {messages : List Message}
    {isCancelled : Bool} (h : choice.given? setup.reviewer library = some (messages, isCancelled))
    (s : Session) (p : Pass) :
    continueChoice setup library s p choice =
      openReview setup (withFileContext s messages) p isCancelled := by
  unfold FileChoice.given? at h
  unfold continueChoice
  cases hadvance : choice.advance with
  | complete reply isCancelled =>
      rw [hadvance] at h
      cases h
      rfl
  | abandoned isCancelled =>
      rw [hadvance] at h
      cases h
      rfl
  | waiting reply events =>
      rw [hadvance] at h
      cases h

theorem continueChoice_keeps {choice : FileChoice}
    (h : choice.given? setup.reviewer library = none) (s : Session) (p : Pass) :
    s.Keeps (continueChoice setup library s p choice).1 := by
  unfold FileChoice.given? at h
  unfold continueChoice
  cases hadvance : choice.advance with
  | complete reply isCancelled =>
      rw [hadvance] at h
      cases h
  | abandoned isCancelled =>
      rw [hadvance] at h
      cases h
  | waiting reply events => exact .refl s

/-- How a pass that goes on treats the file context and the reviews asked for. -/
inductive TakesOver (setup : FilterSetup) (library : Library) (s : Session) (p : Pass)
    (next : Session × Pass) : Prop where
  | keeps (h : s.Keeps next.1)
  | took (hgathered : p.gathered? setup library s = some next.1.filter.fileContext)
      (houtcome : Submits setup s p next.1.filter.fileContext next ∨ Forfeits s next)

theorem TakesOver.of_gathered {model : Nat} (hmodel : setup.reviewer.model? = some model)
    (s' : Session) (hgathered : p.gathered? setup library s = some s'.filter.fileContext)
    (hdocument : s'.document = s.document) (hasksNone : s.AsksNone s') (isCancelled : Bool) :
    TakesOver setup library s p (openReview setup s' p isCancelled) := by
  have hcontext := openReview_context setup s' p isCancelled
  rw [← hcontext] at hgathered
  cases openReview_submits hmodel s' p isCancelled with
  | inl hsubmits =>
      exact .took hgathered (.inl (hcontext ▸ hsubmits.behind hdocument hasksNone))
  | inr hforfeits => exact .took hgathered (.inr (hforfeits.behind hdocument hasksNone))

theorem TakesOver.of_choice {model : Nat} (hmodel : setup.reviewer.model? = some model)
    {choice : FileChoice}
    (hgathered : p.gathered? setup library s =
      (choice.given? setup.reviewer library).map (·.1))
    (hdocument : s'.document = s.document) (hkeeps : s.Keeps s') :
    TakesOver setup library s p (continueChoice setup library s' p choice) := by
  cases hgiven : choice.given? setup.reviewer library with
  | none => exact .keeps (hkeeps.trans (continueChoice_keeps hgiven s' p))
  | some given =>
      obtain ⟨messages, isCancelled⟩ := given
      rw [continueChoice_of_given hgiven]
      rw [hgiven] at hgathered
      exact .of_gathered hmodel (withFileContext s' messages) hgathered hdocument
        hkeeps.asksNone isCancelled

theorem begin_takesOver {model : Nat} (hlibrary : setup.library = some library)
    (hmodel : setup.reviewer.model? = some model) (hphase : p.phase = .opening) :
    TakesOver setup library s p (begin setup s p) := by
  simp only [begin, hlibrary]
  cases hdocument : s.document with
  | none =>
      have hcontext := openReview_context setup s p p.isCancelled
      cases openReview_submits hmodel s p p.isCancelled with
      | inl hsubmits =>
          obtain ⟨d, model, earlier, hd, -⟩ := hsubmits
          cases hdocument.symm.trans hd
      | inr hforfeits => exact .keeps ⟨hcontext, hforfeits.asksNone⟩
  | some d =>
      obtain ⟨-, made, hmade, -, hreviews⟩ :=
        FileChoice.start_requests setup.reviewer library d p.token p.isCancelled s.exchange
      dsimp only
      cases hstart : FileChoice.start setup.reviewer library d p.token p.isCancelled
          s.exchange with
      | mk begun exchange =>
          rw [hstart] at hmade
          cases begun with
          | nothing =>
              refine .of_gathered hmodel _ ?_ hdocument.symm ⟨made, hmade, hreviews⟩ p.isCancelled
              simp only [gathered?, hphase, hdocument, hstart]
              rfl
          | reading choice =>
              refine .of_choice hmodel ?_ hdocument.symm ⟨rfl, made, hmade, hreviews⟩
              simp only [gathered?, hphase, hdocument, hstart]

/-- All that a pass does on its way to the review, where there are files and a model to ask. -/
theorem prepare_takesOver {model : Nat} (hlibrary : setup.library = some library)
    (hmodel : setup.reviewer.model? = some model) (s : Session) (p : Pass) :
    TakesOver setup library s p (p.prepare setup s) := by
  unfold prepare
  cases hphase : p.phase with
  | opening => exact begin_takesOver hlibrary hmodel hphase
  | choosing choice =>
      simp only [hlibrary]
      refine .of_choice hmodel ?_ rfl (.refl s)
      simp only [gathered?, hphase]
  | _ => exact .keeps (.refl s)

/-! ## Without a model, and cancelled from the start -/

theorem openReview_of_no_model (hmodel : setup.reviewer.model? = none) (s : Session) (p : Pass)
    (isCancelled : Bool) :
    s.AsksNone (openReview setup s p isCancelled).1 ∧
      (openReview setup s p isCancelled).2.phase = .over := by
  cases isCancelled with
  | true => exact ⟨.of_eq (close_sends s p true).1, rfl⟩
  | false =>
      have hstart : ∃ failure, Review.start setup.reviewer s.document s.filter.fileContext
          (setup.palette.colorFor p.signal) p.signal p.token false s.exchange =
            (.error failure, s.exchange) := by
        cases s.document with
        | none => exact ⟨_, Review.start_of_no_document _ _ _ _ _ _ _⟩
        | some d => exact ⟨_, Review.start_of_no_model _ _ _ _ _ _ d hmodel⟩
      obtain ⟨failure, hstart⟩ := hstart
      have hexchange := (openReview_starts setup s p).1
      rw [hstart] at hexchange
      refine ⟨.of_eq (congrArg _ hexchange), ?_⟩
      rw [openReview_of_failure hstart]
      rfl

/-- Without a model to ask, a pass is over at once and keeps a file context that is empty. -/
theorem prepare_of_no_model (hlibrary : setup.library = some library)
    (hmodel : setup.reviewer.model? = none) (hphase : p.phase = .opening ∨ p.phase = .over)
    (hcontext : s.filter.fileContext = []) :
    s.Keeps (p.prepare setup s).1 ∧ (p.prepare setup s).2.phase = .over := by
  unfold prepare
  cases hphase with
  | inl hopening =>
      have hopened : ∀ s' : Session, s'.exchange = s.exchange → s'.filter.fileContext = [] →
          s.Keeps (openReview setup s' p p.isCancelled).1 ∧
            (openReview setup s' p p.isCancelled).2.phase = .over := by
        intro s' hexchange hempty
        obtain ⟨hasksNone, hover⟩ := openReview_of_no_model hmodel s' p p.isCancelled
        have hkept := (openReview_context setup s' p p.isCancelled).trans hempty
        have hfrom : s.AsksNone s' := .of_eq (congrArg _ hexchange)
        exact ⟨⟨hkept.trans hcontext.symm, hfrom.trans hasksNone⟩, hover⟩
      simp only [hopening, begin, hlibrary]
      cases hdocument : s.document with
      | none => exact hopened s rfl hcontext
      | some d =>
          have hstart : FileChoice.start setup.reviewer library d p.token p.isCancelled
              s.exchange = (.nothing, s.exchange) := by
            simp [FileChoice.start, hmodel]
          simp only [hstart]
          exact hopened _ rfl rfl
  | inr hover =>
      simp only [hover]
      exact ⟨.refl s, trivial⟩

/-- A pass that is cancelled from the start takes over no messages and asks for no review. -/
theorem prepare_of_cancelled {d : Document} (hlibrary : setup.library = some library)
    (hdocument : s.document = some d) (hphase : p.phase = .opening)
    (hcancelled : p.isCancelled = true) :
    (p.prepare setup s).1.filter.fileContext = [] ∧ s.AsksNone (p.prepare setup s).1 ∧
      (p.prepare setup s).2.phase = .over := by
  obtain ⟨-, made, hmade, -, hreviews⟩ :=
    FileChoice.start_requests setup.reviewer library d p.token true s.exchange
  obtain ⟨_, -, -, hchoice⟩ := FileChoice.start_since setup.reviewer library d p.token true
    (Model.Exchange.Since.refl s.exchange)
  simp only [prepare, hphase, begin, hlibrary, hdocument, hcancelled]
  cases hstart : FileChoice.start setup.reviewer library d p.token true s.exchange with
  | mk begun exchange =>
      rw [hstart] at hmade hchoice
      have hclosed : ∀ s' : Session, s'.exchange = exchange → s'.filter.fileContext = [] →
          (openReview setup s' p true).1.filter.fileContext = [] ∧
            s.AsksNone (openReview setup s' p true).1 ∧
            (openReview setup s' p true).2.phase = .over := by
        intro s' hexchange hempty
        have hasksNone : s.AsksNone s' := ⟨made, hexchange ▸ hmade, hreviews⟩
        exact ⟨hempty, hasksNone.trans (.of_eq (close_sends s' p true).1), rfl⟩
      cases begun with
      | nothing => exact hclosed _ rfl rfl
      | reading choice =>
          have hgiven : choice.given? setup.reviewer library = some ([], true) := by
            simp [FileChoice.given?, FileChoice.advance, (hchoice choice rfl).1]
          dsimp only
          rw [continueChoice_of_given hgiven]
          exact hclosed _ rfl rfl

theorem readOn_eq_self (s : Session) (h : p.phase = .opening ∨ p.phase = .over) :
    p.readOn s = (s, p) := by
  unfold readOn
  cases h with
  | inl hopening => rw [hopening]
  | inr hover => rw [hover]

theorem keeps_readOn (s : Session) (p : Pass) : s.Keeps (p.readOn s).1 := by
  refine .of_eq ?_ (readOn_sends s p).1
  unfold readOn
  cases p.phase with
  | reviewing review =>
      simp only [continueReview]
      split
      · exact (conclude_keeps _ _).2
      · rfl
  | _ => rfl

end Pass

theorem Session.keeps_begin (s : Session) (command : FilterCommand) (isCancelled : Bool) :
    s.Keeps (s.begin command isCancelled).1 := by
  refine .of_eq ?_ (s.begin_exchange command isCancelled).1
  cases command with
  | initialLoad => rfl
  | toggle severity =>
      simp only [begin, start, applyToggle]
      cases Transition.plan s.filter.state severity with
      | _ => rfl

theorem Session.handle_document (setup : FilterSetup) (s : Session) (command : FilterCommand)
    (isCancelled : Bool) : (s.handle setup command isCancelled).1.document = s.document := by
  have hbegan := s.begin_document command isCancelled
  rw [handle_eq_goOn]
  cases (s.begin command isCancelled).2 with
  | none => exact hbegan
  | some p =>
      have hprepared := (p.prepare_quiet setup (s.begin command isCancelled).1).agrees.document
      exact (Pass.readOn_keeps _ _).2.trans (hprepared.trans hbegan)

theorem Session.isCancelled_begin {s : Session} {command : FilterCommand} {isCancelled : Bool}
    {p : Pass} (h : (s.begin command isCancelled).2 = some p) : p.isCancelled = isCancelled := by
  rw [begin] at h
  split at h
  · cases h
  · cases h
    rfl

/-! ## Runs -/

section

variable {setup : FilterSetup} {library : Library} {start s s' : Session}
  {start? p? p?' : Option Pass} {commands : List FilterCommand}
  {made : List (Document × Marker)}

/-- Only a pass that goes on to its review changes the file context or asks for a review. -/
theorem Moved.keeps_or_prepared (h : Moved setup s p? commands made s' p?') :
    s.Keeps s' ∨ (commands = [] ∧ made = []) ∧
      ∃ p, p? = some p ∧ s' = (p.prepare setup s).1 ∧ p?' = some (p.prepare setup s).2 := by
  cases h with
  | turned _ document => exact .inl (.of_eq rfl rfl)
  | began _ command isCancelled => exact .inl (s.keeps_begin command isCancelled)
  | prepared p => exact .inr ⟨⟨rfl, rfl⟩, p, rfl, rfl, rfl⟩
  | read hread =>
      obtain ⟨review, record, feed, -, -, rfl, -⟩ := Pass.readRecord_eq_some hread
      exact .inl (.of_eq rfl rfl)
  | settled hread => exact .inl (Pass.keeps_readOn s _)
  | cancelled p => exact .inl (.of_eq rfl rfl)
  | superseded p => exact .inl (.of_eq rfl rfl)
  | dropped => exact .inl (.of_eq rfl rfl)

/--
The session and the pass that a run last took its file context over from: the pass asked for a
review with it or was over without, and since then no review was asked for.
-/
structure TookOver (setup : FilterSetup) (library : Library) (start : Session)
    (start? : Option Pass) (commands : List FilterCommand) (made : List (Document × Marker))
    (s : Session) (p? : Option Pass) (before : Session) (p : Pass) : Prop where
  moves : ∃ earlier later made₁ made₂, commands = earlier ++ later ∧ made = made₁ ++ made₂ ∧
    Moves setup start start? earlier made₁ before (some p) ∧
      Moves setup (p.prepare setup before).1 (some (p.prepare setup before).2) later made₂ s p?
  gathered : p.gathered? setup library before = some s.filter.fileContext
  outcome : p.Submits setup before s.filter.fileContext (p.prepare setup before) ∨
    Pass.Forfeits before (p.prepare setup before)
  asksNone : (p.prepare setup before).1.AsksNone s

theorem TookOver.step {before : Session} {p : Pass} {more : List FilterCommand}
    {made' : List (Document × Marker)}
    (h : TookOver setup library start start? commands made s p? before p)
    (hmoved : Moved setup s p? more made' s' p?') (hkeeps : s.Keeps s') :
    TookOver setup library start start? (commands ++ more) (made ++ made') s' p?' before p := by
  obtain ⟨earlier, later, made₁, made₂, rfl, rfl, hbefore, hafter⟩ := h.moves
  have hgathered := h.gathered
  have houtcome := h.outcome
  rw [← hkeeps.context] at hgathered houtcome
  refine ⟨⟨earlier, later ++ more, made₁, made₂ ++ made', ?_, ?_, hbefore, hafter.step hmoved⟩,
    hgathered, houtcome, h.asksNone.trans hkeeps.asksNone⟩
  · exact List.append_assoc earlier later more
  · exact List.append_assoc made₁ made₂ made'

/-- The file context is the one at the start, or the one that a pass took over last. -/
theorem Moves.keeps_or_tookOver {model : Nat} (hlibrary : setup.library = some library)
    (hmodel : setup.reviewer.model? = some model)
    (h : Moves setup start start? commands made s p?) :
    start.Keeps s ∨
      ∃ before p, TookOver setup library start start? commands made s p? before p := by
  induction h with
  | refl => exact .inl (.refl start)
  | @step commands more made made' s s' p? p?' hbefore hmoved ih =>
      have hkept (hkeeps : s.Keeps s') : start.Keeps s' ∨ ∃ before p,
          TookOver setup library start start? (commands ++ more) (made ++ made') s' p?'
            before p := by
        cases ih with
        | inl hstart => exact .inl (hstart.trans hkeeps)
        | inr htook =>
            obtain ⟨before, p, htook⟩ := htook
            exact .inr ⟨before, p, htook.step hmoved hkeeps⟩
      cases hmoved.keeps_or_prepared with
      | inl hkeeps => exact hkept hkeeps
      | inr hprepared =>
          obtain ⟨⟨rfl, rfl⟩, p, rfl, rfl, rfl⟩ := hprepared
          cases p.prepare_takesOver hlibrary hmodel s with
          | keeps hkeeps => exact hkept hkeeps
          | took hgathered houtcome =>
              exact .inr ⟨s, p, ⟨commands, [], made, [], rfl, rfl, hbefore, .refl⟩, hgathered,
                houtcome, .of_eq rfl⟩

theorem Moves.keeps_of_no_model (hlibrary : setup.library = some library)
    (hmodel : setup.reviewer.model? = none) (hcontext : start.filter.fileContext = [])
    (h : Moves setup start none commands made s p?) :
    start.Keeps s ∧ ∀ p ∈ p?, p.phase = .opening ∨ p.phase = .over := by
  induction h with
  | refl => exact ⟨.refl start, nofun⟩
  | @step commands more made made' s s' p? p?' hbefore hmoved ih =>
      obtain ⟨hkeeps, hphase⟩ := ih
      cases hmoved with
      | turned _ document => exact ⟨hkeeps.trans (.of_eq rfl rfl), hphase⟩
      | began _ command isCancelled =>
          refine ⟨hkeeps.trans (s.keeps_begin command isCancelled), ?_⟩
          intro p hp
          exact .inl ((s.begin_exchange command isCancelled).2.2 p hp).1
      | prepared p =>
          obtain ⟨hprepared, hover⟩ := Pass.prepare_of_no_model hlibrary hmodel (hphase p rfl)
            (hkeeps.context.trans hcontext)
          refine ⟨hkeeps.trans hprepared, ?_⟩
          intro p' hp'
          cases hp'
          exact .inr hover
      | read hread =>
          obtain ⟨review, record, feed, hreviewing, -⟩ := Pass.readRecord_eq_some hread
          cases hphase _ rfl with
          | inl hopening => cases hopening.symm.trans hreviewing
          | inr hover => cases hover.symm.trans hreviewing
      | @settled p hread =>
          rw [Pass.readOn_eq_self s (hphase p rfl)]
          exact ⟨hkeeps, hphase⟩
      | cancelled p =>
          refine ⟨hkeeps.trans (.of_eq rfl rfl), ?_⟩
          intro p' hp'
          cases hp'
          cases hphase p rfl with
          | inl hopening => exact .inl (by rw [Pass.cancel, hopening])
          | inr hover => exact .inr (by rw [Pass.cancel, hover])
      | superseded p => exact ⟨hkeeps.trans (.of_eq rfl rfl), nofun⟩
      | dropped => exact ⟨hkeeps.trans (.of_eq rfl rfl), nofun⟩

end

/--
The file context of a filter that can choose files is empty and no review was asked for, or it
is what the last pass took over when its choice of files ended.  That pass asked for a review
with it, and none was asked for since; or it asked for none, because it was cancelled or
because there was no document any more.  So a command that is cancelled from the start
empties the file context, whatever review was asked for before.  The operations of the filter
take small steps and apply their commands.
-/
theorem fileContext_gathered {setup : FilterSetup} {library : Library}
    (hlibrary : setup.library = some library) :
    (∀ document exchange commands made s p?,
      Moves setup { document, exchange } none commands made s p? →
        (s.filter.fileContext = [] ∧ Session.AsksNone { document, exchange } s) ∨
          ∃ before p,
            TookOver setup library { document, exchange } none commands made s p? before p) ∧
    (∀ (s : Session) d command p, s.document = some d → (s.begin command true).2 = some p →
      (s.handle setup command true).1.filter.fileContext = [] ∧
        s.AsksNone (s.handle setup command true).1) ∧
    ∀ s p?,
      (∀ isCancelled, ∃ made, Moves setup s p? [.initialLoad] made
        (s.initialLoad setup isCancelled).1 (some (s.initialLoad setup isCancelled).2)) ∧
      (∀ severity isCancelled, ∃ made, Moves setup s p? [.toggle severity] made
        (s.toggle setup severity isCancelled).1 (s.toggle setup severity isCancelled).2.2) ∧
      (∀ command isCancelled, ∃ made, Moves setup s p? [command] made
        (s.handle setup command isCancelled).1 (s.handle setup command isCancelled).2) ∧
      ∀ actions, ∃ made, Moves setup s p? (Drive.Run.ofActions setup s actions).applied made
        (Drive.Run.ofActions setup s actions).drive.session
        (Drive.Run.ofActions setup s actions).drive.pass := by
  refine ⟨?_, ?_, ?_⟩
  · intro document exchange commands made s p? h
    cases hmodel : setup.reviewer.model? with
    | none =>
        obtain ⟨hkeeps, -⟩ := h.keeps_of_no_model hlibrary hmodel rfl
        exact .inl ⟨hkeeps.context, hkeeps.asksNone⟩
    | some model =>
        cases h.keeps_or_tookOver hlibrary hmodel with
        | inl hkeeps => exact .inl ⟨hkeeps.context, hkeeps.asksNone⟩
        | inr htook => exact .inr htook
  · intro s d command p hdocument hbegin
    let began := (s.begin command true).1
    have hbegan : began.document = some d := (s.begin_document command true).trans hdocument
    have hphase := ((s.begin_exchange command true).2.2 p hbegin).1
    obtain ⟨hcontext, hasksNone, hover⟩ :=
      Pass.prepare_of_cancelled hlibrary hbegan hphase (Session.isCancelled_begin hbegin)
    have hadvance : p.advance setup began = p.prepare setup began :=
      Pass.readOn_eq_self _ (.inr hover)
    rw [Session.handle_eq_goOn, hbegin, Session.goOn, hadvance]
    exact ⟨hcontext, (s.keeps_begin command true).asksNone.trans hasksNone⟩
  · intro s p?
    exact ⟨Moves.initialLoad setup s p?, Moves.toggle setup s p?, Moves.handle setup s p?,
      Moves.drive setup s p?⟩

/-! ## A choice of files that is cancelled as it ends -/

def offeredLibrary : Library :=
  { files := ["a.rs", "main.rs"]
    read := fun path => if path = "a.rs" then some "mod a;" else none }

def offeringSetup : FilterSetup :=
  { reviewer := { catalog := ⟨[⟨"test", "scripted"⟩]⟩ }, library := some offeredLibrary }

def offeredDocument : Document :=
  { id := "main.rs", lines := ["fn main()"] }

def offeringSession (events : List Model.Event) : Session :=
  { document := some offeredDocument, exchange := { replies := [.stream events] } }

def choiceRequest : Model.Request :=
  ⟨0, FileChoice.messages offeringSetup.reviewer offeredDocument ["a.rs"], 0⟩

def chosenFile : Model.Event :=
  .fragment "\x7b\"paths\":[\"a.rs\"]\x7d"

def chosenMessage : Message :=
  ⟨.user, "\x7b\"a.rs\":[\"mod a;\"]\x7d", by decide⟩

/-- The toggle asks the model to choose and takes over the messages that the choice gives. -/
theorem offeringSession_handle {events : List Model.Event} {messages : List Message}
    {isCancelled : Bool}
    (hgiven : ({ offered := ["a.rs"], events } : FileChoice).given? offeringSetup.reviewer
      offeredLibrary = some (messages, isCancelled)) :
    let s := offeringSession events
    let handled := (s.handle offeringSetup (.toggle .red) false).1
    ∃ s' p, s'.document = some offeredDocument ∧ s'.exchange.requests = [choiceRequest] ∧
      p.token = 0 ∧ s'.filter.fileContext = messages ∧
      handled.filter.fileContext = messages ∧
      handled.exchange.requests =
        (Pass.openReview offeringSetup s' p isCancelled).1.exchange.requests := by
  intro s handled
  let began := (s.begin (.toggle .red) false).1
  let p : Pass := { token := 0, signal := .display .red }
  let asked : Session := { began with
    exchange := { began.exchange with requests := [choiceRequest], replies := [] } }
  let gathered := Pass.withFileContext asked messages
  have hopened : (s.begin (.toggle .red) false).2 = some p := rfl
  have hprepared : p.prepare offeringSetup began =
      Pass.openReview offeringSetup gathered p isCancelled :=
    @Pass.continueChoice_of_given offeringSetup _ _ _ _ hgiven asked p
  have hhandled : handled = ((p.prepare offeringSetup began).2.readOn
      (p.prepare offeringSetup began).1).1 := by
    show (s.handle offeringSetup (.toggle .red) false).1 = _
    rw [Session.handle_eq_goOn, hopened]
    rfl
  have hkeeps := Pass.keeps_readOn (p.prepare offeringSetup began).1
    (p.prepare offeringSetup began).2
  have hsends := Pass.readOn_sends (p.prepare offeringSetup began).1
    (p.prepare offeringSetup began).2
  rw [← hhandled, hprepared] at hkeeps hsends
  exact ⟨gathered, p, rfl, rfl, rfl, rfl, hkeeps.context.trans (Pass.openReview_context _ _ _ _),
    hsends.1⟩

theorem chosenFile_given :
    ({ offered := ["a.rs"], events := [chosenFile] } : FileChoice).given?
      offeringSetup.reviewer offeredLibrary = some ([chosenMessage], false) := by
  decide +kernel

/-- The chosen file goes along with the review; an initial load that is cancelled drops it. -/
theorem fileContext_gathered_dropped :
    let sent := ((offeringSession [chosenFile]).handle offeringSetup (.toggle .red) false).1
    sent.exchange.requests = [choiceRequest,
        ⟨0, offeringSetup.reviewer.messages offeredDocument [chosenMessage], 0⟩] ∧
      (∃ (before : Session) (p : Pass),
        p.gathered? offeringSetup offeredLibrary before = some [chosenMessage] ∧
        (p.Submits offeringSetup before [chosenMessage] (p.prepare offeringSetup before) ∨
          Pass.Forfeits before (p.prepare offeringSetup before))) ∧
      (sent.handle offeringSetup .initialLoad true).1.filter.fileContext = [] := by
  intro sent
  have hlibrary : offeringSetup.library = some offeredLibrary := rfl
  obtain ⟨hruns, hcancelled, -⟩ := fileContext_gathered hlibrary
  obtain ⟨s', p, hdocument, hasked, htoken, htaken, hcontext, hrequests⟩ :=
    offeringSession_handle chosenFile_given
  have hmodel : offeringSetup.reviewer.model? = some 0 := rfl
  refine ⟨?_, ?_, ?_⟩
  · rw [show sent.exchange.requests = _ from hrequests,
      (Pass.openReview_starts offeringSetup s' p).1, hdocument, Review.start_sends hmodel,
      hasked, htaken, htoken]
    rfl
  · obtain ⟨made, hmoves⟩ :=
      Moves.handle offeringSetup (offeringSession [chosenFile]) none (.toggle .red) false
    cases hruns _ _ _ _ _ _ hmoves with
    | inl hnone => cases hcontext.symm.trans hnone.1
    | inr htook =>
        obtain ⟨before, p, htook⟩ := htook
        have hgathered := htook.gathered
        have houtcome := htook.outcome
        rw [hcontext] at hgathered houtcome
        exact ⟨before, p, hgathered, houtcome⟩
  · have hsent : sent.document = some offeredDocument := Session.handle_document _ _ _ _
    exact (hcancelled sent offeredDocument .initialLoad _ hsent rfl).1

theorem chosenFile_interrupted :
    ({ offered := ["a.rs"], events := [chosenFile, .cancellation] } : FileChoice).given?
      offeringSetup.reviewer offeredLibrary = some ([chosenMessage], true) := by
  decide +kernel

/-- A choice that is cancelled as it ends is kept, though no review is ever asked for. -/
theorem fileContext_never_submitted :
    let s := ((offeringSession [chosenFile, .cancellation]).handle offeringSetup (.toggle .red)
      false).1
    s.filter.fileContext = [chosenMessage] ∧
      ∀ r ∈ s.exchange.requests, r.asksForReview = false := by
  intro s
  obtain ⟨s', p, -, hasked, -, -, hcontext, hrequests⟩ :=
    offeringSession_handle chosenFile_interrupted
  refine ⟨hcontext, ?_⟩
  rw [show s.exchange.requests = _ from hrequests, Pass.openReview, if_pos rfl,
    (Pass.close_sends s' p true).1, hasked]
  intro r hr
  rw [List.mem_singleton.mp hr]
  exact FileChoice.asksForReview _ _ _ _ _

end Marginalia
