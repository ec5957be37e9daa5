import Marginalia.Proofs.Filter.Pass
import Marginalia.Proofs.Filter.Tokens

/-!
# Requests of a pass

Every request of a pass has the token of the pass.  A pass asks for one review at most: once it
has come to its review, or is over, it makes no further request.
-/

namespace Marginalia

/-! ## Requests for a review -/

theorem Prompt.getElem?_ofLines {line : String} {n : Nat} {c : Char} (h : line.toList[n]? = some c)
    (next : String) (lines : List String) :
    (ofLines (line :: next :: lines)).toList[n]? = some c := by
  rw [ofLines, String.intercalate_cons_cons, String.toList_append, String.toList_append,
    List.append_assoc, List.getElem?_append_left (List.getElem?_eq_some_iff.mp h).1]
  exact h

theorem Message.exists_system? {text : String} {c : Char} (h : text.toList[0]? = some c)
    (hc : Text.isBlank c = false) : ∃ m, system? text = some m ∧ m.content = text := by
  have hblank : Text.isBlankText text = false := by
    rw [Text.isBlankText, List.all_eq_false]
    exact ⟨c, List.mem_of_getElem? h, by simp [hc]⟩
  exact ⟨_, by rw [system?, NonBlank.ofString?, dif_pos hblank]; rfl, rfl⟩

theorem Message.exists_review : ∃ m, system? Prompt.review = some m ∧ m.content = Prompt.review :=
  exists_system? (Prompt.getElem?_ofLines (c := 'Y') (by simp) _ _) (by decide)

theorem Message.exists_fileChoice :
    ∃ m, system? Prompt.fileChoice = some m ∧ m.content = Prompt.fileChoice :=
  exists_system? (Prompt.getElem?_ofLines (c := 'Y') (by simp) _ _) (by decide)

/-- The instructions for a review and those for a choice of files differ in their first line. -/
theorem Prompt.fileChoice_ne_review : fileChoice ≠ review := by
  intro h
  have hreview : review.toList[11]? = some 'a' := getElem?_ofLines (by simp) _ _
  have hchoice : fileChoice.toList[11]? = some 'r' := getElem?_ofLines (by simp) _ _
  rw [h, hreview] at hchoice
  cases hchoice

def Model.Request.asksForReview (r : Model.Request) : Bool :=
  r.messages.head? == Message.system? Prompt.review

theorem Reviewer.asksForReview (r : Reviewer) (model : Nat) (d : Document)
    (fileContext : List Message) (token : Model.Token) :
    (⟨model, r.messages d fileContext, token⟩ : Model.Request).asksForReview = true := by
  obtain ⟨m, hm, -⟩ := Message.exists_review
  simp [Model.Request.asksForReview, messages, hm]

theorem FileChoice.asksForReview (r : Reviewer) (model : Nat) (d : Document)
    (offered : List String) (token : Model.Token) :
    (⟨model, messages r d offered, token⟩ : Model.Request).asksForReview = false := by
  obtain ⟨m, hm, hcontent⟩ := Message.exists_fileChoice
  obtain ⟨m', hm', hcontent'⟩ := Message.exists_review
  have hne : m ≠ m' := by
    rintro rfl
    exact Prompt.fileChoice_ne_review (hcontent.symm.trans hcontent')
  simp [Model.Request.asksForReview, messages, hm, hm', hne]

/-! ## What a pass makes -/

theorem Review.start_requests (r : Reviewer) (document : Option Document)
    (fileContext : List Message) (color : String) (signal : Signal) (token : Model.Token)
    (isCancelled : Bool) (x : Model.Exchange) :
    let started := start r document fileContext color signal token isCancelled x
    started.2.fresh = x.fresh ∧ ∃ made, started.2.requests = x.requests ++ made ∧
      (∀ r ∈ made, r.token = token) ∧ made.length ≤ 1 := by
  simp only [start, Model.Exchange.send_eq]
  cases document with
  | none => exact ⟨rfl, [], by simp, by simp, by simp⟩
  | some d =>
      cases r.model? with
      | none => exact ⟨rfl, [], by simp, by simp, by simp⟩
      | some model =>
          cases x.answer 0 with
          | _ => exact ⟨rfl, [_], rfl, by simp, by simp⟩

theorem FileChoice.start_requests (r : Reviewer) (library : Library) (d : Document)
    (token : Model.Token) (isCancelled : Bool) (x : Model.Exchange) :
    let started := start r library d token isCancelled x
    started.2.fresh = x.fresh ∧ ∃ made, started.2.requests = x.requests ++ made ∧
      (∀ r ∈ made, r.token = token) ∧ ∀ r ∈ made, r.asksForReview = false := by
  simp only [start, Model.Exchange.send_eq]
  split
  · exact ⟨rfl, [], by simp, by simp, by simp⟩
  · cases r.model? with
    | none => exact ⟨rfl, [], by simp, by simp, by simp⟩
    | some model =>
        have hreview := asksForReview r model d (library.files.filter (· != d.id)) token
        cases x.answer 0 with
        | _ => exact ⟨rfl, [_], rfl, by simp, by simpa using hreview⟩

theorem Model.Exchange.cancelIf_keeps (x : Exchange) (token : Token) (condition : Bool) :
    (x.cancelIf token condition).requests = x.requests ∧
      (x.cancelIf token condition).fresh = x.fresh := by
  rw [cancelIf]
  split
  · exact ⟨rfl, rfl⟩
  · exact ⟨rfl, rfl⟩

namespace Pass

/-- How many reviews a pass may still ask for. -/
def owed (p : Pass) : Nat :=
  match p.phase with
  | .opening => 1
  | .choosing _ => 1
  | .reviewing _ => 0
  | .over => 0

theorem owed_le (p : Pass) : p.owed ≤ 1 := by
  unfold owed
  split
  all_goals omega

/-- The requests that a pass makes, with a limit on the reviews among them and yet to come. -/
structure Requesting (s : Session) (p : Pass) (limit : Nat) (next : Session × Pass) : Prop where
  made : ∃ made, next.1.exchange.requests = s.exchange.requests ++ made ∧
    (∀ r ∈ made, r.token = p.token) ∧
      made.countP Model.Request.asksForReview + next.2.owed ≤ limit
  fresh : next.1.exchange.fresh = s.exchange.fresh
  token : next.2.token = p.token

section

variable {s : Session} {p : Pass} {limit : Nat} {next : Session × Pass}

theorem Requesting.of_eq (hrequests : next.1.exchange.requests = s.exchange.requests)
    (hfresh : next.1.exchange.fresh = s.exchange.fresh) (htoken : next.2.token = p.token)
    (howed : next.2.owed ≤ limit) : Requesting s p limit next := by
  refine ⟨⟨[], ?_, fun _ hr => absurd hr List.not_mem_nil, ?_⟩, hfresh, htoken⟩
  · rw [hrequests, List.append_nil]
  · simpa using howed

theorem Requesting.of_exchange {s' : Session} (h : Requesting s' p limit next)
    (hexchange : s'.exchange = s.exchange) : Requesting s p limit next := by
  obtain ⟨made, hmade, htokens, hcount⟩ := h.made
  exact ⟨⟨made, by rw [hmade, hexchange], htokens, hcount⟩, by rw [h.fresh, hexchange], h.token⟩

theorem Requesting.trans {more : Session × Pass} (h : Requesting s p limit next)
    (h' : Requesting next.1 next.2 next.2.owed more) : Requesting s p limit more := by
  obtain ⟨made, hmade, htokens, hcount⟩ := h.made
  obtain ⟨made', hmade', htokens', hcount'⟩ := h'.made
  refine ⟨⟨made ++ made', ?_, fun r hr => ?_, ?_⟩, h'.fresh.trans h.fresh, h'.token.trans h.token⟩
  · rw [hmade', hmade, List.append_assoc]
  · rcases List.mem_append.mp hr with hearlier | hlater
    · exact htokens r hearlier
    · exact (htokens' r hlater).trans h.token
  · rw [List.countP_append]
    omega

/-- Requests that come before are none too many, if they are no reviews. -/
theorem Requesting.behind {x : Model.Exchange} {earlier : List Model.Request}
    (h : Requesting { s with exchange := x } p limit next)
    (hrequests : x.requests = s.exchange.requests ++ earlier) (hfresh : x.fresh = s.exchange.fresh)
    (htokens : ∀ r ∈ earlier, r.token = p.token)
    (hreviews : ∀ r ∈ earlier, r.asksForReview = false) : Requesting s p limit next := by
  obtain ⟨made, hmade, htokens', hcount⟩ := h.made
  refine ⟨⟨earlier ++ made, ?_, fun r hr => ?_, ?_⟩, h.fresh.trans hfresh, h.token⟩
  · rw [hmade, hrequests, List.append_assoc]
  · exact (List.mem_append.mp hr).elim (htokens r) (htokens' r)
  · have hnone : earlier.countP Model.Request.asksForReview = 0 := by
      simpa [List.countP_eq_zero] using hreviews
    rw [List.countP_append]
    omega

theorem close_sends (s : Session) (p : Pass) (isCancelled : Bool) :
    (close s p isCancelled).1.exchange.requests = s.exchange.requests ∧
      (close s p isCancelled).1.exchange.fresh = s.exchange.fresh :=
  s.exchange.cancelIf_keeps p.token isCancelled

theorem close_requests (s : Session) (p : Pass) (isCancelled : Bool) (limit : Nat) :
    Requesting s p limit (close s p isCancelled) := by
  obtain ⟨hrequests, hfresh⟩ := close_sends s p isCancelled
  exact .of_eq hrequests hfresh rfl (Nat.zero_le limit)

theorem openReview_requests (setup : FilterSetup) (s : Session) (p : Pass) (isCancelled : Bool) :
    Requesting s p 1 (openReview setup s p isCancelled) := by
  unfold openReview
  split
  · exact close_requests s p true 1
  · obtain ⟨hfresh, made, hmade, htokens, hlength⟩ :=
      Review.start_requests setup.reviewer s.document s.filter.fileContext
        (setup.palette.colorFor p.signal) p.signal p.token false s.exchange
    have hcount := Nat.le_trans (List.countP_le_length (p := Model.Request.asksForReview)) hlength
    split
    · next failure exchange hstart =>
        rw [hstart] at hfresh hmade
        obtain ⟨hexchange, -⟩ := conclude_keeps { s with exchange } (.error failure)
        refine ⟨⟨made, ?_, htokens, hcount⟩, ?_, rfl⟩
        · exact (congrArg Model.Exchange.requests hexchange).trans hmade
        · exact (congrArg Model.Exchange.fresh hexchange).trans hfresh
    · next review exchange hstart =>
        rw [hstart] at hfresh hmade
        exact ⟨⟨made, hmade, htokens, hcount⟩, hfresh, rfl⟩

theorem continueChoice_requests (setup : FilterSetup) (library : Library) (s : Session) (p : Pass)
    (choice : FileChoice) : Requesting s p 1 (continueChoice setup library s p choice) := by
  unfold continueChoice
  split
  · exact (openReview_requests setup (withFileContext s _) p _).of_exchange rfl
  · exact (openReview_requests setup (withFileContext s []) p _).of_exchange rfl
  · exact .of_eq rfl rfl rfl (Nat.le_refl 1)

theorem begin_requests (setup : FilterSetup) (s : Session) (p : Pass) :
    Requesting s p 1 (begin setup s p) := by
  unfold begin
  split
  · next library d _ _ =>
      obtain ⟨hfresh, made, hmade, htokens, hreviews⟩ :=
        FileChoice.start_requests setup.reviewer library d p.token p.isCancelled s.exchange
      split
      · next exchange hstart =>
          rw [hstart] at hfresh hmade
          have hopened : Requesting { s with exchange } p 1 _ :=
            (openReview_requests setup (withFileContext { s with exchange } []) p
              p.isCancelled).of_exchange rfl
          exact hopened.behind hmade hfresh htokens hreviews
      · next choice exchange hstart =>
          rw [hstart] at hfresh hmade
          have hchoice := continueChoice_requests setup library { s with exchange } p choice
          exact hchoice.behind hmade hfresh htokens hreviews
  · exact openReview_requests setup s p p.isCancelled

theorem prepare_requests (setup : FilterSetup) (s : Session) (p : Pass) :
    Requesting s p p.owed (p.prepare setup s) := by
  have hrefl : Requesting s p p.owed (s, p) := .of_eq rfl rfl rfl (Nat.le_refl _)
  unfold prepare
  cases hphase : p.phase with
  | opening =>
      have howed : p.owed = 1 := by rw [owed, hphase]
      rw [howed]
      exact begin_requests setup s p
  | choosing choice =>
      have howed : p.owed = 1 := by rw [owed, hphase]
      rw [howed]
      cases setup.library with
      | none => exact openReview_requests setup s p p.isCancelled
      | some library => exact continueChoice_requests setup library s p choice
  | _ => exact hrefl

theorem readOn_sends (s : Session) (p : Pass) :
    (p.readOn s).1.exchange.requests = s.exchange.requests ∧
      (p.readOn s).1.exchange.fresh = s.exchange.fresh ∧
        (p.readOn s).2.token = p.token ∧ (p.readOn s).2.owed ≤ p.owed := by
  unfold readOn
  cases hphase : p.phase with
  | reviewing review =>
      simp only [continueReview]
      generalize review.advance s.filter.ledger = a
      split
      · let marked := { s with filter := { s.filter with ledger := a.ledger } }.tell a.events
        obtain ⟨hrequests, hfresh⟩ :=
          close_sends (conclude marked a.review.outcome) p a.review.feed.isCancelled
        rw [(conclude_keeps marked a.review.outcome).1] at hrequests hfresh
        exact ⟨hrequests, hfresh, rfl, Nat.zero_le _⟩
      · exact ⟨rfl, rfl, rfl, Nat.zero_le _⟩
  | _ => exact ⟨rfl, rfl, rfl, Nat.le_refl _⟩

theorem readOn_requests (s : Session) (p : Pass) : Requesting s p p.owed (p.readOn s) := by
  obtain ⟨hrequests, hfresh, htoken, howed⟩ := readOn_sends s p
  exact .of_eq hrequests hfresh htoken howed

theorem advance_requests (setup : FilterSetup) (s : Session) (p : Pass) :
    Requesting s p p.owed (p.advance setup s) :=
  (prepare_requests setup s p).trans (readOn_requests _ _)

end

end Pass

end Marginalia
