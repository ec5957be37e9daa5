import Marginalia.Proofs.Filter.Burst
import Marginalia.Proofs.Filter.Requests
import Marginalia.Proofs.Filter.Supersession

/-!
# A burst collapses to its last command

A pass that is superseded while the drive still has commands never makes a request.  A batch of
commands leads to one review at most, and so does a burst.
-/

namespace Marginalia

namespace Session

theorem start_exchange (s : Session) (command : FilterCommand) :
    (s.start command).1.exchange = s.exchange := by
  cases command with
  | initialLoad => rfl
  | toggle severity =>
      simp only [start, applyToggle]
      cases Transition.plan s.filter.state severity with
      | _ => rfl

/-- A command makes no request itself.  The pass that it opens has a token of its own. -/
theorem begin_exchange (s : Session) (command : FilterCommand) (isCancelled : Bool) :
    let opened := s.begin command isCancelled
    opened.1.exchange.requests = s.exchange.requests ∧
      s.exchange.fresh ≤ opened.1.exchange.fresh ∧
        ∀ p, opened.2 = some p →
          p.phase = .opening ∧ p.token = s.exchange.fresh ∧
            p.token < opened.1.exchange.fresh := by
  have hexchange := s.start_exchange command
  simp only [begin]
  cases hstart : s.start command with
  | mk started signal? =>
      rw [hstart] at hexchange
      dsimp only at hexchange
      cases signal? with
      | none =>
          refine ⟨congrArg _ hexchange, Nat.le_of_eq (congrArg _ hexchange.symm), fun p hp => ?_⟩
          cases hp
      | some signal =>
          obtain ⟨hrequests, hfresh⟩ := started.exchange.issue.2.cancelIf_keeps
            started.exchange.issue.1 isCancelled
          simp only [Pass.create, hrequests, hfresh]
          simp [Model.Exchange.issue, hexchange]

end Session

namespace Drive

/-! ## Superseded passes -/

/--
A token that never reaches the model: no request has it but among the first so many, and the
pass that has it, if it is under way, is superseded before it goes on.
-/
structure Spares (token : Model.Token) (made : Nat) (d : Drive) : Prop where
  old : token < d.session.exchange.fresh
  unasked : ∀ r ∈ d.session.exchange.requests.drop made, r.token ≠ token
  superseded : ∀ p, d.pass = some p → p.token = token → d.queue ≠ [] ∧ d.listens = true

section

variable {setup : FilterSetup} {d d' : Drive} {token : Model.Token} {made : Nat}

theorem forall_of_pass_eq_none {P : Pass → Prop} (hnone : d.pass = none) (p : Pass)
    (hpass : d.pass = some p) : P p := by
  rw [hnone] at hpass
  cases hpass

theorem Spares.of_exchange (h : Spares token made d)
    (hrequests : d'.session.exchange.requests = d.session.exchange.requests)
    (hfresh : d.session.exchange.fresh ≤ d'.session.exchange.fresh)
    (hpass : ∀ p, d'.pass = some p → p.token ≠ token) : Spares token made d' :=
  ⟨Nat.lt_of_lt_of_le h.old hfresh, by rw [hrequests]; exact h.unasked,
    fun p hp htoken => absurd htoken (hpass p hp)⟩

theorem Spares.stepped {goesOn : Bool} (h : Spares token made d)
    (hstepped : Stepped setup d d' goesOn) : Spares token made d' := by
  cases hstepped with
  | fetched _ _ => exact h.of_exchange rfl (Nat.le_refl _) (forall_of_pass_eq_none rfl)
  | waits _ _ _ => exact h
  | hungUp _ _ _ => exact h.of_exchange rfl (Nat.le_refl _) (forall_of_pass_eq_none rfl)
  | @took command hstage =>
      obtain ⟨hsession, hpass⟩ := d.take_begin command
      obtain ⟨hrequests, hfresh, hopened⟩ := d.session.begin_exchange command false
      rw [← hsession] at hrequests hfresh
      refine h.of_exchange hrequests hfresh fun p hp => ?_
      rw [(hopened p (hpass.symm.trans hp)).2.1]
      exact Nat.ne_of_gt h.old
  | ended _ => exact h.of_exchange rfl (Nat.le_refl _) (forall_of_pass_eq_none rfl)
  | superseded _ _ _ => exact h.of_exchange rfl (Nat.le_refl _) (forall_of_pass_eq_none rfl)
  | deafened hstage _ hqueue _ =>
      refine h.of_exchange rfl (Nat.le_refl _) fun p hp htoken => ?_
      exact (h.superseded p hp htoken).1 hqueue
  | @ran p hstage hquiet =>
      have hother : p.token ≠ token := by
        intro htoken
        obtain ⟨hqueue, hlistens⟩ := h.superseded p (by rw [pass, hstage]) htoken
        rcases hquiet with hdeaf | ⟨hempty, -⟩
        · rw [hlistens] at hdeaf
          cases hdeaf
        · exact hqueue hempty
      obtain ⟨⟨asked, hasked, htokens, -⟩, hfresh, htoken⟩ := p.advance_requests setup d.session
      obtain ⟨hsession, hpass⟩ := d.runPass_advance setup p
      refine ⟨?_, fun r hr => ?_, fun p' hp' htoken' => ?_⟩
      · rw [hsession, hfresh]
        exact h.old
      · rw [hsession, hasked, List.drop_append, List.mem_append] at hr
        rcases hr with hearlier | hlater
        · exact h.unasked r hearlier
        · rw [htokens r (List.mem_of_mem_drop hlater)]
          exact hother
      · rw [hpass] at hp'
        split at hp'
        · cases hp'
        · cases hp'
          exact absurd (htoken.symm.trans htoken') hother
  | rests _ => exact h

theorem Spares.arrive (h : Spares token made d) (command : FilterCommand) :
    Spares token made (d.arrive command) := by
  rw [Drive.arrive]
  split
  · refine ⟨h.old, h.unasked, fun p hp htoken => ⟨?_, (h.superseded p hp htoken).2⟩⟩
    exact List.append_ne_nil_of_right_ne_nil _ (List.cons_ne_nil _ _)
  · exact h

theorem Run.spares_foldl (setup : FilterSetup) {r : Run} (h : Spares token made r.drive)
    (actions : List Action) : Spares token made (actions.foldl (act setup) r).drive := by
  induction actions generalizing r with
  | nil => exact h
  | cons action actions ih =>
      refine ih ?_
      cases action with
      | arrive command => exact h.arrive command
      | close => exact ⟨h.old, h.unasked, h.superseded⟩
      | turn document => exact ⟨h.old, h.unasked, h.superseded⟩
      | step => exact h.stepped (stepped setup r.drive)

/--
Of a drive with commands left: it listens, and no request has been made since the start.  The
pass under way has a token that was given out.
-/
structure Holds (requests : List Model.Request) (d : Drive) : Prop where
  issued : ∀ p, d.pass = some p → p.token < d.session.exchange.fresh
  unasked : d.queue ≠ [] ∨ d.atHand ≠ none →
    d.listens = true ∧ d.session.exchange.requests = requests

theorem listens_take (d : Drive) (command : FilterCommand) :
    (d.take command).listens = d.listens := by
  rw [take]
  split
  · rfl
  · rfl

theorem Holds.stepped {requests : List Model.Request} {goesOn : Bool} (h : Holds requests d)
    (hstepped : Stepped setup d d' goesOn) : Holds requests d' := by
  cases hstepped with
  | fetched _ hqueue =>
      have hleft : d.queue ≠ [] := by simp [hqueue]
      exact ⟨forall_of_pass_eq_none rfl, fun _ => h.unasked (.inl hleft)⟩
  | waits _ _ _ => exact h
  | hungUp hstage hqueue _ =>
      exact ⟨forall_of_pass_eq_none rfl, fun hleft => hleft.elim (absurd hqueue) (absurd rfl)⟩
  | @took command hstage =>
      obtain ⟨hsession, hpass⟩ := d.take_begin command
      obtain ⟨hrequests, hfresh, hopened⟩ := d.session.begin_exchange command false
      obtain ⟨hlistens, hunasked⟩ := h.unasked (.inr (by simp [atHand, hstage]))
      refine ⟨fun p hp => ?_, fun _ => ⟨(d.listens_take command).trans hlistens, ?_⟩⟩
      · rw [hsession]
        exact (hopened p (hpass.symm.trans hp)).2.2
      · rw [hsession, hrequests, hunasked]
  | ended _ =>
      refine ⟨forall_of_pass_eq_none rfl, fun hleft => ?_⟩
      exact h.unasked (.inl (hleft.resolve_right (absurd rfl)))
  | superseded _ hlistens hqueue =>
      have hleft : d.queue ≠ [] := by simp [hqueue]
      exact ⟨forall_of_pass_eq_none rfl, fun _ => h.unasked (.inl hleft)⟩
  | deafened hstage _ hqueue _ =>
      refine ⟨h.issued, fun hleft => hleft.elim (absurd hqueue) fun hatHand => ?_⟩
      exact absurd (by rw [atHand, hstage]) hatHand
  | @ran p hstage hquiet =>
      obtain ⟨-, hfresh, htoken⟩ := p.advance_requests setup d.session
      obtain ⟨hsession, hpass⟩ := d.runPass_advance setup p
      obtain ⟨hqueue, -, hatHand, -⟩ := runPass_keeps setup d p
      refine ⟨fun p' hp' => ?_, fun hleft => ?_⟩
      · rw [hpass] at hp'
        split at hp'
        · cases hp'
        · cases hp'
          rw [hsession, hfresh, htoken]
          exact h.issued p (by rw [pass, hstage])
      · -- with commands left the pass does not go on
        have hmore : d.queue ≠ [] := by
          rw [← hqueue]
          exact hleft.resolve_right (absurd hatHand)
        rcases hquiet with hdeaf | ⟨hempty, -⟩
        · rw [(h.unasked (.inl hmore)).1] at hdeaf
          cases hdeaf
        · exact absurd hempty hmore
  | rests _ => exact h

theorem Run.holds_replicate {requests : List Model.Request} (setup : FilterSetup) {r : Run}
    (h : Holds requests r.drive) (n : Nat) :
    Holds requests ((List.replicate n Action.step).foldl (act setup) r).drive := by
  induction n generalizing r with
  | zero => exact h
  | succ n ih => exact @ih (r.act setup .step) (h.stepped (stepped setup r.drive))

/-- The pass of a burst that is under way while commands are left never reaches the model. -/
theorem Run.spares_burst (setup : FilterSetup) (s : Session) (commands : List FilterCommand)
    (n : Nat) {p : Pass} :
    let r := ofActions setup s (commands.map Action.arrive ++ .close :: List.replicate n .step)
    r.drive.pass = some p → r.drive.queue ≠ [] →
      Spares p.token s.exchange.requests.length r.drive := by
  intro r hpass hqueue
  obtain ⟨harrived, -, -⟩ := foldl_arrive setup { drive := { session := s } } rfl commands
  have hholds : Holds s.exchange.requests r.drive := by
    rw [show r = _ from ofActions_append _ _ _ _, List.foldl_cons]
    refine holds_replicate setup ?_ n
    rw [act, ofActions, harrived, @Drive.foldl_arrive { session := s } rfl]
    exact ⟨forall_of_pass_eq_none rfl, fun _ => ⟨rfl, rfl⟩⟩
  obtain ⟨hlistens, hrequests⟩ := hholds.unasked (.inl hqueue)
  refine ⟨hholds.issued p hpass, ?_, fun _ _ _ => ⟨hqueue, hlistens⟩⟩
  rw [hrequests, List.drop_length]
  exact fun r hr => absurd hr List.not_mem_nil

end

end Drive

/-! ## One review for a batch -/

namespace Session

def reviewsAsked (s : Session) : Nat :=
  s.exchange.requests.countP Model.Request.asksForReview

/-- How many reviews the model was asked for, and may still be asked for by the pass under way. -/
def reviewsDue (next : Session × Option Pass) : Nat :=
  next.1.reviewsAsked + next.2.elim 0 Pass.owed

theorem reviewsDue_filter (s : Session) (p? : Option Pass) :
    reviewsDue (s, p?.filter fun p => !p.isOver) = reviewsDue (s, p?) := by
  cases p? with
  | none => rfl
  | some p =>
      cases hover : p.isOver with
      | false => simp [Option.filter, hover]
      | true =>
          have howed : p.owed = 0 := by rw [Pass.owed, Pass.phase_of_isOver hover]
          simp [Option.filter, hover, reviewsDue, howed]

theorem reviewsDue_goOn_le (setup : FilterSetup) (s : Session) (p? : Option Pass) :
    reviewsDue (s.goOn setup p?) ≤ reviewsDue (s, p?) := by
  cases p? with
  | none => exact Nat.le_refl _
  | some p =>
      obtain ⟨⟨made, hmade, -, hcount⟩, -, -⟩ := p.advance_requests setup s
      simp only [reviewsDue, reviewsAsked, goOn, hmade, List.countP_append, Option.elim_some]
      omega

theorem reviewsAsked_drop (s : Session) (p? : Option Pass) :
    (s.drop p?).reviewsAsked = s.reviewsAsked := by
  cases p? with
  | none => rfl
  | some p => rfl

theorem reviewsAsked_begin (s : Session) (command : FilterCommand) (isCancelled : Bool) :
    (s.begin command isCancelled).1.reviewsAsked = s.reviewsAsked :=
  congrArg (List.countP _) (s.begin_exchange command isCancelled).1

theorem reviewsAsked_foldl_skip (s : Session) (commands : List FilterCommand) :
    (commands.foldl skip s).reviewsAsked = s.reviewsAsked := by
  induction commands generalizing s with
  | nil => rfl
  | cons command commands ih =>
      rw [List.foldl_cons, ih, skip, reviewsAsked_drop, reviewsAsked_begin]

theorem reviewsDue_handle_le (setup : FilterSetup) (s : Session) (command : FilterCommand)
    (isCancelled : Bool) :
    reviewsDue (s.handle setup command isCancelled) ≤ s.reviewsAsked + 1 := by
  rw [handle_eq_goOn, ← s.reviewsAsked_begin command isCancelled]
  refine Nat.le_trans (reviewsDue_goOn_le setup _ _) (Nat.add_le_add_left ?_ _)
  cases (s.begin command isCancelled).2 with
  | none => exact Nat.zero_le 1
  | some p => exact p.owed_le

end Session

namespace Drive

def reviewsDue (d : Drive) : Nat :=
  Session.reviewsDue (d.session, d.pass)

section

variable {d : Drive}

theorem Reaches.reviewsDue {next : Session × Option Pass} {canArrive : Bool}
    (h : Reaches next canArrive d) : d.reviewsDue = Session.reviewsDue next := by
  rw [Drive.reviewsDue, h.session, h.pass, Session.reviewsDue_filter]

theorem reviewsAsked_le_reviewsDue (d : Drive) : d.session.reviewsAsked ≤ d.reviewsDue :=
  Nat.le_add_right _ _

/-- A drive that is woken asks for no more reviews than are due. -/
theorem Waits.reviewsDue_poll_le (setup : FilterSetup) (h : d.Waits) :
    (d.poll setup).Waits ∧ (d.poll setup).reviewsDue ≤ d.reviewsDue := by
  have hreaches := h.reaches setup
  refine ⟨hreaches.waits, ?_⟩
  rw [hreaches.reviewsDue]
  exact Session.reviewsDue_goOn_le setup d.session d.pass

theorem Waits.reviewsDue_foldl_wake_le (setup : FilterSetup) (h : d.Waits)
    (documents : List (Option Document)) :
    (documents.foldl (Drive.wake setup) d).Waits ∧
      (documents.foldl (Drive.wake setup) d).reviewsDue ≤ d.reviewsDue := by
  induction documents generalizing d with
  | nil => exact ⟨h, Nat.le_refl _⟩
  | cons document documents ih =>
      obtain ⟨hwaits, hdue⟩ := (h.turn document).reviewsDue_poll_le setup
      obtain ⟨hwaits', hdue'⟩ := ih hwaits
      exact ⟨hwaits', Nat.le_trans hdue' hdue⟩

/-- A batch of commands makes one review due at most, in place of what was due before. -/
theorem Waits.reviewsDue_feed_le (setup : FilterSetup) (h : d.Waits) (hopen : d.isOpen = true)
    (command : FilterCommand) (batch : List FilterCommand) :
    (d.feed setup (command :: batch)).Waits ∧ (d.feed setup (command :: batch)).isOpen = true ∧
      (d.feed setup (command :: batch)).reviewsDue ≤ d.session.reviewsAsked + 1 := by
  obtain ⟨front, last, hsplit⟩ : ∃ front last, command :: batch = front ++ [last] :=
    ⟨_, _, (List.dropLast_concat_getLast (List.cons_ne_nil command batch)).symm⟩
  have hreaches := h.reaches_feed setup hopen front last
  rw [hsplit]
  refine ⟨hreaches.waits, hreaches.isOpen.trans hopen, ?_⟩
  rw [hreaches.reviewsDue, ← Session.reviewsAsked_drop d.session d.pass,
    ← Session.reviewsAsked_foldl_skip _ front]
  exact Session.reviewsDue_handle_le setup _ last false

theorem Waits.foldl_round (setup : FilterSetup) (h : d.Waits) (hopen : d.isOpen = true)
    (rounds : List (Option Document × List FilterCommand)) :
    (rounds.foldl (Drive.round setup) d).Waits ∧
      (rounds.foldl (Drive.round setup) d).isOpen = true ∧
        (rounds.foldl (Drive.round setup) d).reviewsDue ≤
          d.reviewsDue + rounds.countP fun next => !next.2.isEmpty := by
  induction rounds generalizing d with
  | nil => exact ⟨h, hopen, Nat.le_refl _⟩
  | cons next rounds ih =>
      obtain ⟨document, batch⟩ := next
      cases batch with
      | nil =>
          obtain ⟨hwaits, hdue⟩ := (h.turn document).reviewsDue_poll_le setup
          have hopen' := ((h.turn document).reaches setup).isOpen.trans hopen
          obtain ⟨hwaits', hopen'', hdue'⟩ := ih hwaits hopen'
          have hturned : (d.turn document).reviewsDue = d.reviewsDue := rfl
          refine ⟨hwaits', hopen'', Nat.le_trans hdue' ?_⟩
          simpa [hturned] using hdue
      | cons command batch =>
          obtain ⟨hwaits, hopen', hdue⟩ :=
            (h.turn document).reviewsDue_feed_le setup hopen command batch
          obtain ⟨hwaits', hopen'', hdue'⟩ := ih hwaits hopen'
          have hasked := d.reviewsAsked_le_reviewsDue
          have hturned : (d.turn document).session.reviewsAsked = d.session.reviewsAsked := rfl
          refine ⟨hwaits', hopen'', Nat.le_trans hdue' ?_⟩
          rw [List.countP_cons_of_pos (by rfl)]
          rw [hturned] at hdue
          omega

/-- Batches that a drive is fed are rounds in which the active document stays. -/
theorem exists_rounds (setup : FilterSetup) (d : Drive) (batches : List (List FilterCommand)) :
    ∃ rounds : List (Option Document × List FilterCommand), rounds.map (·.2) = batches ∧
      batches.foldl (feed setup) d = rounds.foldl (round setup) d := by
  induction batches generalizing d with
  | nil => exact ⟨[], rfl, rfl⟩
  | cons batch batches ih =>
      obtain ⟨rounds, hrounds, hsame⟩ := ih (d.feed setup batch)
      exact ⟨(d.session.document, batch) :: rounds, by rw [List.map_cons, hrounds], hsame⟩

theorem waits_initial (s : Session) : ({ session := s } : Drive).Waits := by
  refine ⟨rfl, rfl, fun _ hdeaf => ?_⟩
  have hfalse : true = false := hdeaf.listens_eq_false nofun nofun
  cases hfalse

theorem Waits.close (h : d.Waits) : d.close.Waits :=
  ⟨h.queue, h.atHand, nofun⟩

/-- A pass under way at the end of the commands may still ask for the review that is due. -/
theorem Waits.reviewsAsked_close_le (setup : FilterSetup) (h : d.Waits)
    (documents : List (Option Document)) :
    (documents.foldl (Drive.wake setup) (d.close.poll setup)).session.reviewsAsked ≤
      d.reviewsDue := by
  obtain ⟨hwaits, hdue⟩ := h.close.reviewsDue_poll_le setup
  obtain ⟨-, hdue'⟩ := hwaits.reviewsDue_foldl_wake_le setup documents
  exact Nat.le_trans (reviewsAsked_le_reviewsDue _) (Nat.le_trans hdue' hdue)

end

/--
A burst of commands leads to the same events, requests, filter and pass as the transitions of
all commands but the last, and then the last one carried out; only the tokens may differ.  This
stays so whenever the drive is woken.  A pass that a later command of the burst supersedes never
makes a request.  When commands come in batches, each while the drive can only wait, a batch
leads to one request for a review at most, and so do all of them together for each batch.
-/
theorem burst_collapses (setup : FilterSetup) (s : Session) :
    (∀ (front : List FilterCommand) (last : FilterCommand) (documents : List (Option Document)),
      let d := documents.foldl (wake setup) (runBurst setup s (front ++ [last]))
      let h := documents.foldl (Session.resume setup)
        ((front.foldl Session.transition s).handle setup last false)
      d.session.forgetTokens = h.1.forgetTokens ∧
        d.pass.map Pass.forgetToken =
          (h.2.filter fun p => !p.isOver).map Pass.forgetToken ∧
            d.isFinished = d.pass.isNone) ∧
    (∀ (commands : List FilterCommand) (n : Nat) (p : Pass),
      let r := Run.ofActions setup s
        (commands.map Action.arrive ++ .close :: List.replicate n .step)
      r.drive.pass = some p → r.drive.queue ≠ [] → ∀ after : List Action,
        let later := (after.foldl (Run.act setup) r).drive.session.exchange
        ∀ request ∈ later.requests.drop s.exchange.requests.length, request.token ≠ p.token) ∧
    (∀ (rounds : List (Option Document × List FilterCommand)) (document : Option Document)
        (command : FilterCommand) (batch : List FilterCommand)
        (documents closing : List (Option Document)),
      let d := rounds.foldl (round setup) { session := s }
      let woken := documents.foldl (wake setup) (d.round setup (document, command :: batch))
      let closed := closing.foldl (wake setup) (woken.close.poll setup)
      woken.session.reviewsAsked ≤ d.session.reviewsAsked + 1 ∧
        closed.session.reviewsAsked ≤ d.session.reviewsAsked + 1) ∧
    ∀ (batches : List (List FilterCommand)) (closing : List (Option Document)),
      (closing.foldl (wake setup) (run setup s batches)).session.reviewsAsked ≤
        s.reviewsAsked + batches.countP fun batch => !batch.isEmpty := by
  refine ⟨?_, ?_, ?_, ?_⟩
  · intro front last documents d h
    have hreaches := (reaches_runBurst setup s front last).foldl_wake setup documents
    have hsame := Session.forgotten_foldl_resume_congr setup (Session.forgotten_handle_congr setup
      (s.forgetTokens_foldl_skip front) last false) documents
    obtain ⟨hsession, hpass⟩ := Prod.mk.inj hsame
    refine ⟨?_, ?_, ?_⟩
    · rw [hreaches.session]
      exact hsession
    · rw [hreaches.pass, Session.map_forgetToken_filter, Session.map_forgetToken_filter]
      exact congrArg (Option.filter _) hpass
    · cases hnone : d.pass with
      | none => exact hreaches.finished rfl hnone
      | some p =>
          refine Bool.eq_false_iff.mpr fun hfinished => ?_
          rw [pass_of_isFinished hfinished] at hnone
          cases hnone
  · intro commands n p r hpass hqueue after
    exact (Run.spares_foldl setup (Run.spares_burst setup s commands n hpass hqueue) after).unasked
  · intro rounds document command batch documents closing d woken closed
    obtain ⟨hwaits, hopen, -⟩ := (waits_initial s).foldl_round setup rfl rounds
    obtain ⟨hfed, -, hdue⟩ :=
      (hwaits.turn document).reviewsDue_feed_le setup hopen command batch
    obtain ⟨hwoken, hdue'⟩ := hfed.reviewsDue_foldl_wake_le setup documents
    refine ⟨?_, ?_⟩
    · exact Nat.le_trans (reviewsAsked_le_reviewsDue _) (Nat.le_trans hdue' hdue)
    · exact Nat.le_trans (hwoken.reviewsAsked_close_le setup closing) (Nat.le_trans hdue' hdue)
  · intro batches closing
    obtain ⟨rounds, rfl, hsame⟩ := exists_rounds setup { session := s } batches
    obtain ⟨hwaits, -, hdue⟩ := (waits_initial s).foldl_round setup rfl rounds
    rw [run, hsame, List.countP_map]
    exact Nat.le_trans (hwaits.reviewsAsked_close_le setup closing) hdue

/-- Two toggles in a burst: the pass of the first is under way when the second is still queued. -/
theorem burst_collapses_toggles :
    let r := Run.ofActions lateSetup lateSession
      ([.toggle .red, .toggle .green].map Action.arrive ++ .close :: List.replicate 2 .step)
    r.drive.pass = some { token := 0, signal := .display .red } ∧
      r.drive.queue = [.toggle .green] ∧ ∀ after : List Action,
        let later := (after.foldl (Run.act lateSetup) r).drive.session.exchange
        ∀ request ∈ later.requests, request.token ≠ 0 := by
  intro r
  have hpass : r.drive.pass = some { token := 0, signal := .display .red } := by decide +kernel
  have hqueue : r.drive.queue = [.toggle .green] := by decide +kernel
  obtain ⟨-, hspared, -⟩ := burst_collapses lateSetup lateSession
  refine ⟨hpass, hqueue, fun after => ?_⟩
  refine hspared [.toggle .red, .toggle .green] 2 _ hpass ?_ after
  rw [hqueue]
  exact List.cons_ne_nil _ _

end Drive

end Marginalia
