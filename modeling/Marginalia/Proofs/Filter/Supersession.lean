import Mathlib.Data.List.Induction
import Marginalia.Proofs.Filter.Batches
import Marginalia.Proofs.Filter.Outcome

/-!
# The command that is taken last

A drive that finishes has shown what the last command asks for, and nothing of the passes
before: the markers of the reply to the review that this command started, if it started one
and its requests were not cancelled.
-/

namespace Marginalia

namespace Drive

/-! ## Since a command was taken -/

/-- What holds of a drive from when a command was taken to when the next one is. -/
structure Follows (setup : FilterSetup) (opened : Session × Option Pass) (d : Drive) : Prop where
  racing : ∀ p', d.pass = some p' →
    ∃ p ∈ opened.2, p.Continues p' ∧ p'.Goes setup opened.1 d.session
  idle : d.pass = none →
    (opened.2 = none → ∀ id, d.session.filter.ledger.rendered id = []) ∧
      ∀ p, opened.2 = some p → p.token ∈ d.session.exchange.cancelled ∨
        p.Concludes setup opened.1 d.session

namespace Follows

variable {setup : FilterSetup} {opened : Session × Option Pass} {d d' : Drive}

theorem of_eq (h : Follows setup opened d) (hpass : d'.pass = d.pass)
    (hsession : d'.session = d.session) : Follows setup opened d' := by
  refine ⟨fun p' hp' => ?_, fun hnone => ?_⟩
  · rw [hsession]
    exact h.racing p' (hpass ▸ hp')
  · rw [hsession]
    exact h.idle (hpass ▸ hnone)

theorem take (setup : FilterSetup) (d : Drive) (severity : Severity) :
    Follows setup (d.session.begin (.toggle severity) false) (d.take (.toggle severity)) := by
  obtain ⟨hsession, hpass⟩ := d.take_begin (.toggle severity)
  obtain ⟨hinactive, hactive⟩ := d.session.begin_toggle_pass severity false
  cases hstate : (d.session.begin (.toggle severity) false).1.filter.state with
  | inactive =>
      have hnone := hinactive hstate
      rw [hnone] at hpass
      refine ⟨fun p' hp' => ?_, fun _ => ⟨fun _ => ?_, fun p hp => ?_⟩⟩
      · rw [hpass] at hp'
        cases hp'
      · rw [hsession]
        exact d.session.rendered_begin_toggle severity false
      · rw [hnone] at hp
        cases hp
  | active target =>
      obtain ⟨p, hp, -, hphase, hcancelled⟩ := hactive target hstate
      rw [hp] at hpass
      refine ⟨fun p' hp' => ?_, fun hnone => ?_⟩
      · cases hpass.symm.trans hp'
        rw [hsession]
        exact ⟨p, hp, .refl p, .inr (Pass.stands_of_toggle hcancelled hphase)⟩
      · rw [hpass] at hnone
        cases hnone

/-- What holds of a drive without a pass, by what became of the one that it followed. -/
theorem of_pass_none {p : Pass} (hp : opened.2 = some p) (hpass : d.pass = none)
    (hended : p.token ∈ d.session.exchange.cancelled ∨ p.Concludes setup opened.1 d.session) :
    Follows setup opened d := by
  refine ⟨fun p' hp' => ?_, fun _ => ⟨fun hnone => ?_, fun p' hp' => ?_⟩⟩
  · rw [hpass] at hp'
    cases hp'
  · rw [hp] at hnone
    cases hnone
  · cases hp.symm.trans hp'
    exact hended

theorem changed (h : Follows setup opened d) (hchanged : Changed setup d d')
    (hnone : d.atHand = none) : Follows setup opened d' := by
  cases hchanged with
  | rested _ hsession hpass => exact h.of_eq hpass hsession
  | took hatHand _ _ =>
      rw [hnone] at hatHand
      cases hatHand
  | superseded _ hbefore hsession hpass =>
      obtain ⟨p₀, hp₀, hcontinues, -⟩ := h.racing _ hbefore
      refine of_pass_none hp₀ hpass (.inl ?_)
      rw [hsession, ← hcontinues.token]
      exact List.mem_cons_self
  | @ran p _ hbefore hsession hpass =>
      obtain ⟨p₀, hp₀, hcontinues, hgoes⟩ := h.racing p hbefore
      have hadvance := hgoes.advance
      have hlater := hcontinues.trans (p.advance_continues setup d.session)
      rw [← hsession] at hadvance
      by_cases hover : (p.advance setup d.session).2.isOver = true
      · rw [if_pos hover] at hpass
        refine of_pass_none hp₀ hpass ?_
        rcases hadvance with hcancelled | hstands
        · exact .inl (hlater.token ▸ hcancelled)
        · exact .inr ((hstands.concludes hover).of_continues hlater)
      · rw [if_neg hover] at hpass
        refine ⟨fun p' hp' => ?_, fun hidle => ?_⟩
        · cases hpass.symm.trans hp'
          exact ⟨p₀, hp₀, hlater, hadvance⟩
        · rw [hpass] at hidle
          cases hidle

end Follows

/-! ## Runs -/

namespace Run

theorem exists_applied_foldl (setup : FilterSetup) (r : Run) (actions : List Action) :
    ∃ more, (actions.foldl (act setup) r).applied = r.applied ++ more := by
  induction actions generalizing r with
  | nil => exact ⟨[], (List.append_nil _).symm⟩
  | cons action actions ih =>
      obtain ⟨commands, -, -, hact⟩ := Moves.act setup r action
      obtain ⟨more, hmore⟩ := ih (r.act setup action)
      exact ⟨commands ++ more, by rw [List.foldl_cons, hmore, hact, List.append_assoc]⟩

/-- The command that was applied last was at hand before one of the steps. -/
theorem exists_taken (setup : FilterSetup) (s : Session) (actions : List Action)
    {front : List FilterCommand} {command : FilterCommand}
    (h : (ofActions setup s actions).applied = front ++ [command]) :
    ∃ before after, actions = before ++ Action.step :: after ∧
      (ofActions setup s before).applied = front ∧
        (ofActions setup s before).drive.atHand = some command := by
  induction actions using List.reverseRecOn with
  | nil => simp [ofActions, applied] at h
  | append_singleton actions action ih =>
      have hsnoc : ofActions setup s (actions ++ [action]) =
          (ofActions setup s actions).act setup action := by
        rw [ofActions_append]
        rfl
      have hearlier : (ofActions setup s actions).applied = front ++ [command] →
          ∃ before after, actions ++ [action] = before ++ Action.step :: after ∧
            (ofActions setup s before).applied = front ∧
              (ofActions setup s before).drive.atHand = some command := by
        intro hbefore
        obtain ⟨before, after, rfl, happlied, hatHand⟩ := ih hbefore
        exact ⟨before, after ++ [action], by simp, happlied, hatHand⟩
      rw [hsnoc] at h
      cases action with
      | step =>
          rw [applied_step] at h
          cases hatHand : (ofActions setup s actions).drive.atHand with
          | none =>
              rw [hatHand, Option.toList_none, List.append_nil] at h
              exact hearlier h
          | some last =>
              rw [hatHand] at h
              obtain ⟨hfront, hlast⟩ := List.append_inj' h rfl
              cases hlast
              exact ⟨actions, [], rfl, hfront, hatHand⟩
      | _ => exact hearlier h

/--
What other drives with the same session and pass share, and what no turn of the document and no
step without a command takes away, stays until another command is applied.
-/
theorem keeps_foldl {setup : FilterSetup} {P : Drive → Prop}
    (hsame : ∀ d d' : Drive, d'.session = d.session → d'.pass = d.pass → P d → P d')
    (hchanged : ∀ d d', Changed setup d d' → d.atHand = none → P d → P d')
    {r : Run} (h : P r.drive) {actions : List Action}
    (hturn : ∀ document, Action.turn document ∈ actions → ∀ d : Drive, P d →
      P { d with session := { d.session with document } })
    (hlast : (actions.foldl (act setup) r).applied = r.applied) :
    P (actions.foldl (act setup) r).drive := by
  induction actions generalizing r with
  | nil => exact h
  | cons action actions ih =>
      have hturn' : ∀ document, Action.turn document ∈ actions → ∀ d : Drive, P d →
          P { d with session := { d.session with document } } :=
        fun document hmem => hturn document (List.mem_cons_of_mem action hmem)
      cases action with
      | arrive command =>
          refine ih ?_ hturn' hlast
          simp only [act, Drive.arrive]
          split
          · exact hsame r.drive _ rfl rfl h
          · exact h
      | close => exact ih (hsame r.drive _ rfl rfl h) hturn' hlast
      | turn document => exact ih (hturn document List.mem_cons_self _ h) hturn' hlast
      | step =>
          obtain ⟨more, hmore⟩ := exists_applied_foldl setup (r.act setup .step) actions
          rw [List.foldl_cons, hmore, applied_step, List.append_assoc] at hlast
          have hnone : r.drive.atHand.toList = [] := by
            have hnil := List.append_right_eq_self.mp hlast
            exact (List.append_eq_nil_iff.mp hnil).1
          have hstep := (stepped setup r.drive).changed
          refine ih (hchanged _ _ hstep (Option.toList_eq_nil_iff.mp hnone) h) hturn' ?_
          have hnil := List.append_right_eq_self.mp hlast
          rw [hmore, (List.append_eq_nil_iff.mp hnil).2, List.append_nil]

/-- Without another command that is applied, a drive keeps to the one that was taken last. -/
theorem follows_foldl {setup : FilterSetup} {opened : Session × Option Pass} {r : Run}
    (h : Follows setup opened r.drive) {actions : List Action}
    (hturn : TurnFree actions)
    (hlast : (actions.foldl (act setup) r).applied = r.applied) :
    Follows setup opened (actions.foldl (act setup) r).drive := by
  refine keeps_foldl (fun d d' hsession hpass hd => hd.of_eq hpass hsession)
    (fun d d' hchanged hnone hd => hd.changed hchanged hnone) h (fun document hmem => ?_) hlast
  exact absurd hmem (hturn document)

theorem document_step (setup : FilterSetup) (d : Drive) :
    (d.step setup).1.session.document = d.session.document := by
  cases (stepped setup d).changed with
  | rested _ hsession _ => rw [hsession]
  | @took command _ hsession _ =>
      rw [hsession]
      exact d.session.begin_document command false
  | superseded _ _ hsession _ => rw [hsession]
  | @ran p _ _ hsession _ =>
      rw [hsession]
      exact (p.advance_keeps setup d.session).2

theorem document_foldl (setup : FilterSetup) (r : Run) {actions : List Action}
    (hturn : TurnFree actions) :
    (actions.foldl (act setup) r).drive.session.document = r.drive.session.document := by
  induction actions generalizing r with
  | nil => rfl
  | cons action actions ih =>
      have hrest := ih (r.act setup action)
        fun document hmem => hturn document (List.mem_cons_of_mem action hmem)
      rw [List.foldl_cons, hrest]
      cases action with
      | arrive command =>
          simp only [act, Drive.arrive]
          split
          · rfl
          · rfl
      | close => rfl
      | turn document => exact absurd List.mem_cons_self (hturn document)
      | step => exact document_step setup r.drive

end Run

/-! ## The last command -/

theorem step_of_atHand {d : Drive} {command : FilterCommand} (setup : FilterSetup)
    (h : d.atHand = some command) : (d.step setup).1 = d.take command := by
  unfold atHand at h
  split at h
  · next hstage =>
      rw [step, hstage, h]
  · cases h

theorem pass_of_isFinished {d : Drive} (h : d.isFinished = true) : d.pass = none := by
  have hstage : d.stage = .finished := by simpa [isFinished] using h
  rw [pass, hstage]

/-- Whether the step between some actions takes a toggle, and no other command is taken later. -/
structure Run.TakesLast (setup : FilterSetup) (s : Session) (before after : List Action)
    (severity : Severity) : Prop where
  atHand : (Run.ofActions setup s before).drive.atHand = some (.toggle severity)
  applied : (Run.ofActions setup s (before ++ Action.step :: after)).applied =
    (Run.ofActions setup s before).applied ++ [.toggle severity]

namespace Run

theorem exists_takesLast (setup : FilterSetup) (s : Session) {actions : List Action}
    {severity : Severity}
    (hlast : (ofActions setup s actions).applied.getLast? = some (.toggle severity)) :
    ∃ before after, actions = before ++ Action.step :: after ∧
      TakesLast setup s before after severity := by
  obtain ⟨front, happlied⟩ := List.getLast?_eq_some_iff.mp hlast
  obtain ⟨before, after, rfl, hfront, hatHand⟩ := exists_taken setup s actions happlied
  exact ⟨before, after, rfl, hatHand, hfront ▸ happlied⟩

/-- A step takes the command at hand, and the run goes on from there without another one. -/
theorem ofActions_taken {setup : FilterSetup} {s : Session} {before after : List Action}
    {command : FilterCommand} (hatHand : (ofActions setup s before).drive.atHand = some command)
    (happlied : (ofActions setup s (before ++ Action.step :: after)).applied =
      (ofActions setup s before).applied ++ [command]) :
    ∃ taken : Run, taken.drive = (ofActions setup s before).drive.take command ∧
      (∀ actions, ofActions setup s (before ++ Action.step :: actions) =
        actions.foldl (act setup) taken) ∧
      (after.foldl (act setup) taken).applied = taken.applied := by
  have hsplit : ∀ actions, ofActions setup s (before ++ Action.step :: actions) =
      actions.foldl (act setup) ((ofActions setup s before).act setup .step) := by
    intro actions
    rw [ofActions_append, List.foldl_cons]
  refine ⟨(ofActions setup s before).act setup .step, step_of_atHand setup hatHand, hsplit, ?_⟩
  rw [← hsplit, happlied, applied_step, hatHand]
  rfl

namespace TakesLast

variable {setup : FilterSetup} {s : Session} {before after : List Action} {severity : Severity}

theorem follows (h : TakesLast setup s before after severity)
    (hturn : TurnFree (before ++ Action.step :: after)) :
    Follows setup ((ofActions setup s before).drive.session.begin (.toggle severity) false)
      (ofActions setup s (before ++ Action.step :: after)).drive := by
  obtain ⟨taken, htake, hsplit, hlast⟩ := ofActions_taken h.atHand h.applied
  rw [hsplit]
  refine follows_foldl ?_ (fun document hmem => ?_) hlast
  · rw [htake]
    exact .take setup _ severity
  · exact hturn document (List.mem_append_right _ (List.mem_cons_of_mem _ hmem))

theorem state (h : TakesLast setup s before after severity) :
    (ofActions setup s (before ++ Action.step :: after)).drive.session.filter.state =
      ((ofActions setup s before).drive.session.begin (.toggle severity) false).1.filter.state := by
  have hsound : Sound s.filter.state (ofActions setup s (before ++ Action.step :: after)) :=
    (sound_initial s).foldl _
  have hbefore : Sound s.filter.state (ofActions setup s before) := (sound_initial s).foldl _
  rw [hsound.state, h.applied, List.foldl_append, ← hbefore.state, Session.begin_state]
  rfl

end TakesLast

end Run

/-! ## What is shown in the end -/

/--
What a session shows when the pass for a severity is over that was opened in another one:
nothing when there was no document or no model, and else the markers of the reply to the
review, which was the last request.
-/
inductive ShowsReply (setup : FilterSetup) (opened s : Session) (token : Model.Token)
    (target : Severity) : Prop where
  | unasked (hnone : s.document = none ∨ setup.reviewer.model? = none)
      (hrequests : s.exchange.requests = opened.exchange.requests) (hshows : s.Shows fun _ => [])
  | asked {d : Document} {model : Nat} {made : List Model.Request} (hdocument : s.document = some d)
      (hmodel : setup.reviewer.model? = some model)
      (hrequests : s.exchange.requests = opened.exchange.requests ++
        (made ++ [⟨model, setup.reviewer.messages d s.filter.fileContext, token⟩]))
      (hshows : s.Shows fun id => if d.id = id then
        d.markersOfReply (.display target) (setup.palette.color target)
          (opened.exchange.answer made.length) else [])

theorem ShowsReply.of_concludes {setup : FilterSetup} {opened s : Session} {p : Pass}
    {target : Severity} (h : p.Concludes setup opened s) (hmirrored : s.Mirrored)
    (hdocument : s.document = opened.document) (hsignal : p.signal = .display target) :
    ShowsReply setup opened s p.token target := by
  cases h with
  | unasked hunasked hnone =>
      have hrequests := hunasked.since.requests
      rw [List.append_nil] at hrequests
      exact .unasked (hdocument ▸ hnone) hrequests (hmirrored.shows hunasked.rendered)
  | asked hasked hrendered =>
      obtain ⟨model, hmodel, hsince⟩ := hasked.since
      rw [hsignal] at hrendered
      exact .asked (hdocument.trans hasked.document) hmodel hsince.requests
        (hmirrored.shows hrendered)

/--
When a drive finishes, with the active document unchanged, and the last command that it took
is a toggle, then nothing is shown if this made the filter inactive; if it made a severity
active, the pass that it opened shows the reply to its own review, unless its requests were
cancelled.  Nothing is left of the passes before.  Any run in which a toggle is applied last
took it in one of its steps, and batches and bursts of commands are such runs.
-/
theorem shows_last_toggle (setup : FilterSetup) :
    (∀ document exchange commands made s p?,
      Moves setup { document, exchange } none commands made s p? →
        ∀ before after severity, Run.TurnFree (before ++ Action.step :: after) →
          Run.TakesLast setup s before after severity →
            let r := Run.ofActions setup s (before ++ Action.step :: after)
            let opened :=
              (Run.ofActions setup s before).drive.session.begin (.toggle severity) false
            r.drive.isFinished = true →
              r.drive.session.document = s.document ∧
              (r.drive.session.filter.state = .inactive → r.drive.session.Shows fun _ => []) ∧
              ∀ target, r.drive.session.filter.state = .active target →
                ∃ p, opened.2 = some p ∧ p.signal = .display target ∧
                  (r.drive.session.exchange.isCancelled p.token = false →
                    ShowsReply setup opened.1 r.drive.session p.token target)) ∧
    ∀ s,
      (∀ actions severity,
        (Run.ofActions setup s actions).applied.getLast? = some (.toggle severity) →
          ∃ before after, actions = before ++ Action.step :: after ∧
            Run.TakesLast setup s before after severity) ∧
      (∀ batches, ∃ actions, Run.TurnFree actions ∧
        (Run.ofActions setup s actions).drive = Drive.run setup s batches ∧
        (Run.ofActions setup s actions).arrived = batches.flatten) ∧
      ∀ commands, ∃ actions, Run.TurnFree actions ∧
        (Run.ofActions setup s actions).drive = Drive.runBurst setup s commands ∧
        (Run.ofActions setup s actions).arrived = commands := by
  refine ⟨?_, fun s => ⟨fun actions severity => Run.exists_takesLast setup s,
    Run.exists_run setup s, Run.exists_runBurst setup s⟩⟩
  intro document exchange commands made s p? hmoves before after severity hturn hlast r opened
    hfinished
  have hdocument : r.drive.session.document = s.document :=
    Run.document_foldl setup { drive := { session := s } } hturn
  have hopened : opened.1.document = s.document := by
    rw [show opened.1.document = _ from Session.begin_document _ _ _]
    exact Run.document_foldl setup { drive := { session := s } }
      fun document hmem => hturn document (List.mem_append_left _ hmem)
  have hmirrored : r.drive.session.Mirrored := by
    obtain ⟨made', hmoves'⟩ := Moves.drive setup s p? (before ++ Action.step :: after)
    exact hmoves'.mirrored (hmoves.mirrored (Session.mirrored_fresh document exchange))
  obtain ⟨hblank, hconcludes⟩ := (hlast.follows hturn).idle (pass_of_isFinished hfinished)
  obtain ⟨hinactive, hactive⟩ :=
    (Run.ofActions setup s before).drive.session.begin_toggle_pass severity false
  refine ⟨hdocument, fun hstate => ?_, fun target hstate => ?_⟩
  · exact hmirrored.shows (hblank (hinactive (hlast.state.symm.trans hstate)))
  · obtain ⟨p, hp, hsignal, -, -⟩ := hactive target (hlast.state.symm.trans hstate)
    refine ⟨p, hp, hsignal, fun hquiet => ?_⟩
    rcases hconcludes p hp with hcancelled | hconcludes
    · rw [Model.Exchange.isCancelled, List.contains_iff_mem.mpr hcancelled] at hquiet
      cases hquiet
    · exact .of_concludes hconcludes hmirrored (hdocument.trans hopened.symm) hsignal

/-! ## A pass that stalls and is superseded -/

/--
The run after a step in which its pass takes in the one record that has arrived; `none` if
there is no such step.
-/
def Run.readOnce? (setup : FilterSetup) (r : Run) : Option Run := do
  let p ← r.drive.pass
  let (s, p) := p.prepare setup r.drive.session
  let (s, p) ← p.readRecord s
  if (p.readRecord s).isNone ∧ (r.drive.listens = false ∨ r.drive.queue = [] ∧ r.drive.isOpen) then
    let (session, p) := p.settle s
    let drive := { r.drive with session }
    some { r with drive := if p.isOver then drive.idle else { drive with stage := .racing p } }
  else none

theorem step_of_pass (setup : FilterSetup) {d : Drive} {p : Pass} (hpass : d.pass = some p)
    (hquiet : d.listens = false ∨ d.queue = [] ∧ d.isOpen = true) :
    (d.step setup).1 = d.runPass setup p ∧ d.atHand = none := by
  refine ⟨?_, atHand_of_pass hpass⟩
  rw [step, stage_of_pass hpass]
  rcases hquiet with hlistens | ⟨hqueue, hopen⟩
  · simp [hlistens]
  · simp [hqueue, hopen]

theorem Run.act_step_of_readOnce? {setup : FilterSetup} {r r' : Run}
    (h : r.readOnce? setup = some r') : r.act setup .step = r' := by
  simp only [readOnce?, Option.bind_eq_bind, Option.bind_eq_some_iff] at h
  obtain ⟨p, hpass, ⟨s', p'⟩, hread, h⟩ := h
  split at h
  · next hquiet =>
      obtain ⟨hnone, hquiet⟩ := hquiet
      have hadvance : p.advance setup r.drive.session = p'.settle s' := by
        rw [Pass.advance, ← Pass.readOn_eq_settle (Option.isNone_iff_eq_none.mp hnone)]
        exact Pass.readOn_of_readRecord hread
      obtain ⟨hstep, hatHand⟩ := step_of_pass setup hpass hquiet
      rw [act, hstep, hatHand, runPass, hadvance, ← Option.some.inj h]
      simp
  · cases h

theorem Run.act_step_of_isSome {setup : FilterSetup} {r : Run}
    (h : (r.readOnce? setup).isSome = true) :
    r.act setup .step = (r.readOnce? setup).getD r := by
  obtain ⟨r', hr'⟩ := Option.isSome_iff_exists.mp h
  rw [act_step_of_readOnce? hr', hr']
  rfl

def lateSetup : FilterSetup :=
  { reviewer := { catalog := ⟨[⟨"test", "scripted"⟩]⟩ } }

def lateReply : List Model.Event :=
  [.fragment "\x7b\"line\":1,\"severity\":\"green\",\"suggestion\":\"b\"\x7d"]

/-- A filter whose model answers with a record before it stalls, and then with another one. -/
def lateSession : Session :=
  { document := some { id := "main.rs", lines := ["fn main()", "  run();"] }
    exchange := { replies := [
      .stream [.fragment "\x7b\"line\":2,\"severity\":\"red\",\"suggestion\":\"a\"\x7d", .stall],
      .stream lateReply] } }

def lateStart : List Action :=
  [.arrive (.toggle .red), .step, .step, .step, .arrive (.toggle .green), .step]

def lateEnd : List Action :=
  [.close, .step, .step, .step]

def lateMarked : Run :=
  let r := Run.ofActions lateSetup lateSession [.arrive (.toggle .red), .step, .step]
  (r.readOnce? lateSetup).getD r

def lateTaken : Run :=
  [.arrive (.toggle .green), .step].foldl (Run.act lateSetup) lateMarked

def lateOver : Run :=
  let r := [.step, .close, .step].foldl (Run.act lateSetup) lateTaken
  ((r.readOnce? lateSetup).getD r).act lateSetup .step

theorem ofActions_lateStart : Run.ofActions lateSetup lateSession lateStart = lateTaken := by
  have hread := @Run.act_step_of_isSome lateSetup
    (Run.ofActions lateSetup lateSession [.arrive (.toggle .red), .step, .step]) (by decide +kernel)
  have hsplit : lateStart = [.arrive (.toggle .red), .step, .step] ++
      (Action.step :: [.arrive (.toggle .green), .step]) := rfl
  rw [hsplit, Run.ofActions_append, List.foldl_cons, hread]
  rfl

theorem ofActions_late :
    Run.ofActions lateSetup lateSession (lateStart ++ Action.step :: lateEnd) = lateOver := by
  have hread := @Run.act_step_of_isSome lateSetup
    ([.step, .close, .step].foldl (Run.act lateSetup) lateTaken) (by decide +kernel)
  have hsplit : Action.step :: lateEnd = [.step, .close, .step] ++ [.step, .step] := rfl
  rw [Run.ofActions_append, ofActions_lateStart, hsplit, List.foldl_append, List.foldl_cons, hread]
  rfl

/-- What the run is when it takes the second toggle, whose pass has the token 1. -/
theorem lateTaken_eq :
    lateTaken.drive.atHand = some (.toggle .green) ∧ lateTaken.applied = [.toggle .red] ∧
      lateTaken.drive.session.filter.ledger.rendered "main.rs" =
        [⟨.red, "a", "rgb(255, 114, 114)", ⟨2, 2, 8⟩⟩] ∧
      let opened := lateTaken.drive.session.begin (.toggle .green) false
      opened.2 = some { token := 1, signal := .display .green } ∧
        opened.1.exchange.requests.length = 1 ∧
        opened.1.exchange.answer 0 = .stream lateReply := by
  decide +kernel

theorem lateOver_eq :
    lateOver.drive.isFinished = true ∧ lateOver.applied = [.toggle .red, .toggle .green] ∧
      lateOver.drive.session.filter.state = .active .green ∧
      lateOver.drive.session.exchange.isCancelled 1 = false ∧
      lateOver.drive.session.exchange.requests.length = 2 := by
  decide +kernel

/-- The marker of the first pass is gone in the end; that of the second one is shown. -/
theorem shows_last_toggle_stalled :
    Run.TakesLast lateSetup lateSession lateStart lateEnd .green ∧
      (Run.ofActions lateSetup lateSession lateStart).drive.session.filter.ledger.rendered
        "main.rs" = [⟨.red, "a", "rgb(255, 114, 114)", ⟨2, 2, 8⟩⟩] ∧
      let r := Run.ofActions lateSetup lateSession (lateStart ++ Action.step :: lateEnd)
      r.drive.isFinished = true ∧ r.drive.session.Shows fun id =>
        if "main.rs" = id then [⟨.green, "b", "rgb(54, 255, 108)", ⟨1, 0, 9⟩⟩] else [] := by
  obtain ⟨hatHand, hbefore, hmarked, hpass, hfirst, hanswer⟩ := lateTaken_eq
  obtain ⟨hfinished, happlied, hstate, hquiet, hrequests⟩ := lateOver_eq
  have hlast : Run.TakesLast lateSetup lateSession lateStart lateEnd .green := by
    refine ⟨?_, ?_⟩
    · rw [ofActions_lateStart, hatHand]
    · rw [ofActions_late, ofActions_lateStart, happlied, hbefore]
      rfl
  have hturn : Run.TurnFree (lateStart ++ Action.step :: lateEnd) := by
    simp [Run.TurnFree, lateStart, lateEnd]
  have hshown := (shows_last_toggle lateSetup).1 _ _ _ _ lateSession none .refl _ _ _ hturn hlast
  rw [ofActions_late, ofActions_lateStart] at hshown ⊢
  refine ⟨hlast, hmarked, hfinished, ?_⟩
  obtain ⟨hdocument, -, hactive⟩ := hshown hfinished
  obtain ⟨p, hp, -, hreply⟩ := hactive .green hstate
  cases hp.symm.trans hpass
  have hmain : lateOver.drive.session.document =
      some { id := "main.rs", lines := ["fn main()", "  run();"] } := hdocument
  cases hreply hquiet with
  | unasked hnone _ _ =>
      have hmodel : lateSetup.reviewer.model? = some 0 := by decide +kernel
      rw [hmain, hmodel] at hnone
      cases hnone with
      | inl h => cases h
      | inr h => cases h
  | @asked d model made hd _ hall hshows =>
      have hnone : made.length = 0 := by
        rw [hall, List.length_append, List.length_append, List.length_singleton,
          hfirst] at hrequests
        omega
      have hmarkers : Document.markersOfReply
          { id := "main.rs", lines := ["fn main()", "  run();"] } (.display .green)
          (lateSetup.palette.color .green) (.stream lateReply) =
            [⟨.green, "b", "rgb(54, 255, 108)", ⟨1, 0, 9⟩⟩] := by
        decide +kernel
      rw [Option.some.inj (hd.symm.trans hmain), hnone, hanswer, hmarkers] at hshows
      exact hshows

end Drive

end Marginalia
