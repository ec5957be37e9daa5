import Marginalia.Proofs.Filter.Batches
import Marginalia.Proofs.Filter.Publication
import Marginalia.Proofs.Filter.Tokens

/-!
# Bursts of commands

Of the commands that a drive finds queued only the last is carried out: the others make their
transitions, and the passes they open are dropped before anything is done for them.
-/

namespace Marginalia

theorem Pass.advance_of_isOver {p : Pass} (hover : p.isOver = true) (setup : FilterSetup)
    (s : Session) : p.advance setup s = (s, p) := by
  have hprepare : p.prepare setup s = (s, p) := by rw [prepare, phase_of_isOver hover]
  rw [advance, hprepare]
  exact readOn_of_isOver hover s

namespace Session

def transition (s : Session) (command : FilterCommand) : Session :=
  (s.start command).1

def drop (s : Session) : Option Pass → Session
  | none => s
  | some p => { s with exchange := s.exchange.cancel p.token }

/-- The session after a command of which the pass, if it opens one, is dropped at once. -/
def skip (s : Session) (command : FilterCommand) : Session :=
  (s.begin command false).1.drop (s.begin command false).2

/-- Goes on with a pass, if there is one, until it is over or has to wait. -/
def goOn (setup : FilterSetup) (s : Session) : Option Pass → Session × Option Pass
  | none => (s, none)
  | some p => ((p.advance setup s).1, some (p.advance setup s).2)

/-- Goes on with a pass, if there is one, while some document is active. -/
def resume (setup : FilterSetup) (next : Session × Option Pass) (document : Option Document) :
    Session × Option Pass :=
  goOn setup { next.1 with document } next.2

theorem handle_eq_goOn (setup : FilterSetup) (s : Session) (command : FilterCommand)
    (isCancelled : Bool) :
    s.handle setup command isCancelled =
      (s.begin command isCancelled).1.goOn setup (s.begin command isCancelled).2 := by
  rw [handle]
  split
  · next h => rw [h, goOn]
  · next h => rw [h, goOn]

theorem goOn_filter (setup : FilterSetup) (s : Session) (p? : Option Pass) :
    let left := s.goOn setup (p?.filter fun p => !p.isOver)
    left.1 = (s.goOn setup p?).1 ∧
      (left.2.filter fun p => !p.isOver) = (s.goOn setup p?).2.filter fun p => !p.isOver := by
  cases p? with
  | none => exact ⟨rfl, rfl⟩
  | some p =>
      cases hover : p.isOver with
      | false => simp [Option.filter, hover]
      | true => simp [Option.filter, hover, goOn, Pass.advance_of_isOver hover]

theorem transition_forgetTokens (s : Session) (command : FilterCommand) :
    s.forgetTokens.transition command = (s.transition command).forgetTokens := by
  rw [transition, start_forgetTokens, transition]

theorem forgetTokens_drop (s : Session) (p? : Option Pass) :
    (s.drop p?).forgetTokens = s.forgetTokens := by
  cases p? with
  | none => rfl
  | some p => rfl

/-- A command that is skipped makes its transition and nothing else, but for tokens. -/
theorem forgetTokens_skip (s : Session) (command : FilterCommand) :
    (s.skip command).forgetTokens = (s.transition command).forgetTokens := by
  rw [skip, forgetTokens_drop, begin, transition]
  split
  · next h => rw [h]
  · next h => rw [h, Pass.forgetTokens_create]

theorem forgetTokens_foldl_skip (s : Session) (commands : List FilterCommand) :
    (commands.foldl skip s).forgetTokens = (commands.foldl transition s).forgetTokens := by
  have hcongr (s s' : Session) (h : s.forgetTokens = s'.forgetTokens) :
      (commands.foldl skip s).forgetTokens = (commands.foldl transition s').forgetTokens := by
    induction commands generalizing s s' with
    | nil => exact h
    | cons command commands ih =>
        refine ih _ _ ?_
        rw [forgetTokens_skip, ← transition_forgetTokens, h, transition_forgetTokens]
  exact hcongr s s rfl

/-- What a command leads to, without the tokens. -/
def forgotten (next : Session × Option Pass) : Session × Option Pass :=
  (next.1.forgetTokens, next.2.map Pass.forgetToken)

theorem map_forgetToken_filter (p? : Option Pass) :
    (p?.filter fun p => !p.isOver).map Pass.forgetToken =
      (p?.map Pass.forgetToken).filter fun p => !p.isOver := by
  cases p? with
  | none => rfl
  | some p =>
      have hover : p.forgetToken.isOver = p.isOver := rfl
      cases h : p.isOver with
      | _ => simp [Option.filter, hover, h]

theorem forgotten_handle_congr {s s' : Session} (setup : FilterSetup)
    (h : s.forgetTokens = s'.forgetTokens) (command : FilterCommand) (isCancelled : Bool) :
    forgotten (s.handle setup command isCancelled) =
      forgotten (s'.handle setup command isCancelled) := by
  obtain ⟨hsession, hpass⟩ := handle_forgetTokens setup s command isCancelled
  obtain ⟨hsession', hpass'⟩ := handle_forgetTokens setup s' command isCancelled
  rw [forgotten, ← hsession, ← hpass, h, hsession', hpass', forgotten]

theorem forgotten_resume_congr {next next' : Session × Option Pass} (setup : FilterSetup)
    (h : forgotten next = forgotten next') (document : Option Document) :
    forgotten (resume setup next document) = forgotten (resume setup next' document) := by
  obtain ⟨s, p?⟩ := next
  obtain ⟨s', p?'⟩ := next'
  obtain ⟨hsession, hpass⟩ := Prod.mk.inj h
  have hturned : ({ s with document } : Session).forgetTokens =
      ({ s' with document } : Session).forgetTokens :=
    congrArg (fun s : Session => { s with document }) hsession
  cases p? with
  | none =>
      cases p?' with
      | none => exact congrArg (·, none) hturned
      | some p' => cases hpass
  | some p =>
      cases p?' with
      | none => cases hpass
      | some p' =>
          have hsame := Pass.forgotten_advance_congr setup hturned (Option.some.inj hpass)
          obtain ⟨hadvanced, hleft⟩ := Prod.mk.inj hsame
          exact Prod.ext hadvanced (congrArg some hleft)

theorem forgotten_foldl_resume_congr {next next' : Session × Option Pass} (setup : FilterSetup)
    (h : forgotten next = forgotten next') (documents : List (Option Document)) :
    forgotten (documents.foldl (resume setup) next) =
      forgotten (documents.foldl (resume setup) next') := by
  induction documents generalizing next next' with
  | nil => exact h
  | cons document documents ih => exact ih (forgotten_resume_congr setup h document)

end Session

namespace Drive

theorem poll_of_step {setup : FilterSetup} {d d' : Drive} (h : d.step setup = (d', true)) :
    d.poll setup = d'.poll setup := by
  rw [poll, dif_pos (by rw [h]), h]

theorem poll_of_wait {setup : FilterSetup} {d d' : Drive} (h : d.step setup = (d', false)) :
    d.poll setup = d' := by
  rw [poll, dif_neg (by rw [h]; exact Bool.false_ne_true), h]

/-- A drive that can only wait, for a command or for a reply. -/
structure Waits (d : Drive) : Prop where
  queue : d.queue = []
  atHand : d.atHand = none
  listens : d.isOpen = true → ¬ d.IsDeaf

/-- What going on with a pass leads to a drive that can then only wait. -/
structure Reaches (next : Session × Option Pass) (canArrive : Bool) (d : Drive) : Prop where
  session : d.session = next.1
  pass : d.pass = next.2.filter fun p => !p.isOver
  isOpen : d.isOpen = canArrive
  waits : d.Waits
  finished : canArrive = false → d.pass = none → d.isFinished = true

section

variable {setup : FilterSetup} {d : Drive}

theorem reaches_of_finished (hstage : d.stage = .finished) (hqueue : d.queue = [])
    (hopen : d.isOpen = false) : Reaches (d.session, none) false (d.poll setup) := by
  have hstep : d.step setup = (d, false) := by rw [step, hstage]
  rw [poll_of_wait hstep]
  refine ⟨rfl, by rw [pass, hstage]; rfl, hopen, ⟨hqueue, by rw [atHand, hstage], ?_⟩, ?_⟩
  · intro hopen'
    rw [hopen] at hopen'
    cases hopen'
  · intro _ _
    simp [isFinished, hstage]

theorem reaches_of_ended (hstage : d.stage = .deciding none) (hqueue : d.queue = [])
    (hopen : d.isOpen = false) : Reaches (d.session, none) false (d.poll setup) := by
  have hstep : d.step setup = ({ d with stage := .finished }, true) := by rw [step, hstage]
  rw [poll_of_step hstep]
  exact @reaches_of_finished setup { d with stage := .finished } rfl hqueue hopen

theorem reaches_of_receiving (hstage : d.stage = .receiving) (hqueue : d.queue = [])
    (hlistens : d.isOpen = true → d.listens = true) :
    Reaches (d.session, none) d.isOpen (d.poll setup) := by
  cases hopen : d.isOpen with
  | true =>
      have hstep : d.step setup = (d, false) := by simp [step, hstage, hqueue, hopen]
      have hdeaf : ¬ d.IsDeaf := by
        intro h
        have hlistens' := h.listens_eq_false (by simp [hstage]) (by simp [hstage])
        rw [hlistens hopen] at hlistens'
        cases hlistens'
      rw [poll_of_wait hstep]
      have hwaits : d.Waits := ⟨hqueue, by rw [atHand, hstage], fun _ => hdeaf⟩
      refine ⟨rfl, by rw [pass, hstage]; rfl, hopen, hwaits, fun h => ?_⟩
      cases h
  | false =>
      have hstep : d.step setup = ({ d with stage := .deciding none }, true) := by
        simp [step, hstage, hqueue, hopen]
      rw [poll_of_step hstep]
      exact @reaches_of_ended setup { d with stage := .deciding none } rfl hqueue hopen

theorem reaches_of_idle (hqueue : d.queue = []) (hlistens : d.isOpen = d.listens) :
    Reaches (d.session, none) d.isOpen (d.idle.poll setup) := by
  cases hopen : d.isOpen with
  | true =>
      have hstage : d.idle.stage = .receiving := by simp [idle, ← hlistens, hopen]
      have hreaches := @reaches_of_receiving setup d.idle hstage hqueue
        (fun _ => hlistens.symm.trans hopen)
      rwa [show d.idle.isOpen = true from hopen] at hreaches
  | false =>
      have hstage : d.idle.stage = .deciding none := by simp [idle, ← hlistens, hopen]
      exact reaches_of_ended hstage hqueue hopen

theorem reaches_of_run {p : Pass} (hstage : d.stage = .racing p) (hqueue : d.queue = [])
    (hlistens : d.isOpen = d.listens) :
    Reaches (d.session.goOn setup (some p)) d.isOpen (d.poll setup) := by
  have hstep : d.step setup = (d.runPass setup p, (d.runPass setup p).pass.isNone) := by
    cases hopen : d.isOpen with
    | true => simp [step, hstage, hqueue, hopen, ← hlistens]
    | false => simp [step, hstage, ← hlistens, hopen]
  obtain ⟨hsession, hpass⟩ := d.runPass_advance setup p
  by_cases hover : (p.advance setup d.session).2.isOver = true
  · rw [if_pos hover] at hpass
    have hidle := runPass_of_isNone (by rw [hpass]; rfl)
    rw [hpass, hidle] at hstep
    rw [poll_of_step hstep]
    have hreaches := @reaches_of_idle setup { d with session := (p.advance setup d.session).1 }
      hqueue hlistens
    refine ⟨hreaches.session, ?_, hreaches.isOpen, hreaches.waits, hreaches.finished⟩
    rw [hreaches.pass]
    simp [Session.goOn, Option.filter, hover]
  · rw [if_neg hover] at hpass
    rw [hpass] at hstep
    rw [poll_of_wait hstep]
    obtain ⟨hqueue', hopen', hatHand', -⟩ := runPass_keeps setup d p
    refine ⟨hsession, ?_, hopen', ⟨hqueue'.trans hqueue, hatHand', ?_⟩, ?_⟩
    · rw [hpass]
      simp [Session.goOn, Option.filter, hover]
    · intro hopen hdeaf
      have hlistens' := isDeaf_of_runPass hdeaf
      rw [hopen', hlistens, hlistens'] at hopen
      cases hopen
    · intro _ hnone
      rw [hpass] at hnone
      cases hnone

theorem listens_of_not_isDeaf (h : ¬ d.IsDeaf) : d.listens = true := by
  cases hlistens : d.listens with
  | true => rfl
  | false => exact absurd (.inl hlistens) h

theorem Waits.isOpen_of_isDeaf (h : d.Waits) (hdeaf : d.IsDeaf) : d.isOpen = false :=
  Bool.eq_false_iff.mpr fun hopen => h.listens hopen hdeaf

theorem Waits.reaches (setup : FilterSetup) (h : d.Waits) :
    Reaches (d.session.goOn setup d.pass) d.isOpen (d.poll setup) := by
  cases hstage : d.stage with
  | receiving =>
      rw [pass, hstage]
      exact reaches_of_receiving hstage h.queue fun hopen => listens_of_not_isDeaf (h.listens hopen)
  | deciding next =>
      have hnext : d.atHand = next := by rw [Drive.atHand, hstage]
      obtain rfl := hnext.symm.trans h.atHand
      have hopen := h.isOpen_of_isDeaf (.inr (.inl hstage))
      rw [pass, hstage, hopen]
      exact reaches_of_ended hstage h.queue hopen
  | racing p =>
      have hpass : d.pass = some p := by rw [pass, hstage]
      rw [hpass]
      by_cases hlistens : d.isOpen = d.listens
      · exact reaches_of_run hstage h.queue hlistens
      · -- the queue is closed and empty, which the drive finds out only now
        have hopen : d.isOpen = false := Bool.eq_false_iff.mpr fun hopen =>
          hlistens (hopen.trans (listens_of_not_isDeaf (h.listens hopen)).symm)
        have htrue : d.listens = true := by simpa [hopen] using hlistens
        have hstep : d.step setup = ({ d with listens := false }, true) := by
          simp [step, hstage, htrue, h.queue, hopen]
        rw [poll_of_step hstep]
        exact @reaches_of_run setup { d with listens := false } p hstage h.queue hopen
  | finished =>
      have hopen := h.isOpen_of_isDeaf (.inr (.inr hstage))
      rw [pass, hstage, hopen]
      exact reaches_of_finished hstage h.queue hopen

/-- The first command of a queue is taken in place of the pass under way. -/
theorem poll_of_queue {command : FilterCommand} {queue : List FilterCommand} (setup : FilterSetup)
    (hdeaf : ¬ d.IsDeaf) (hatHand : d.atHand = none) (hqueue : d.queue = command :: queue) :
    d.poll setup = poll setup
      { d with session := d.session.drop d.pass, queue, stage := .deciding (some command) } := by
  apply poll_of_step
  cases hstage : d.stage with
  | receiving => simp [step, hstage, hqueue, pass, Session.drop]
  | deciding next =>
      have hnext : d.atHand = next := by rw [atHand, hstage]
      obtain rfl := hnext.symm.trans hatHand
      exact absurd (.inr (.inl hstage)) hdeaf
  | racing p =>
      simp [step, hstage, listens_of_not_isDeaf hdeaf, hqueue, pass, supersede, Session.drop]
  | finished => exact absurd (.inr (.inr hstage)) hdeaf

/--
Of the command at hand and those in the queue only the last is carried out.  The others make
their transitions.
-/
theorem reaches_of_commands (setup : FilterSetup) {d : Drive} {command last : FilterCommand}
    {front : List FilterCommand} (hstage : d.stage = .deciding (some command))
    (hqueue : command :: d.queue = front ++ [last]) (hlistens : d.listens = true) :
    Reaches ((front.foldl Session.skip d.session).handle setup last false) d.isOpen
      (d.poll setup) := by
  have hstep : d.step setup = (d.take command, true) := by rw [step, hstage]
  obtain ⟨hsession, hpass⟩ := d.take_begin command
  obtain ⟨hqueue', hopen⟩ := d.queue_take command
  have hdeaf : ¬ (d.take command).IsDeaf := by
    intro h
    have hfalse := isDeaf_of_take h
    rw [hlistens] at hfalse
    cases hfalse
  have hatHand := d.atHand_take command
  rw [poll_of_step hstep, ← hopen]
  cases front with
  | nil =>
      obtain ⟨rfl, hnone⟩ : command = last ∧ d.queue = [] := by simpa using hqueue
      have hwaits : (d.take command).Waits := ⟨hqueue'.trans hnone, hatHand, fun _ => hdeaf⟩
      have hreaches := hwaits.reaches setup
      rw [hsession, hpass] at hreaches
      rw [List.foldl_nil, Session.handle_eq_goOn]
      exact hreaches
  | cons first front =>
      obtain ⟨rfl, hrest⟩ : command = first ∧ d.queue = front ++ [last] := by simpa using hqueue
      obtain ⟨next, queue, hcons⟩ := List.exists_cons_of_ne_nil
        (List.append_ne_nil_of_right_ne_nil front (List.cons_ne_nil last []))
      rw [poll_of_queue setup hdeaf hatHand (hqueue'.trans (hrest.trans hcons)), hsession, hpass]
      let d' : Drive :=
        { d.take command with
          session := d.session.skip command
          queue
          stage := .deciding (some next) }
      have hlistens' : d'.listens = true := listens_of_not_isDeaf (d := d.take command) hdeaf
      exact reaches_of_commands setup (d := d') rfl hcons.symm hlistens'
termination_by front.length

theorem reaches_of_queue (setup : FilterSetup) {front : List FilterCommand} {last : FilterCommand}
    (hdeaf : ¬ d.IsDeaf) (hatHand : d.atHand = none) (hqueue : d.queue = front ++ [last]) :
    Reaches ((front.foldl Session.skip (d.session.drop d.pass)).handle setup last false) d.isOpen
      (d.poll setup) := by
  obtain ⟨command, queue, hcons⟩ := List.exists_cons_of_ne_nil
    (List.append_ne_nil_of_right_ne_nil front (List.cons_ne_nil last []))
  let d' : Drive :=
    { d with session := d.session.drop d.pass, queue, stage := .deciding (some command) }
  rw [poll_of_queue setup hdeaf hatHand (hqueue.trans hcons)]
  have hlistens : d'.listens = true := listens_of_not_isDeaf (d := d) hdeaf
  exact reaches_of_commands setup (d := d') rfl hcons.symm hlistens

/-! ## Waking and feeding -/

def turn (d : Drive) (document : Option Document) : Drive :=
  { d with session := { d.session with document } }

def wake (setup : FilterSetup) (d : Drive) (document : Option Document) : Drive :=
  (d.turn document).poll setup

/-- A batch of commands arrives, while some document is active; without commands it is a waking. -/
def round (setup : FilterSetup) (d : Drive) (next : Option Document × List FilterCommand) : Drive :=
  (d.turn next.1).feed setup next.2

theorem Waits.turn (h : d.Waits) (document : Option Document) : (d.turn document).Waits :=
  ⟨h.queue, h.atHand, h.listens⟩

theorem foldl_arrive (hopen : d.isOpen = true) (batch : List FilterCommand) :
    batch.foldl arrive d = { d with queue := d.queue ++ batch } := by
  induction batch generalizing d with
  | nil => simp
  | cons command batch ih =>
      have hfirst : d.arrive command = { d with queue := d.queue ++ [command] } := by
        rw [arrive, if_pos hopen]
      have hrest := @ih { d with queue := d.queue ++ [command] } hopen
      rw [List.foldl_cons, hfirst, hrest, List.append_assoc]
      rfl

theorem Reaches.wake {next : Session × Option Pass} {canArrive : Bool} (setup : FilterSetup)
    (h : Reaches next canArrive d) (document : Option Document) :
    Reaches (Session.resume setup next document) canArrive (d.wake setup document) := by
  have hreaches := (h.waits.turn document).reaches setup
  have hsession : (d.turn document).session = { next.1 with document } := by
    rw [← h.session, Drive.turn]
  have hpass : (d.turn document).pass = next.2.filter fun p => !p.isOver := h.pass
  obtain ⟨hsame, hleft⟩ := Session.goOn_filter setup { next.1 with document } next.2
  rw [hsession, hpass] at hreaches
  refine ⟨hreaches.session.trans hsame, hreaches.pass.trans hleft,
    hreaches.isOpen.trans h.isOpen, hreaches.waits, ?_⟩
  intro hclosed
  exact hreaches.finished (h.isOpen.trans hclosed)

/-- Of the commands that arrive while a drive waits, the last is carried out. -/
theorem Waits.reaches_feed (setup : FilterSetup) (h : d.Waits) (hopen : d.isOpen = true)
    (front : List FilterCommand) (last : FilterCommand) :
    Reaches ((front.foldl Session.skip (d.session.drop d.pass)).handle setup last false) d.isOpen
      (d.feed setup (front ++ [last])) := by
  let d' : Drive := { d with queue := d.queue ++ (front ++ [last]) }
  have hqueue : d'.queue = front ++ [last] := by simp [d', h.queue]
  have hdeaf : ¬ d'.IsDeaf := h.listens hopen
  have hatHand : d'.atHand = none := h.atHand
  rw [feed, foldl_arrive hopen]
  exact reaches_of_queue (d := d') setup hdeaf hatHand hqueue

/-- A burst leads to what its last command leads to after the transitions of the others. -/
theorem reaches_runBurst (setup : FilterSetup) (s : Session) (front : List FilterCommand)
    (last : FilterCommand) :
    Reaches ((front.foldl Session.skip s).handle setup last false) false
      (runBurst setup s (front ++ [last])) := by
  let d : Drive := { session := s, queue := front ++ [last], isOpen := false }
  have hdeaf : ¬ d.IsDeaf := by
    intro h
    have hfalse : true = false := h.listens_eq_false nofun nofun
    cases hfalse
  rw [runBurst, @foldl_arrive { session := s } rfl]
  exact reaches_of_queue (d := d) setup hdeaf rfl rfl

theorem Reaches.foldl_wake {next : Session × Option Pass} {canArrive : Bool} (setup : FilterSetup)
    (h : Reaches next canArrive d) (documents : List (Option Document)) :
    Reaches (documents.foldl (Session.resume setup) next) canArrive
      (documents.foldl (Drive.wake setup) d) := by
  induction documents generalizing next d with
  | nil => exact h
  | cons document documents ih => exact ih (h.wake setup document)

end

end Drive

end Marginalia
