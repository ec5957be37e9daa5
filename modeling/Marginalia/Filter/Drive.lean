import Marginalia.Filter.Session

/-!
# Driving the filter by a queue of commands

Commands are taken in order.  One that arrives while a pass is under way cancels the
pass and takes its place; its own transition clears what the pass had marked.  Queued
commands go before the pass they would cancel, so of a burst only the last reaches the
model.  The drive is finished when the queue is closed and empty and no pass is left.
-/

namespace Marginalia

inductive DriveStage where
  /-- It waits for a command. -/
  | receiving
  /-- It has a command at hand, or none is left. -/
  | deciding (next : Option FilterCommand)
  /-- A pass is under way. -/
  | racing (pass : Pass)
  | finished
  deriving DecidableEq

/-- How many steps are left at a stage at most, when no command comes. -/
def DriveStage.rank (listens : Bool) : DriveStage → Nat
  | .finished => 0
  | .deciding none => 1
  | .receiving => 2
  | .racing _ => if listens then 4 else 3
  | .deciding (some _) => 5

structure Drive where
  session : Session
  queue : List FilterCommand := []
  /-- Whether commands may still be put in the queue. -/
  isOpen : Bool := true
  /-- Whether the drive still looks for commands while a pass is under way. -/
  listens : Bool := true
  stage : DriveStage := .receiving
  deriving DecidableEq

namespace Drive

/-- Puts a command at the end of the queue, unless the queue is closed. -/
def arrive (d : Drive) (command : FilterCommand) : Drive :=
  if d.isOpen then { d with queue := d.queue ++ [command] } else d

def close (d : Drive) : Drive :=
  { d with isOpen := false }

def isFinished (d : Drive) : Bool :=
  d.stage == .finished

def pass (d : Drive) : Option Pass :=
  match d.stage with
  | .racing p => some p
  | _ => none

/-- The drive with no pass left: it waits for a command, if it still looks for any. -/
def idle (d : Drive) : Drive :=
  { d with stage := if d.listens then .receiving else .deciding none }

def take (d : Drive) (command : FilterCommand) : Drive :=
  match d.session.begin command false with
  | (session, none) => { d with session }.idle
  | (session, some p) => { d with session, stage := .racing p }

def supersede (d : Drive) (p : Pass) (command : FilterCommand) : Drive :=
  { d with
    session := { d.session with exchange := d.session.exchange.cancel p.token }
    stage := .deciding (some command) }

def runPass (setup : FilterSetup) (d : Drive) (p : Pass) : Drive :=
  let (session, p) := p.advance setup d.session
  if p.isOver then { d with session }.idle else { d with session, stage := .racing p }

def step (setup : FilterSetup) (d : Drive) : Drive × Bool :=
  match d.stage with
  | .receiving =>
      match d.queue with
      | command :: queue => ({ d with queue, stage := .deciding (some command) }, true)
      | [] => if d.isOpen then (d, false) else ({ d with stage := .deciding none }, true)
  | .deciding (some command) => (d.take command, true)
  | .deciding none => ({ d with stage := .finished }, true)
  | .racing p =>
      if d.listens then
        match d.queue with
        | command :: queue => (supersede { d with queue } p command, true)
        | [] =>
            if d.isOpen then
              let d := d.runPass setup p
              (d, d.pass.isNone)
            else ({ d with listens := false }, true)
      else
        let d := d.runPass setup p
        (d, d.pass.isNone)
  | .finished => (d, false)

def work (d : Drive) : Nat :=
  6 * d.queue.length + d.stage.rank d.listens

theorem work_idle_le (d : Drive) : d.idle.work ≤ 6 * d.queue.length + 2 := by
  cases hlistens : d.listens with
  | true => simp [work, idle, DriveStage.rank, hlistens]
  | false => simp [work, idle, DriveStage.rank, hlistens]

theorem work_racing_le (d : Drive) (session : Session) (p : Pass) :
    { d with session, stage := .racing p }.work ≤ 6 * d.queue.length + 4 := by
  simp only [work, DriveStage.rank]
  split
  · exact Nat.le_refl _
  · exact Nat.le_succ _

theorem work_take_le (d : Drive) (command : FilterCommand) :
    (d.take command).work ≤ 6 * d.queue.length + 4 := by
  rw [take]
  split
  · next session _ =>
      have hidle := work_idle_le { d with session }
      exact Nat.le_trans hidle (by simp)
  · next session p _ => exact work_racing_le d session p

/-- A pass that does not have to wait is over. -/
theorem runPass_of_isNone {setup : FilterSetup} {d : Drive} {p : Pass}
    (h : (d.runPass setup p).pass.isNone = true) :
    d.runPass setup p = { d with session := (p.advance setup d.session).1 }.idle := by
  rw [runPass] at h ⊢
  dsimp only at h ⊢
  split
  · rfl
  · next hover =>
      rw [if_neg hover] at h
      cases h

theorem work_runPass_lt {setup : FilterSetup} {d : Drive} {p : Pass}
    (h : (d.runPass setup p).pass.isNone = true) :
    (d.runPass setup p).work < 6 * d.queue.length + 3 := by
  rw [runPass_of_isNone h]
  exact Nat.lt_succ_of_le (work_idle_le _)

/-- What a step can do, by what the drive finds: the drive after it, and whether it goes on. -/
inductive Stepped (setup : FilterSetup) (d : Drive) : Drive → Bool → Prop where
  | fetched {command : FilterCommand} {queue : List FilterCommand} (hstage : d.stage = .receiving)
      (hqueue : d.queue = command :: queue) :
      Stepped setup d { d with queue, stage := .deciding (some command) } true
  | waits (hstage : d.stage = .receiving) (hqueue : d.queue = []) (hopen : d.isOpen = true) :
      Stepped setup d d false
  | hungUp (hstage : d.stage = .receiving) (hqueue : d.queue = []) (hopen : d.isOpen = false) :
      Stepped setup d { d with stage := .deciding none } true
  | took {command : FilterCommand} (hstage : d.stage = .deciding (some command)) :
      Stepped setup d (d.take command) true
  | ended (hstage : d.stage = .deciding none) : Stepped setup d { d with stage := .finished } true
  | superseded {p : Pass} {command : FilterCommand} {queue : List FilterCommand}
      (hstage : d.stage = .racing p) (hlistens : d.listens = true)
      (hqueue : d.queue = command :: queue) :
      Stepped setup d (supersede { d with queue } p command) true
  | deafened {p : Pass} (hstage : d.stage = .racing p) (hlistens : d.listens = true)
      (hqueue : d.queue = []) (hopen : d.isOpen = false) :
      Stepped setup d { d with listens := false } true
  | ran {p : Pass} (hstage : d.stage = .racing p)
      (hquiet : d.listens = false ∨ d.queue = [] ∧ d.isOpen = true) :
      Stepped setup d (d.runPass setup p) (d.runPass setup p).pass.isNone
  | rests (hstage : d.stage = .finished) : Stepped setup d d false

theorem stepped (setup : FilterSetup) (d : Drive) :
    Stepped setup d (d.step setup).1 (d.step setup).2 := by
  obtain ⟨session, queue, isOpen, listens, stage⟩ := d
  cases stage with
  | receiving =>
      cases queue with
      | cons command queue => exact .fetched rfl rfl
      | nil =>
          cases isOpen with
          | true => exact .waits rfl rfl rfl
          | false => exact .hungUp rfl rfl rfl
  | deciding next =>
      cases next with
      | none => exact .ended rfl
      | some command => exact .took rfl
  | racing p =>
      cases listens with
      | false => exact .ran rfl (.inl rfl)
      | true =>
          cases queue with
          | cons command queue => exact .superseded rfl rfl rfl
          | nil =>
              cases isOpen with
              | false => exact .deafened rfl rfl rfl rfl
              | true => exact .ran rfl (.inr ⟨rfl, rfl⟩)
  | finished => exact .rests rfl

theorem Stepped.work_lt {setup : FilterSetup} {d d' : Drive} {goesOn : Bool}
    (h : Stepped setup d d' goesOn) (hgoesOn : goesOn = true) : d'.work < d.work := by
  cases h with
  | fetched hstage hqueue =>
      simp only [work, hstage, hqueue, DriveStage.rank, List.length_cons]
      omega
  | waits _ _ _ => cases hgoesOn
  | hungUp hstage _ _ => simp [work, hstage, DriveStage.rank]
  | @took command hstage =>
      have htake := work_take_le d command
      simp only [work, hstage, DriveStage.rank] at htake ⊢
      omega
  | ended hstage => simp [work, hstage, DriveStage.rank]
  | superseded hstage hlistens hqueue =>
      simp only [work, supersede, hstage, hlistens, hqueue, DriveStage.rank, List.length_cons,
        if_true]
      omega
  | deafened hstage hlistens hqueue _ => simp [work, hstage, hlistens, DriveStage.rank]
  | ran hstage _ =>
      refine Nat.lt_of_lt_of_le (work_runPass_lt hgoesOn) ?_
      simp only [work, hstage, DriveStage.rank]
      split <;> omega
  | rests _ => cases hgoesOn

/-- Goes on until there is nothing to do but wait. -/
def poll (setup : FilterSetup) (d : Drive) : Drive :=
  if _h : (d.step setup).2 = true then (d.step setup).1.poll setup else (d.step setup).1
termination_by d.work
decreasing_by exact (stepped setup d).work_lt _h

def feed (setup : FilterSetup) (d : Drive) (batch : List FilterCommand) : Drive :=
  (batch.foldl arrive d).poll setup

def run (setup : FilterSetup) (s : Session) (batches : List (List FilterCommand)) : Drive :=
  (batches.foldl (feed setup) { session := s }).close.poll setup

/-- A burst: all commands are queued, and the queue is closed, before the drive begins. -/
def runBurst (setup : FilterSetup) (s : Session) (commands : List FilterCommand) : Drive :=
  (commands.foldl arrive { session := s }).close.poll setup

end Drive

end Marginalia
