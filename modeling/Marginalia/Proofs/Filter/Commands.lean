import Marginalia.Filter.Drive
import Marginalia.Proofs.Filter.Pass

/-!
# Commands that a drive takes

Commands arrive, the queue is closed and the drive goes on in any order.  Each command
that arrived was applied, is at hand, or waits in the queue, and they are applied in the
order in which they arrived.  A drive that stopped looking for commands has none left.
-/

namespace Marginalia

namespace Drive

def atHand (d : Drive) : Option FilterCommand :=
  match d.stage with
  | .deciding next => next
  | _ => none

/-- Whether the drive no longer looks for commands. -/
def IsDeaf (d : Drive) : Prop :=
  d.listens = false ∨ d.stage = .deciding none ∨ d.stage = .finished

theorem stage_of_pass {d : Drive} {p : Pass} (h : d.pass = some p) : d.stage = .racing p := by
  unfold pass at h
  split at h
  · next hstage => rw [hstage, Option.some.inj h]
  · cases h

theorem atHand_of_pass {d : Drive} {p : Pass} (h : d.pass = some p) : d.atHand = none := by
  rw [atHand, stage_of_pass h]

theorem atHand_idle (d : Drive) : d.idle.atHand = none := by
  simp only [atHand, idle]
  cases d.listens with
  | _ => rfl

theorem pass_idle (d : Drive) : d.idle.pass = none := by
  simp only [pass, idle]
  cases d.listens with
  | _ => rfl

theorem IsDeaf.listens_eq_false {d : Drive} (h : d.IsDeaf) (hdeciding : d.stage ≠ .deciding none)
    (hfinished : d.stage ≠ .finished) : d.listens = false := by
  rcases h with hlistens | hstage | hstage
  · exact hlistens
  · exact absurd hstage hdeciding
  · exact absurd hstage hfinished

theorem isDeaf_of_idle {d : Drive} (h : d.idle.IsDeaf) : d.listens = false := by
  cases hlistens : d.listens with
  | false => rfl
  | true =>
      have hstage : d.idle.stage = .receiving := by simp [idle, hlistens]
      have hdeaf := h.listens_eq_false (by simp [hstage]) (by simp [hstage])
      exact hlistens.symm.trans hdeaf

theorem take_begin (d : Drive) (command : FilterCommand) :
    (d.take command).session = (d.session.begin command false).1 ∧
      (d.take command).pass = (d.session.begin command false).2 := by
  rw [take]
  split
  · next h =>
      rw [h]
      exact ⟨rfl, pass_idle _⟩
  · next h =>
      rw [h]
      exact ⟨rfl, rfl⟩

theorem take_state (d : Drive) (command : FilterCommand) :
    (d.take command).session.filter.state = d.session.filter.state.after command := by
  rw [(d.take_begin command).1]
  exact d.session.begin_state command false

theorem atHand_take (d : Drive) (command : FilterCommand) : (d.take command).atHand = none := by
  rw [take]
  split
  · exact atHand_idle _
  · rfl

theorem queue_take (d : Drive) (command : FilterCommand) :
    (d.take command).queue = d.queue ∧ (d.take command).isOpen = d.isOpen := by
  rw [take]
  split
  · exact ⟨rfl, rfl⟩
  · exact ⟨rfl, rfl⟩

theorem isDeaf_of_take {d : Drive} {command : FilterCommand} (h : (d.take command).IsDeaf) :
    d.listens = false := by
  rw [take] at h
  split at h
  · exact isDeaf_of_idle h
  · exact h.listens_eq_false (by simp) (by simp)

theorem runPass_advance (setup : FilterSetup) (d : Drive) (p : Pass) :
    (d.runPass setup p).session = (p.advance setup d.session).1 ∧
      (d.runPass setup p).pass =
        if (p.advance setup d.session).2.isOver then none
        else some (p.advance setup d.session).2 := by
  rw [runPass]
  dsimp only
  split
  · exact ⟨rfl, pass_idle _⟩
  · exact ⟨rfl, rfl⟩

theorem runPass_keeps (setup : FilterSetup) (d : Drive) (p : Pass) :
    (d.runPass setup p).queue = d.queue ∧ (d.runPass setup p).isOpen = d.isOpen ∧
      (d.runPass setup p).atHand = none ∧
        (d.runPass setup p).session.filter.state = d.session.filter.state := by
  have hstate := (Pass.advance_keeps setup d.session p).1
  rw [runPass]
  dsimp only
  split
  · exact ⟨rfl, rfl, atHand_idle _, hstate⟩
  · exact ⟨rfl, rfl, rfl, hstate⟩

theorem isDeaf_of_runPass {setup : FilterSetup} {d : Drive} {p : Pass}
    (h : (d.runPass setup p).IsDeaf) : d.listens = false := by
  rw [runPass] at h
  dsimp only at h
  split at h
  · exact isDeaf_of_idle h
  · exact h.listens_eq_false (by simp) (by simp)

/--
A step applies the command at hand, if there is one, and takes the next one at hand from
the front of the queue at most.
-/
theorem Stepped.effect {setup : FilterSetup} {d d' : Drive} {goesOn : Bool}
    (h : Stepped setup d d' goesOn) :
    d'.isOpen = d.isOpen ∧ d.queue = d'.atHand.toList ++ d'.queue ∧
      d'.session.filter.state =
        d.atHand.toList.foldl FilterState.after d.session.filter.state := by
  cases h with
  | fetched hstage hqueue => exact ⟨rfl, hqueue, by simp [atHand, hstage]⟩
  | waits hstage hqueue hopen => exact ⟨rfl, by simp [atHand, hstage], by simp [atHand, hstage]⟩
  | hungUp hstage hqueue hopen => exact ⟨rfl, rfl, by simp [atHand, hstage]⟩
  | @took command hstage =>
      obtain ⟨hqueue, hopen⟩ := queue_take d command
      refine ⟨hopen, by rw [atHand_take, hqueue]; rfl, ?_⟩
      rw [take_state]
      simp [atHand, hstage]
  | ended hstage => exact ⟨rfl, rfl, by simp [atHand, hstage]⟩
  | superseded hstage hlistens hqueue => exact ⟨rfl, hqueue, by simp [atHand, hstage, supersede]⟩
  | deafened hstage hlistens hqueue hopen =>
      exact ⟨rfl, by simp [atHand, hstage], by simp [atHand, hstage]⟩
  | @ran p hstage hquiet =>
      obtain ⟨hqueue, hopen, hatHand, hstate⟩ := runPass_keeps setup d p
      exact ⟨hopen, by rw [hatHand, hqueue]; rfl, by simp [atHand, hstage, hstate]⟩
  | rests hstage => exact ⟨rfl, by simp [atHand, hstage], by simp [atHand, hstage]⟩

/-- A drive stops looking for commands only when the queue is closed and empty. -/
theorem Stepped.isDeaf {setup : FilterSetup} {d d' : Drive} {goesOn : Bool}
    (h : Stepped setup d d' goesOn) (hdeaf : d'.IsDeaf) :
    d.IsDeaf ∨ d.isOpen = false ∧ d.queue = [] := by
  cases h with
  | fetched _ _ =>
      exact .inl (.inl (hdeaf.listens_eq_false nofun nofun))
  | waits _ _ _ => exact .inl hdeaf
  | hungUp _ hqueue hopen => exact .inr ⟨hopen, hqueue⟩
  | took _ => exact .inl (.inl (isDeaf_of_take hdeaf))
  | ended hstage => exact .inl (.inr (.inl hstage))
  | superseded _ _ _ =>
      exact .inl (.inl (hdeaf.listens_eq_false nofun nofun))
  | deafened _ _ hqueue hopen => exact .inr ⟨hopen, hqueue⟩
  | ran _ _ => exact .inl (.inl (isDeaf_of_runPass hdeaf))
  | rests _ => exact .inl hdeaf

/-- What a step does to the session and to the pass under way. -/
inductive Changed (setup : FilterSetup) (d d' : Drive) : Prop where
  | rested (hatHand : d.atHand = none) (hsession : d'.session = d.session)
      (hpass : d'.pass = d.pass)
  | took {command : FilterCommand} (hatHand : d.atHand = some command)
      (hsession : d'.session = (d.session.begin command false).1)
      (hpass : d'.pass = (d.session.begin command false).2)
  | superseded {p : Pass} (hatHand : d.atHand = none) (hbefore : d.pass = some p)
      (hsession : d'.session = { d.session with exchange := d.session.exchange.cancel p.token })
      (hpass : d'.pass = none) (hnext : d'.atHand ≠ none)
  | ran {p : Pass} (hatHand : d.atHand = none) (hbefore : d.pass = some p)
      (hsession : d'.session = (p.advance setup d.session).1)
      (hpass : d'.pass = if (p.advance setup d.session).2.isOver then none
        else some (p.advance setup d.session).2) (hnext : d'.atHand = none)

theorem Stepped.changed {setup : FilterSetup} {d d' : Drive} {goesOn : Bool}
    (h : Stepped setup d d' goesOn) : Changed setup d d' := by
  cases h with
  | fetched hstage _ => exact .rested (by rw [atHand, hstage]) rfl (by rw [pass, pass, hstage])
  | waits hstage _ _ => exact .rested (by rw [atHand, hstage]) rfl rfl
  | hungUp hstage _ _ => exact .rested (by rw [atHand, hstage]) rfl (by rw [pass, pass, hstage])
  | @took command hstage =>
      obtain ⟨hsession, hpass⟩ := d.take_begin command
      exact .took (by rw [atHand, hstage]) hsession hpass
  | ended hstage => exact .rested (by rw [atHand, hstage]) rfl (by rw [pass, pass, hstage])
  | superseded hstage _ _ =>
      exact .superseded (by rw [atHand, hstage]) (by rw [pass, hstage]) rfl rfl
        (Option.some_ne_none _)
  | deafened hstage _ _ _ => exact .rested (by rw [atHand, hstage]) rfl rfl
  | @ran p hstage _ =>
      obtain ⟨hsession, hpass⟩ := d.runPass_advance setup p
      exact .ran (by rw [atHand, hstage]) (by rw [pass, hstage]) hsession hpass
        (d.runPass_keeps setup p).2.2.1
  | rests hstage => exact .rested (by rw [atHand, hstage]) rfl rfl

/-! ## Runs -/

inductive Action where
  | arrive (command : FilterCommand)
  | close
  /-- Another document becomes the active one. -/
  | turn (document : Option Document)
  | step

structure Run where
  drive : Drive
  arrived : List FilterCommand := []
  /-- Each command applied, with the state of the filter after it. -/
  transitions : List (FilterCommand × FilterState) := []

namespace Run

def applied (r : Run) : List FilterCommand :=
  r.transitions.map (·.1)

def act (setup : FilterSetup) (r : Run) : Action → Run
  | .arrive command =>
      { r with
        drive := r.drive.arrive command
        arrived := if r.drive.isOpen then r.arrived ++ [command] else r.arrived }
  | .close => { r with drive := r.drive.close }
  | .turn document =>
      { r with drive := { r.drive with session := { r.drive.session with document } } }
  | .step =>
      let drive := (r.drive.step setup).1
      { r with
        drive
        transitions := r.transitions ++
          (r.drive.atHand.map fun command => (command, drive.session.filter.state)).toList }

def ofActions (setup : FilterSetup) (s : Session) (actions : List Action) : Run :=
  actions.foldl (act setup) { drive := { session := s } }

structure Sound (start : FilterState) (r : Run) : Prop where
  order : r.arrived = r.applied ++ r.drive.atHand.toList ++ r.drive.queue
  state : r.drive.session.filter.state = r.applied.foldl FilterState.after start
  states : ∀ k t, r.transitions[k]? = some t →
    t.2 = (r.arrived.take (k + 1)).foldl FilterState.after start
  deaf : r.drive.IsDeaf → r.drive.isOpen = false ∧ r.drive.queue = []

theorem getElem?_map_toList {α β : Type} {a? : Option α} {f : α → β} {k : Nat} {b : β}
    (h : (a?.map f).toList[k]? = some b) : ∃ a, a? = some a ∧ k = 0 ∧ b = f a := by
  cases a? with
  | none => simp at h
  | some a =>
      cases k with
      | zero => exact ⟨a, rfl, rfl, (Option.some.inj h).symm⟩
      | succ k => simp at h

section

variable {setup : FilterSetup} {start : FilterState} {r : Run}

theorem Sound.length_le (h : Sound start r) : r.transitions.length ≤ r.arrived.length := by
  rw [h.order, List.append_assoc, List.length_append, applied, List.length_map]
  exact Nat.le_add_right _ _

theorem Sound.arrive (h : Sound start r) (command : FilterCommand) :
    Sound start (r.act setup (.arrive command)) := by
  simp only [act, Drive.arrive]
  cases hopen : r.drive.isOpen with
  | false => exact h
  | true =>
      refine ⟨?_, h.state, ?_, ?_⟩
      · show r.arrived ++ [command] = _ ++ (r.drive.queue ++ [command])
        rw [h.order, List.append_assoc]
        rfl
      · intro k t ht
        show _ = ((r.arrived ++ [command]).take (k + 1)).foldl FilterState.after start
        have hk : k + 1 ≤ r.arrived.length :=
          Nat.le_trans (List.getElem?_eq_some_iff.mp ht).1 h.length_le
        rw [List.take_append_of_le_length hk]
        exact h.states k t ht
      · intro hdeaf
        have hclosed := (h.deaf hdeaf).1
        rw [hopen] at hclosed
        cases hclosed

theorem Sound.close (h : Sound start r) : Sound start (r.act setup .close) :=
  ⟨h.order, h.state, h.states, fun hdeaf => ⟨rfl, (h.deaf hdeaf).2⟩⟩

theorem Sound.turn (h : Sound start r) (document : Option Document) :
    Sound start (r.act setup (.turn document)) :=
  ⟨h.order, h.state, h.states, h.deaf⟩

theorem applied_step (setup : FilterSetup) (r : Run) :
    (r.act setup .step).applied = r.applied ++ r.drive.atHand.toList := by
  simp only [applied, act, List.map_append]
  cases r.drive.atHand with
  | none => rfl
  | some command => rfl

theorem Sound.step (h : Sound start r) : Sound start (r.act setup .step) := by
  obtain ⟨hopen, hqueue, hstate⟩ := (stepped setup r.drive).effect
  have horder : r.arrived = r.applied ++ r.drive.atHand.toList ++
      ((r.drive.step setup).1.atHand.toList ++ (r.drive.step setup).1.queue) := by
    rw [← hqueue]
    exact h.order
  refine ⟨?_, ?_, ?_, ?_⟩
  · rw [applied_step, List.append_assoc]
    exact horder
  · rw [applied_step, List.foldl_append, ← h.state]
    exact hstate
  · intro k t ht
    simp only [act] at ht
    rw [List.getElem?_append] at ht
    split at ht
    · exact h.states k t ht
    · next hge =>
        -- the transition just made is that of the command at hand, the next to have arrived
        obtain ⟨command, hcommand, ht⟩ := getElem?_map_toList ht
        obtain ⟨hk, rfl⟩ := ht
        have hlength : k + 1 = (r.applied ++ [command]).length := by
          rw [List.length_append, applied, List.length_map, List.length_singleton]
          omega
        rw [hcommand] at horder hstate
        show (r.drive.step setup).1.session.filter.state =
          (r.arrived.take (k + 1)).foldl FilterState.after start
        rw [horder, hlength, Option.toList_some, List.take_left, List.foldl_append, ← h.state]
        exact hstate
  · intro hdeaf
    have hclosed : r.drive.isOpen = false ∧ r.drive.queue = [] :=
      ((stepped setup r.drive).isDeaf hdeaf).elim h.deaf id
    rw [hclosed.2] at hqueue
    exact ⟨hopen.trans hclosed.1, (List.append_eq_nil_iff.mp hqueue.symm).2⟩

theorem sound_initial (s : Session) : Sound s.filter.state { drive := { session := s } } := by
  refine ⟨rfl, rfl, nofun, ?_⟩
  intro hdeaf
  have hlistens := hdeaf.listens_eq_false nofun nofun
  cases hlistens

theorem Sound.foldl (h : Sound start r) (actions : List Action) :
    Sound start (actions.foldl (act setup) r) := by
  induction actions generalizing r with
  | nil => exact h
  | cons action actions ih =>
      refine ih ?_
      cases action with
      | arrive command => exact h.arrive command
      | close => exact h.close
      | turn document => exact h.turn document
      | step => exact h.step

/-! ## Waiting -/

structure Settled (r : Run) : Prop where
  applied : r.applied = r.arrived
  finished : r.drive.isOpen = false → r.drive.pass = none → r.drive.isFinished = true

/-- A drive that waits has applied all commands, and does not wait for a closed queue. -/
theorem Sound.settled (h : Sound start r) (hwaits : (r.drive.step setup).2 = false) :
    Settled (r.act setup .step) := by
  have hsound : Sound start (r.act setup .step) := h.step
  have hstepped := stepped setup r.drive
  rw [hwaits] at hstepped
  have hdrive : (r.act setup .step).drive = (r.drive.step setup).1 := rfl
  have hnone : (r.drive.step setup).1.atHand = none ∧ (r.drive.step setup).1.queue = [] ∧
      ((r.drive.step setup).1.isOpen = false → (r.drive.step setup).1.pass = none →
        (r.drive.step setup).1.isFinished = true) := by
    generalize (r.drive.step setup).1 = d' at hstepped
    generalize hgoesOn : false = goesOn at hstepped
    cases hstepped with
    | fetched _ _ => cases hgoesOn
    | waits hstage hqueue hopen =>
        refine ⟨by simp [atHand, hstage], hqueue, fun hclosed => ?_⟩
        rw [hopen] at hclosed
        cases hclosed
    | hungUp _ _ _ => cases hgoesOn
    | took _ => cases hgoesOn
    | ended _ => cases hgoesOn
    | superseded _ _ _ => cases hgoesOn
    | deafened _ _ _ _ => cases hgoesOn
    | @ran p hstage hquiet =>
        obtain ⟨hqueue, -, hatHand, -⟩ := runPass_keeps setup r.drive p
        refine ⟨hatHand, hqueue.trans ?_, fun _ hpass => ?_⟩
        · rcases hquiet with hlistens | ⟨hempty, -⟩
          · exact (h.deaf (.inl hlistens)).2
          · exact hempty
        · rw [hpass] at hgoesOn
          cases hgoesOn
    | rests hstage =>
        refine ⟨by simp [atHand, hstage], (h.deaf (.inr (.inr hstage))).2, fun _ _ => ?_⟩
        simp [isFinished, hstage]
  obtain ⟨hatHand, hqueue, hfinished⟩ := hnone
  have horder := hsound.order
  rw [hdrive, hatHand, hqueue, Option.toList_none, List.append_nil, List.append_nil] at horder
  exact ⟨horder.symm, hfinished⟩

theorem Sound.exists_poll (setup : FilterSetup) (h : Sound start r) :
    ∃ n, ((List.replicate n Action.step).foldl (act setup) r).drive = r.drive.poll setup ∧
      Settled ((List.replicate n Action.step).foldl (act setup) r) := by
  induction hwork : r.drive.work using Nat.strongRecOn generalizing r with
  | ind work ih =>
      rw [poll]
      by_cases hgoesOn : (r.drive.step setup).2 = true
      · have hlt := (stepped setup r.drive).work_lt hgoesOn
        rw [hwork] at hlt
        obtain ⟨n, hdrive, hsettled⟩ := ih _ hlt (r := r.act setup .step) h.step rfl
        rw [dif_pos hgoesOn]
        exact ⟨n + 1, hdrive, hsettled⟩
      · rw [dif_neg hgoesOn]
        rw [Bool.not_eq_true] at hgoesOn
        exact ⟨1, rfl, h.settled hgoesOn⟩

theorem arrived_replicate (setup : FilterSetup) (r : Run) (n : Nat) :
    ((List.replicate n Action.step).foldl (act setup) r).arrived = r.arrived ∧
      ((List.replicate n Action.step).foldl (act setup) r).drive.isOpen = r.drive.isOpen := by
  induction n generalizing r with
  | zero => exact ⟨rfl, rfl⟩
  | succ n ih =>
      obtain ⟨harrived, hopen⟩ := ih (r.act setup .step)
      exact ⟨harrived, hopen.trans (stepped setup r.drive).effect.1⟩

end

end Run

/--
In every run each command is applied once and in the order of arrival, whatever became of
the passes: the state of the filter is what the commands applied so far make of the first
one, also after each single transition.  A drive that finishes has applied all commands.
One that is let go on until it waits applies all that have arrived; if the queue is closed
and no pass is left then, it is finished.
-/
theorem run_commands (setup : FilterSetup) (s : Session) (actions : List Action) :
    let r := Run.ofActions setup s actions
    r.arrived = r.applied ++ r.drive.atHand.toList ++ r.drive.queue ∧
      (∀ k t, r.transitions[k]? = some t → r.arrived[k]? = some t.1 ∧
        t.2 = (r.arrived.take (k + 1)).foldl FilterState.after s.filter.state) ∧
      r.drive.session.filter.state = r.applied.foldl FilterState.after s.filter.state ∧
      (r.drive.isFinished = true → r.drive.isOpen = false ∧ r.applied = r.arrived) ∧
      ∃ n, let polled := Run.ofActions setup s (actions ++ List.replicate n .step)
        polled.drive = r.drive.poll setup ∧ polled.arrived = r.arrived ∧
          polled.applied = r.arrived ∧
            (r.drive.isOpen = false → polled.drive.pass = none →
              polled.drive.isFinished = true) := by
  intro r
  have hsound : Run.Sound s.filter.state r := (Run.sound_initial s).foldl actions
  refine ⟨hsound.order, ?_, hsound.state, ?_, ?_⟩
  · intro k t ht
    refine ⟨?_, hsound.states k t ht⟩
    have happlied : r.applied[k]? = some t.1 := by
      rw [Run.applied, List.getElem?_map, ht]
      rfl
    have hk := (List.getElem?_eq_some_iff.mp happlied).1
    rw [hsound.order, List.append_assoc, List.getElem?_append_left hk]
    exact happlied
  · intro hfinished
    have hstage : r.drive.stage = .finished := by simpa [isFinished] using hfinished
    obtain ⟨hopen, hqueue⟩ := hsound.deaf (.inr (.inr hstage))
    have horder := hsound.order
    rw [hqueue, atHand, hstage, Option.toList_none, List.append_nil, List.append_nil] at horder
    exact ⟨hopen, horder.symm⟩
  · obtain ⟨n, hdrive, hsettled⟩ := hsound.exists_poll setup
    obtain ⟨harrived, hopen⟩ := r.arrived_replicate setup n
    refine ⟨n, ?_⟩
    rw [Run.ofActions, List.foldl_append]
    refine ⟨hdrive, harrived, hsettled.applied.trans harrived, fun hclosed hpass => ?_⟩
    exact hsettled.finished (hopen.trans hclosed) hpass

end Drive

end Marginalia
