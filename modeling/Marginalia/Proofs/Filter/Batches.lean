import Marginalia.Proofs.Filter.Commands

/-!
# Batches and bursts of commands

A drive that gets its commands in batches, or all of them in a burst, is a run in which these
commands arrive, the queue is closed and steps are made; the active document stays the same.
-/

namespace Marginalia

namespace Drive

namespace Run

theorem ofActions_append (setup : FilterSetup) (s : Session) (actions more : List Action) :
    ofActions setup s (actions ++ more) = more.foldl (act setup) (ofActions setup s actions) :=
  List.foldl_append

/-- Whether the active document stays the same through some actions. -/
def TurnFree (actions : List Action) : Prop :=
  ∀ document, Action.turn document ∉ actions

theorem foldl_arrive (setup : FilterSetup) (r : Run) (hopen : r.drive.isOpen = true)
    (batch : List FilterCommand) :
    let r' := (batch.map Action.arrive).foldl (act setup) r
    r'.drive = batch.foldl Drive.arrive r.drive ∧ r'.arrived = r.arrived ++ batch ∧
      r'.drive.isOpen = true := by
  induction batch generalizing r with
  | nil => exact ⟨rfl, (List.append_nil _).symm, hopen⟩
  | cons command batch ih =>
      have hopen' : (r.act setup (.arrive command)).drive.isOpen = true := by
        rw [act, Drive.arrive, if_pos hopen]
        exact hopen
      obtain ⟨hdrive, harrived, hstays⟩ := ih (r.act setup (.arrive command)) hopen'
      refine ⟨hdrive, ?_, hstays⟩
      rw [List.map_cons, List.foldl_cons, harrived, act, if_pos hopen, List.append_assoc]
      rfl

theorem TurnFree.append {actions more : List Action} (h : TurnFree actions)
    (h' : TurnFree more) : TurnFree (actions ++ more) := by
  intro document hmem
  rcases List.mem_append.mp hmem with hfirst | hlater
  · exact h document hfirst
  · exact h' document hlater

theorem turnFree_arrive (batch : List FilterCommand) : TurnFree (batch.map Action.arrive) := by
  intro document hmem
  simp at hmem

theorem turnFree_step (n : Nat) : TurnFree (List.replicate n Action.step) := by
  intro document hmem
  simp at hmem

theorem exists_feeds {setup : FilterSetup} {start : FilterState} {r : Run} (h : Sound start r)
    (hopen : r.drive.isOpen = true) (batches : List (List FilterCommand)) :
    ∃ actions, TurnFree actions ∧
      (actions.foldl (act setup) r).drive = batches.foldl (Drive.feed setup) r.drive ∧
      (actions.foldl (act setup) r).arrived = r.arrived ++ batches.flatten := by
  induction batches generalizing r with
  | nil => exact ⟨[], fun _ => List.not_mem_nil, rfl, (List.append_nil _).symm⟩
  | cons batch batches ih =>
      obtain ⟨hdrive, harrived, hopen'⟩ := foldl_arrive setup r hopen batch
      have hsound : Sound start ((batch.map Action.arrive).foldl (act setup) r) := h.foldl _
      generalize hr' : (batch.map Action.arrive).foldl (act setup) r = r' at *
      obtain ⟨n, hpolled, -⟩ := hsound.exists_poll setup
      obtain ⟨hkept, hstays⟩ := r'.arrived_replicate setup n
      obtain ⟨actions, hturn, hrest, hall⟩ :=
        ih (hsound.foldl (List.replicate n Action.step)) (hstays.trans hopen')
      refine ⟨batch.map Action.arrive ++ List.replicate n Action.step ++ actions,
        ((turnFree_arrive batch).append (turnFree_step n)).append hturn, ?_, ?_⟩
      · rw [List.foldl_append, List.foldl_append, hr', hrest, hpolled, hdrive]
        rfl
      · rw [List.foldl_append, List.foldl_append, hr', hall, hkept, harrived, List.append_assoc]
        rfl

theorem exists_closed {start : FilterState} {r : Run} (setup : FilterSetup) (h : Sound start r) :
    ∃ actions, TurnFree actions ∧
      (actions.foldl (act setup) r).drive = r.drive.close.poll setup ∧
      (actions.foldl (act setup) r).arrived = r.arrived := by
  have hclosed : Sound start (r.act setup .close) := h.close
  obtain ⟨n, hpolled, -⟩ := hclosed.exists_poll setup
  obtain ⟨hkept, -⟩ := (r.act setup .close).arrived_replicate setup n
  refine ⟨.close :: List.replicate n .step, fun document hmem => ?_, hpolled, hkept⟩
  simp at hmem

theorem exists_run (setup : FilterSetup) (s : Session) (batches : List (List FilterCommand)) :
    ∃ actions, TurnFree actions ∧
      (ofActions setup s actions).drive = Drive.run setup s batches ∧
      (ofActions setup s actions).arrived = batches.flatten := by
  obtain ⟨actions, hturn, hdrive, harrived⟩ :=
    @exists_feeds setup _ _ (sound_initial s) rfl batches
  have hsound : Sound s.filter.state (ofActions setup s actions) := (sound_initial s).foldl actions
  obtain ⟨more, hturn', hdrive', harrived'⟩ := exists_closed setup hsound
  refine ⟨actions ++ more, hturn.append hturn', ?_, ?_⟩
  · rw [ofActions_append, hdrive', ofActions, hdrive]
    rfl
  · rw [ofActions_append, harrived', ofActions, harrived]
    rfl

theorem exists_runBurst (setup : FilterSetup) (s : Session) (commands : List FilterCommand) :
    ∃ actions, TurnFree actions ∧
      (ofActions setup s actions).drive = Drive.runBurst setup s commands ∧
      (ofActions setup s actions).arrived = commands := by
  obtain ⟨hdrive, harrived, -⟩ := foldl_arrive setup { drive := { session := s } } rfl commands
  have hsound : Sound s.filter.state (ofActions setup s (commands.map Action.arrive)) :=
    (sound_initial s).foldl _
  obtain ⟨more, hturn, hdrive', harrived'⟩ := exists_closed setup hsound
  refine ⟨commands.map Action.arrive ++ more, (turnFree_arrive commands).append hturn, ?_, ?_⟩
  · rw [ofActions_append, hdrive', ofActions, hdrive]
    rfl
  · rw [ofActions_append, harrived', ofActions, harrived]
    rfl

end Run

end Drive

end Marginalia
