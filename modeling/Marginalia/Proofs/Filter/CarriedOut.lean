import Marginalia.Proofs.Filter.Publication
import Marginalia.Proofs.Filter.Supersession

/-!
# What a command publishes

A command is carried out when its pass is over, whether it was applied on its own or taken by a
drive.  The host then knows the tally and the state that the filter is left with.  A drive leaves
the pass of a command in one of two ways: the pass runs until it is over, or another command
takes its place, and then the host hears nothing but markers of it.
-/

namespace Marginalia

namespace Drive

/-! ## While the pass races -/

/-- What holds of the pass that a drive has under way, if the command taken last opened one. -/
structure Races (setup : FilterSetup) (s : Session) (opened : Option Pass) (s' : Session)
    (p : Pass) : Prop where
  continues : ∃ p₀ ∈ opened, p₀.Continues p
  isCancelled : p.isCancelled = false
  underWay : Pass.UnderWay setup s s' p

/-- Whether a drive has no pass under way but that which the command taken last opened. -/
def Racing (setup : FilterSetup) (s : Session) (opened : Option Pass) (d : Drive) : Prop :=
  ∀ p, d.pass = some p → Races setup s opened d.session p

namespace Racing

variable {setup : FilterSetup} {s : Session} {opened : Option Pass} {d d' : Drive}

theorem of_eq (h : Racing setup s opened d) (hsession : d'.session = d.session)
    (hpass : d'.pass = d.pass) : Racing setup s opened d' := by
  intro p hp
  rw [hsession]
  exact h p (hpass ▸ hp)

theorem turn (h : Racing setup s opened d) (document : Option Document) :
    Racing setup s opened { d with session := { d.session with document } } := by
  intro p hp
  have hraces := h p hp
  exact ⟨hraces.continues, hraces.isCancelled, hraces.underWay.turn document⟩

theorem take (setup : FilterSetup) (d : Drive) (command : FilterCommand) :
    Racing setup d.session (d.session.begin command false).2 (d.take command) := by
  obtain ⟨hsession, hpass⟩ := d.take_begin command
  intro p hp
  rw [hpass] at hp
  obtain ⟨hcancelled, hunderWay⟩ := (d.session.publication_begin setup command false).2 p hp
  rw [hsession]
  exact ⟨⟨p, hp, .refl p⟩, hcancelled, hunderWay⟩

theorem changed (h : Racing setup s opened d) (hchanged : Changed setup d d')
    (hnone : d.atHand = none) : Racing setup s opened d' := by
  cases hchanged with
  | rested _ hsession hpass => exact h.of_eq hsession hpass
  | took hatHand _ _ =>
      rw [hnone] at hatHand
      cases hatHand
  | superseded _ _ _ hpass =>
      intro p hp
      rw [hpass] at hp
      cases hp
  | @ran p _ hbefore hsession hpass =>
      have hraces := h p hbefore
      have hcomes := hraces.underWay.advance
      intro p' hp'
      rw [hpass] at hp'
      split at hp'
      · cases hp'
      · next hnot =>
          cases hp'
          have hwaits := Bool.eq_false_iff.mpr hnot
          obtain ⟨p₀, hp₀, hcontinues⟩ := hraces.continues
          rw [hsession]
          exact ⟨⟨p₀, hp₀, hcontinues.trans (p.advance_continues setup d.session)⟩,
            (hcomes.waits hwaits).trans hraces.isCancelled, hcomes.underWay hwaits⟩

end Racing

/-! ## When the drive leaves the pass -/

namespace Run

variable {setup : FilterSetup} {r : Run} {actions front back : List Action}

end Run

end Drive

end Marginalia
