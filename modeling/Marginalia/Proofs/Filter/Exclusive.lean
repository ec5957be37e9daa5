import Marginalia.Proofs.Filter.Reached
import Marginalia.Proofs.Record.Lines

/-!
# One severity at a time

While a severity is active, every marker of every document has this severity and its
color.  A toggle takes all markers away before it changes the state, and the pass that it
opens marks nothing but the severity that is active; a pass that would mark another one
is dropped with the command that makes it so.
-/

namespace Marginalia

/-- Whether a pass shows what a filter in this state is to show. -/
structure Pass.Fits (setup : FilterSetup) (state : FilterState) (p : Pass) : Prop where
  signal : ∀ severity, state = .active severity → p.signal = .display severity
  review : ∀ review, p.phase = .reviewing review → review.signal = p.signal ∧
    review.color = setup.palette.colorFor p.signal ∧ review.feed.IsSmall

/-- What holds in every state a filter comes to, with all markers made until then. -/
structure Exclusive (setup : FilterSetup) (s : Session) (p? : Option Pass)
    (log : List (Document × Marker)) : Prop where
  shown : ∀ severity, s.filter.state = .active severity → ∀ id,
    ∀ m ∈ s.filter.ledger.rendered id,
      m.severity = severity ∧ m.color = setup.palette.color severity
  logged : ∀ id, ∀ m ∈ s.filter.ledger.rendered id, ∃ d, (d, m) ∈ log ∧ d.id = id
  inRange : ∀ entry ∈ log, entry.1.hasLine entry.2.line = true
  fits : ∀ p ∈ p?, p.Fits setup s.filter.state

/-! ## Passes that fit -/

theorem Review.of_start {r : Reviewer} {document : Option Document} {fileContext : List Message}
    {color : String} {signal : Signal} {token : Model.Token} {isCancelled : Bool}
    {x x' : Model.Exchange} {review : Review}
    (h : start r document fileContext color signal token isCancelled x = (.ok review, x')) :
    review.signal = signal ∧ review.color = color ∧ review.feed.ready = [] := by
  unfold start at h
  split at h
  · cases h
  · split at h
    · cases h
    · split at h
      · cases h
      · cases h
        exact ⟨rfl, rfl, rfl⟩

namespace Pass

variable {setup : FilterSetup} {state : FilterState} {s : Session} {p : Pass}

theorem Fits.of_phase {p' : Pass} (h : p.Fits setup state) (hsignal : p'.signal = p.signal)
    (hphase : ∀ review, p'.phase ≠ .reviewing review) : p'.Fits setup state :=
  ⟨fun severity hstate => hsignal.trans (h.signal severity hstate),
    fun review hreview => absurd hreview (hphase review)⟩

theorem Fits.close (h : p.Fits setup state) (s : Session) (isCancelled : Bool) :
    (Pass.close s p isCancelled).2.Fits setup state :=
  h.of_phase rfl nofun

theorem Fits.openReview (h : p.Fits setup state) (s : Session) (isCancelled : Bool) :
    (Pass.openReview setup s p isCancelled).2.Fits setup state := by
  unfold Pass.openReview
  split
  · exact h.close s true
  · split
    · exact h.close _ false
    · next hstart =>
        obtain ⟨hsignal, hcolor, hready⟩ := Review.of_start hstart
        refine ⟨h.signal, fun review hreview => ?_⟩
        cases hreview
        refine ⟨hsignal, hcolor, ?_⟩
        rw [Record.Feed.IsSmall, hready]
        exact List.forall_mem_nil _

theorem Fits.continueChoice (h : p.Fits setup state) (library : Library) (s : Session)
    (choice : FileChoice) :
    (Pass.continueChoice setup library s p choice).2.Fits setup state := by
  unfold Pass.continueChoice
  split
  · exact h.openReview _ _
  · exact h.openReview _ _
  · exact h.of_phase rfl nofun

theorem Fits.begin (h : p.Fits setup state) (s : Session) :
    (Pass.begin setup s p).2.Fits setup state := by
  unfold Pass.begin
  split
  · split
    · exact h.openReview _ _
    · exact h.continueChoice _ _ _
  · exact h.openReview _ _

theorem Fits.prepare (h : p.Fits setup state) (s : Session) :
    (p.prepare setup s).2.Fits setup state := by
  unfold Pass.prepare
  split
  · exact h.begin s
  · split
    · exact h.continueChoice _ _ _
    · exact h.openReview _ _
  · exact h

theorem Fits.cancel (h : p.Fits setup state) : p.cancel.Fits setup state := by
  refine ⟨h.signal, fun review hreview => ?_⟩
  unfold Pass.cancel at hreview
  dsimp only at hreview
  split at hreview
  · cases hreview
  · next review' hphase =>
      cases hreview
      exact h.review review' hphase
  · next hphase => exact absurd hreview (hphase review)

/-- Without a record to take in, the pass is over or waits. -/
theorem Fits.readOn (h : p.Fits setup state) (hread : p.readRecord s = none) :
    (p.readOn s).2.Fits setup state := by
  rw [readOn_eq_settle hread]
  unfold settle
  split
  · next review hphase =>
      split
      · exact h.close _ _
      · next feed hnext =>
          obtain ⟨hsignal, hcolor, -⟩ := h.review review hphase
          refine ⟨h.signal, fun review' hreview' => ?_⟩
          cases hreview'
          exact ⟨hsignal, hcolor, Record.Feed.isSmall_of_next_waiting hnext⟩
      · exact h
  · exact h

theorem Fits.marked (h : p.Fits setup state) {d : Document} {m : Marker}
    (hm : (d, m) ∈ p.marked) :
    p.signal = .display m.severity ∧ m.color = setup.palette.colorFor p.signal ∧
      d.hasLine m.line = true := by
  unfold Pass.marked at hm
  split at hm
  · next review hphase =>
      obtain ⟨hsignal, hcolor, hsmall⟩ := h.review review hphase
      split at hm
      · next record feed hnext =>
          obtain ⟨m', hm', heq⟩ := List.mem_map.mp hm
          cases heq
          rw [Option.mem_toList] at hm'
          obtain ⟨hshown, hcolor', hline, hsome⟩ := Review.marker?_eq_some hm'
          have hrecord := (Record.Feed.isSmall_of_next hsmall hnext).1
          refine ⟨hsignal.symm.trans hshown, hcolor'.trans hcolor, ?_⟩
          exact Document.hasLine_of_line? hsome (hline ▸ hrecord)
      · cases hm
  · cases hm

theorem readRecord_effect {s' : Session} {p' : Pass} (h : p.readRecord s = some (s', p'))
    (hfits : p.Fits setup state) :
    s'.filter.state = s.filter.state ∧ p'.Fits setup state ∧
      ∀ id, s'.filter.ledger.rendered id =
        s.filter.ledger.rendered id ++
          (p.marked.filter fun entry => entry.1.id = id).map (·.2) := by
  obtain ⟨review, record, feed, hphase, hnext, rfl, rfl⟩ := readRecord_eq_some h
  obtain ⟨hsignal, hcolor, hsmall⟩ := hfits.review review hphase
  refine ⟨rfl, ⟨hfits.signal, fun review' hreview' => ?_⟩, fun id => ?_⟩
  · cases hreview'
    exact ⟨hsignal, hcolor, (Record.Feed.isSmall_of_next hsmall hnext).2⟩
  · have hmade : (if review.document.id = id then (review.marker? record).toList else []) =
        (p.marked.filter fun entry => entry.1.id = id).map (·.2) := by
      simp only [marked, hphase, hnext]
      cases review.marker? record with
      | none => simp
      | some m =>
          by_cases hid : review.document.id = id
          · simp [hid]
          · simp [hid]
    rw [← hmade]
    exact review.rendered_take _ record id

end Pass

/-! ## Commands -/

namespace Session

theorem create_fits (setup : FilterSetup) (s : Session) {signal : Signal} (isCancelled : Bool)
    {state : FilterState} (hsignal : ∀ severity, state = .active severity →
      signal = .display severity) :
    (Pass.create s signal isCancelled).2.Fits setup state :=
  ⟨hsignal, nofun⟩

theorem begin_fits (setup : FilterSetup) (s : Session) (command : FilterCommand)
    (isCancelled : Bool) :
    ∀ p ∈ (s.begin command isCancelled).2,
      p.Fits setup (s.begin command isCancelled).1.filter.state := by
  intro p hp
  rw [begin_state]
  cases command with
  | initialLoad =>
      cases hp
      exact create_fits setup _ isCancelled nofun
  | toggle severity =>
      simp only [begin, start, applyToggle] at hp
      rw [FilterState.after]
      cases hplan : Transition.plan s.filter.state severity with
      | activate target =>
          simp only [hplan, Transition.signal?] at hp
          cases hp
          refine create_fits setup _ isCancelled fun severity hstate => ?_
          cases hstate
          rfl
      | switch source target =>
          simp only [hplan, Transition.signal?] at hp
          cases hp
          refine create_fits setup _ isCancelled fun severity hstate => ?_
          cases hstate
          rfl
      | deactivate target =>
          simp only [hplan, Transition.signal?] at hp
          cases hp

end Session

/-! ## Runs -/

namespace Exclusive

variable {setup : FilterSetup} {s s' : Session} {p p' : Pass} {p? : Option Pass}
  {log : List (Document × Marker)}

theorem of_agrees (h : Exclusive setup s p? log) (hagrees : s.Agrees s') {p?' : Option Pass}
    (hfits : ∀ p ∈ p?', p.Fits setup s'.filter.state) : Exclusive setup s' p?' log := by
  refine ⟨fun severity hstate id m hm => ?_, fun id m hm => ?_, h.inRange, hfits⟩
  · rw [hagrees.ledger] at hm
    exact h.shown severity (hagrees.state.symm.trans hstate) id m hm
  · rw [hagrees.ledger] at hm
    exact h.logged id m hm

theorem begin (h : Exclusive setup s p? log) (command : FilterCommand) (isCancelled : Bool) :
    Exclusive setup (s.begin command isCancelled).1 (s.begin command isCancelled).2 log := by
  have hfits := s.begin_fits setup command isCancelled
  cases command with
  | initialLoad =>
      -- the markers stay, but no severity is active any more
      exact ⟨nofun, h.logged, h.inRange, hfits⟩
  | toggle severity =>
      have hnone := s.rendered_begin_toggle severity isCancelled
      refine ⟨fun _ _ id m hm => ?_, fun id m hm => ?_, h.inRange, hfits⟩
      · rw [hnone id] at hm
        cases hm
      · rw [hnone id] at hm
        cases hm

theorem read (h : Exclusive setup s (some p) log) (hread : p.readRecord s = some (s', p')) :
    Exclusive setup s' (some p') (log ++ p.marked) := by
  have hfits := h.fits p rfl
  obtain ⟨hstate, hfits', hrendered⟩ := Pass.readRecord_effect hread hfits
  have hnew : ∀ id, ∀ m ∈ s'.filter.ledger.rendered id,
      m ∈ s.filter.ledger.rendered id ∨ ∃ d, (d, m) ∈ p.marked ∧ d.id = id := by
    intro id m hm
    rw [hrendered id, List.mem_append] at hm
    rcases hm with hold | hnew
    · exact .inl hold
    · obtain ⟨⟨d, m'⟩, hentry, rfl⟩ := List.mem_map.mp hnew
      obtain ⟨hmarked, hid⟩ := List.mem_filter.mp hentry
      exact .inr ⟨d, hmarked, of_decide_eq_true hid⟩
  refine ⟨fun severity hactive id m hm => ?_, fun id m hm => ?_, fun entry hentry => ?_, ?_⟩
  · rw [hstate] at hactive
    rcases hnew id m hm with hold | ⟨d, hmarked, -⟩
    · exact h.shown severity hactive id m hold
    · -- a new marker has the severity of the pass, which is the active one
      obtain ⟨hsignal, hcolor, -⟩ := hfits.marked hmarked
      have hdisplay := hfits.signal severity hactive
      rw [hdisplay] at hsignal hcolor
      cases hsignal
      exact ⟨rfl, hcolor⟩
  · rcases hnew id m hm with hold | ⟨d, hmarked, hid⟩
    · obtain ⟨d, hd, hid⟩ := h.logged id m hold
      exact ⟨d, List.mem_append_left _ hd, hid⟩
    · exact ⟨d, List.mem_append_right _ hmarked, hid⟩
  · rcases List.mem_append.mp hentry with hold | hmarked
    · exact h.inRange entry hold
    · exact (hfits.marked hmarked).2.2
  · intro p'' hp''
    cases hp''
    rw [hstate]
    exact hfits'

/-- Every small step of a filter keeps one severity at a time. -/
theorem of_reached (h : Reached setup s p? log) : Exclusive setup s p? log := by
  induction h with
  | fresh document exchange => exact ⟨nofun, nofun, nofun, by simp⟩
  | turned _ document ih => exact ⟨ih.shown, ih.logged, ih.inRange, ih.fits⟩
  | began _ command isCancelled ih => exact ih.begin command isCancelled
  | @prepared s p log _ ih =>
      have hagrees := (Pass.prepare_quiet setup s p).agrees
      refine ih.of_agrees hagrees fun p' hp' => ?_
      cases hp'
      rw [hagrees.state]
      exact (ih.fits p rfl).prepare s
  | read _ hread ih => exact ih.read hread
  | @settled s p log _ hread ih =>
      have hagrees := Pass.readOn_agrees hread
      refine ih.of_agrees hagrees fun p' hp' => ?_
      cases hp'
      rw [hagrees.state]
      exact (ih.fits p rfl).readOn hread
  | @cancelled s p log _ ih =>
      refine of_agrees ih (Session.agrees_exchange s _) fun p' hp' => ?_
      cases hp'
      exact (ih.fits p rfl).cancel
  | @superseded s p log _ ih => exact of_agrees ih (Session.agrees_exchange s _) (by simp)
  | dropped _ ih => exact of_agrees ih (.refl _) (by simp)

end Exclusive

/-! ## A pass that is left half read -/

def stalledSetup : FilterSetup :=
  { reviewer := { catalog := ⟨[⟨"test", "scripted"⟩]⟩ } }

def stalledSession : Session :=
  { document := some { id := "main.rs", lines := ["fn main()", "  run();"] }
    exchange := { replies := [.stream
      [.fragment "\x7b\"line\":2,\"severity\":\"red\",\"suggestion\":\"a\"\x7d", .stall]] } }

def stalledMarker : Marker :=
  ⟨.red, "a", "rgb(255, 114, 114)", ⟨2, 2, 8⟩⟩

theorem Moves.exists_stalled :
    ∃ made s, Moves stalledSetup stalledSession none [.toggle .red] made s none ∧
      s.filter.state = .active .red ∧ s.filter.ledger.rendered "main.rs" = [stalledMarker] := by
  let began := stalledSession.begin (.toggle .red) false
  let p : Pass := { token := 0, signal := .display .red }
  let prepared := p.prepare stalledSetup began.1
  have hmarked : (prepared.2.readRecord prepared.1).map (·.1.filter.ledger.rendered "main.rs") =
      some [stalledMarker] := by
    decide +kernel
  cases hread : prepared.2.readRecord prepared.1 with
  | none =>
      rw [hread] at hmarked
      cases hmarked
  | some next =>
      obtain ⟨s, p'⟩ := next
      rw [hread] at hmarked
      have hbegan : Moves stalledSetup stalledSession none [.toggle .red] [] began.1 (some p) :=
        (Moved.began stalledSession none (.toggle .red) false).moves
      have hmoves := ((hbegan.step (.prepared began.1 p)).step (.read hread)).step (.dropped _ _)
      exact ⟨_, s, hmoves, hmoves.state, Option.some.inj hmarked⟩

/-! ## One severity at a time -/

/--
In every state a filter comes to, after each single record too, the markers of all
documents have the severity that is active and its color, and each was made on a line of
its document as it was under review.  The operations of the filter lead from such states
to such states, whatever the replies are and wherever a pass is cancelled or superseded.
-/
theorem filter_exclusive (setup : FilterSetup) :
    (∀ s p? log, Reached setup s p? log → ∀ severity, s.filter.state = .active severity →
      ∀ id, ∀ m ∈ s.filter.ledger.rendered id,
        m.severity = severity ∧ m.color = setup.palette.color severity ∧
          ∃ d, (d, m) ∈ log ∧ d.id = id ∧ d.hasLine m.line = true) ∧
      ∀ s p? log, Reached setup s p? log →
        (∀ isCancelled, ∃ more, Reached setup (s.initialLoad setup isCancelled).1
          (some (s.initialLoad setup isCancelled).2) (log ++ more)) ∧
        (∀ severity isCancelled, ∃ more, Reached setup (s.toggle setup severity isCancelled).1
          (s.toggle setup severity isCancelled).2.2 (log ++ more)) ∧
        (∀ command isCancelled, ∃ more, Reached setup (s.handle setup command isCancelled).1
          (s.handle setup command isCancelled).2 (log ++ more)) ∧
        (∀ p, p? = some p → ∃ more, Reached setup (p.advance setup s).1
          (some (p.advance setup s).2) (log ++ more)) ∧
        (∀ actions, ∃ more, Reached setup (Drive.Run.ofActions setup s actions).drive.session
          (Drive.Run.ofActions setup s actions).drive.pass (log ++ more)) := by
  refine ⟨fun s p? log h severity hactive id m hm => ?_, fun s p? log h => ?_⟩
  · have hexclusive := Exclusive.of_reached h
    obtain ⟨hseverity, hcolor⟩ := hexclusive.shown severity hactive id m hm
    obtain ⟨d, hd, hid⟩ := hexclusive.logged id m hm
    exact ⟨hseverity, hcolor, d, hd, hid, hexclusive.inRange (d, m) hd⟩
  · refine ⟨h.initialLoad, h.toggle, h.handle, ?_, h.drive⟩
    rintro p rfl
    exact h.advance

/-- The marker of a pass that stalls then has the active severity, and a line of the document. -/
theorem filter_exclusive_stalled :
    ∃ log s, Reached stalledSetup s none log ∧ s.filter.state = .active .red ∧
      s.filter.ledger.rendered "main.rs" = [stalledMarker] ∧ stalledMarker.severity = .red ∧
        stalledMarker.color = stalledSetup.palette.color .red ∧
          ∃ d, (d, stalledMarker) ∈ log ∧ d.id = "main.rs" ∧
            d.hasLine stalledMarker.line = true := by
  obtain ⟨made, s, hmoves, hstate, hrendered⟩ := Moves.exists_stalled
  have hreached : Reached stalledSetup s none ([] ++ made) := (Reached.fresh _ _).moves hmoves
  have hshown : stalledMarker ∈ s.filter.ledger.rendered "main.rs" := by
    rw [hrendered]
    exact List.mem_cons_self
  exact ⟨_, s, hreached, hstate, hrendered,
    (filter_exclusive stalledSetup).1 s none _ hreached .red hstate "main.rs" _ hshown⟩

end Marginalia
