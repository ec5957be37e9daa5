import Marginalia.Proofs.Record.Fragmentation
import Marginalia.Proofs.Record.Lines

/-!
# The records that a reply still holds

A reader who is not disturbed gets the records of all fragments up to the first failure of
the reply.  Reading one record takes it from the front of these; waiting takes nothing.
-/

namespace Marginalia

namespace Model

/-- The fragments of a reply up to its first failure; after a stall nothing else is heard. -/
def heard : List Event → List String
  | [] => []
  | .fragment text :: events => text :: heard events
  | .failure _ :: _ => []
  | .cancellation :: events => heard events
  | .pause :: events => heard events
  | .stall :: _ => []

def stalls : List Event → Bool
  | [] => false
  | .fragment _ :: events => stalls events
  | .failure _ :: _ => false
  | .cancellation :: events => stalls events
  | .pause :: events => stalls events
  | .stall :: _ => true

def fires : List Event → Bool
  | [] => false
  | .fragment _ :: events => fires events
  | .failure _ :: _ => false
  | .cancellation :: _ => true
  | .pause :: events => fires events
  | .stall :: _ => false

/-- Whether a reader reads past an event, perhaps after a wait. -/
def Event.isPassed : Event → Bool
  | .fragment _ => true
  | .pause => true
  | _ => false

section

variable {used : List Event} (h : ∀ event ∈ used, event.isPassed = true) (more : List Event)

include h

theorem heard_append : heard (used ++ more) = heard used ++ heard more := by
  induction used with
  | nil => rfl
  | cons event used ih =>
      have hlater := ih fun e he => h e (List.mem_cons_of_mem event he)
      have hfirst := h event List.mem_cons_self
      cases event with
      | fragment text => exact congrArg (text :: ·) hlater
      | pause => exact hlater
      | _ => cases hfirst

/-- What no event that is read past has a say in depends on the events behind them. -/
theorem eq_of_isPassed {α : Type} {f : List Event → α}
    (hf : ∀ event events, event.isPassed = true → f (event :: events) = f events) :
    f (used ++ more) = f more := by
  induction used with
  | nil => rfl
  | cons event used ih =>
      have hlater := ih fun e he => h e (List.mem_cons_of_mem event he)
      exact (hf event (used ++ more) (h event List.mem_cons_self)).trans hlater

theorem stalls_append : stalls (used ++ more) = stalls more := by
  refine eq_of_isPassed h more fun event events hpassed => ?_
  cases event with
  | fragment text => rfl
  | pause => rfl
  | _ => cases hpassed

theorem fires_append : fires (used ++ more) = fires more := by
  refine eq_of_isPassed h more fun event events hpassed => ?_
  cases event with
  | fragment text => rfl
  | pause => rfl
  | _ => cases hpassed

end

end Model

namespace Record

theorem Decoder.isSmall_of_mem_pushAll {d : Decoder} {fragments : List String} {record : Record}
    (h : record ∈ (d.pushAll fragments).1) : record.IsSmall := by
  induction fragments generalizing d with
  | nil => cases h
  | cons fragment fragments ih =>
      rw [pushAll_cons, List.mem_append] at h
      rcases h with hfirst | hlater
      · exact isSmall_of_mem_push hfirst
      · exact ih hlater

theorem Decoder.pushAll_append (d : Decoder) (fragments more : List String) :
    d.pushAll (fragments ++ more) =
      ((d.pushAll fragments).1 ++ ((d.pushAll fragments).2.pushAll more).1,
        ((d.pushAll fragments).2.pushAll more).2) := by
  induction fragments generalizing d with
  | nil => rfl
  | cons fragment fragments ih =>
      simp only [List.cons_append, pushAll, ih, List.append_assoc]

theorem Decoder.pushAll_prefix {d : Decoder} {fragments more : List String}
    (h : fragments <+: more) : (d.pushAll fragments).1 <+: (d.pushAll more).1 := by
  obtain ⟨others, rfl⟩ := h
  rw [pushAll_append]
  exact List.prefix_append _ _

def ofEvents (events : List Model.Event) : List Record :=
  (Decoder.pushAll {} (Model.heard events)).1

namespace Feed

/-- The records that a reader will get who is not disturbed. -/
def remaining (feed : Feed) : List Record :=
  feed.ready ++
    if feed.isFinished then [] else (feed.decoder.pushAll (Model.heard feed.events)).1

def stalls (feed : Feed) : Bool :=
  !feed.isFinished && Model.stalls feed.events

def fires (feed : Feed) : Bool :=
  feed.isCancelled || (!feed.isFinished && Model.fires feed.events)

/-- Two feeds of which a reader may expect the same, but for some records of the first one. -/
structure Continues (feed : Feed) (records : List Record) (feed' : Feed) : Prop where
  remaining : feed.remaining = records ++ feed'.remaining
  stalls : feed'.stalls = feed.stalls
  fires : feed'.fires = feed.fires
  isCancelled : feed'.isCancelled = false

/-- A feed with nothing to come, unless the request is cancelled before. -/
structure Ends (feed feed' : Feed) : Prop where
  fires : feed'.isCancelled = feed.fires
  remaining : feed.fires = false → feed.remaining = []
  stalls : feed.fires = false → feed.stalls = false

/-! ## Reading past events -/

/--
What a feed becomes when it reads past some events: the records of their fragments come
behind those at hand, and the first ones of all are given.
-/
structure Passed (feed : Feed) (used : List Model.Event) (records : List Record)
    (feed' : Feed) : Prop where
  events : feed.events = used ++ feed'.events
  isPassed : ∀ event ∈ used, event.isPassed = true
  ready : feed.ready ++ (feed.decoder.pushAll (Model.heard used)).1 = records ++ feed'.ready
  decoder : feed'.decoder = (feed.decoder.pushAll (Model.heard used)).2
  isFinished : feed'.isFinished = feed.isFinished
  idle : feed.isFinished = true → used = []

namespace Passed

variable {feed feed' last : Feed} {used used' : List Model.Event} {records records' : List Record}

theorem refl (feed : Feed) : feed.Passed [] [] feed :=
  ⟨rfl, nofun, List.append_nil _, rfl, rfl, fun _ => rfl⟩

theorem trans (h : feed.Passed used records feed') (h' : feed'.Passed used' records' last) :
    feed.Passed (used ++ used') (records ++ records') last := by
  have hheard := Model.heard_append h.isPassed used'
  refine ⟨?_, ?_, ?_, ?_, h'.isFinished.trans h.isFinished, fun hfinished => ?_⟩
  · rw [h.events, h'.events, List.append_assoc]
  · intro event hevent
    exact (List.mem_append.mp hevent).elim (h.isPassed event) (h'.isPassed event)
  · rw [hheard, Decoder.pushAll_append, ← h.decoder, ← List.append_assoc, h.ready,
      List.append_assoc, h'.ready, List.append_assoc]
  · rw [h'.decoder, hheard, Decoder.pushAll_append, h.decoder]
  · rw [h.idle hfinished, h'.idle (h.isFinished.trans hfinished)]
    rfl

/-- What remained is what was given and what remains. -/
theorem remaining (h : feed.Passed used records feed') :
    feed.remaining = records ++ feed'.remaining := by
  have hready := h.ready
  rw [Feed.remaining, Feed.remaining, h.isFinished]
  cases hfinished : feed.isFinished with
  | true =>
      rw [h.idle hfinished] at hready
      simpa [Model.heard, Decoder.pushAll] using hready
  | false =>
      rw [h.events, Model.heard_append h.isPassed, Decoder.pushAll_append, ← h.decoder]
      simp only [Bool.false_eq_true, if_false]
      rw [← List.append_assoc, hready, List.append_assoc]

theorem stalls (h : feed.Passed used records feed') : feed'.stalls = feed.stalls := by
  rw [Feed.stalls, Feed.stalls, h.isFinished, h.events, Model.stalls_append h.isPassed]

theorem fires (h : feed.Passed used records feed') (hsame : feed'.isCancelled = feed.isCancelled) :
    feed'.fires = feed.fires := by
  rw [Feed.fires, Feed.fires, h.isFinished, hsame, h.events, Model.fires_append h.isPassed]

theorem continues (h : feed.Passed used records feed') (hbefore : feed.isCancelled = false)
    (hafter : feed'.isCancelled = false) : feed.Continues records feed' :=
  ⟨h.remaining, h.stalls, h.fires (hafter.trans hbefore.symm), hafter⟩

theorem length_le (h : feed.Passed used records feed') :
    feed'.events.length ≤ feed.events.length := by
  rw [h.events, List.length_append]
  exact Nat.le_add_left _ _

end Passed

/-! ## One poll -/

/-- A feed that waits at a stall, with no record at hand. -/
structure IsStuck (feed : Feed) : Prop where
  ready : feed.ready = []
  isFinished : feed.isFinished = false
  isCancelled : feed.isCancelled = false
  events : ∃ later, feed.events = .stall :: later

namespace IsStuck

variable {feed : Feed}

theorem remaining (h : feed.IsStuck) : feed.remaining = [] := by
  obtain ⟨later, hevents⟩ := h.events
  rw [Feed.remaining, h.ready, h.isFinished, hevents]
  rfl

theorem stalls (h : feed.IsStuck) : feed.stalls = true := by
  obtain ⟨later, hevents⟩ := h.events
  rw [Feed.stalls, h.isFinished, hevents]
  rfl

theorem fires (h : feed.IsStuck) : feed.fires = false := by
  obtain ⟨later, hevents⟩ := h.events
  rw [Feed.fires, h.isFinished, h.isCancelled, hevents]
  rfl

end IsStuck

/-- A feed without records at hand where a reply ends, with the feed when it is over. -/
inductive Stops : Feed → Feed → Prop where
  | finished {feed : Feed} (hready : feed.ready = []) (h : feed.isFinished = true) : Stops feed feed
  | ended {feed final : Feed} (hready : feed.ready = []) (h : feed.events = [])
      (hcancelled : final.isCancelled = false) : Stops feed final
  | failed {feed final : Feed} {failure : Model.Failure} (hready : feed.ready = [])
      (h : feed.events = .failure failure :: final.events)
      (hcancelled : final.isCancelled = false) : Stops feed final
  | fired {feed final : Feed} (hready : feed.ready = []) (hfinished : feed.isFinished = false)
      (h : feed.events = .cancellation :: final.events)
      (hcancelled : final.isCancelled = true) : Stops feed final

/-- A feed that is read for the first time, or after a wait. -/
def ofParts (decoder : Decoder) (events : List Model.Event) : Feed :=
  { events, decoder }

section

variable {decoder : Decoder} {events : List Model.Event} {feed feed' : Feed} {record : Record}

/-- A fragment is read past: the first of its records are given, the others are at hand. -/
theorem passed_fragment {decoder' : Decoder} {text : String} (records ready : List Record)
    (hpush : decoder.push text = (records ++ ready, decoder')) :
    (ofParts decoder (.fragment text :: events)).Passed [.fragment text] records
      { events, decoder := decoder', ready } := by
  refine ⟨rfl, List.forall_mem_singleton.mpr rfl, ?_, ?_, rfl, nofun⟩
  · simp only [ofParts, Model.heard, Decoder.pushAll, hpush, List.append_nil, List.nil_append]
  · simp only [ofParts, Model.heard, Decoder.pushAll, hpush]

theorem passed_pause :
    (ofParts decoder (.pause :: events)).Passed [.pause] [] (ofParts decoder events) :=
  ⟨rfl, List.forall_mem_singleton.mpr rfl, rfl, rfl, rfl, nofun⟩

theorem passed_of_refill_record (h : refill decoder events = .record record feed) :
    (∃ used, (ofParts decoder events).Passed used [record] feed) ∧ feed.isCancelled = false := by
  induction events generalizing decoder with
  | nil => cases h
  | cons event events ih =>
      cases event with
      | fragment text =>
          rw [refill] at h
          split at h
          · next hpush =>
              obtain ⟨⟨used, hused⟩, hcancelled⟩ := ih h
              exact ⟨⟨_, (passed_fragment [] [] hpush).trans hused⟩,
                hcancelled⟩
          · next hpush =>
              cases h
              exact ⟨⟨_, passed_fragment [record] _ hpush⟩, rfl⟩
      | _ => cases h

theorem passed_of_refill_waiting (h : refill decoder events = .waiting feed) :
    (∃ used, (ofParts decoder events).Passed used [] feed) ∧ feed.isCancelled = false ∧
      (feed.events.length < events.length ∨ feed.IsStuck) := by
  induction events generalizing decoder with
  | nil => cases h
  | cons event events ih =>
      cases event with
      | fragment text =>
          rw [refill] at h
          split at h
          · next hpush =>
              obtain ⟨⟨used, hused⟩, hcancelled, hlength⟩ := ih h
              exact ⟨⟨_, (passed_fragment [] [] hpush).trans hused⟩,
                hcancelled, hlength.imp_left (Nat.lt_trans · (Nat.lt_succ_self _))⟩
          · cases h
      | pause =>
          cases h
          exact ⟨⟨_, passed_pause⟩, rfl, .inl (Nat.lt_succ_self _)⟩
      | stall =>
          cases h
          exact ⟨⟨_, .refl _⟩, rfl, .inr ⟨rfl, rfl, rfl, events, rfl⟩⟩
      | _ => cases h

theorem passed_of_refill_over (h : refill decoder events = .over feed) :
    ∃ used last, (ofParts decoder events).Passed used [] last ∧ last.isCancelled = false ∧
      last.Stops feed := by
  induction events generalizing decoder with
  | nil =>
      cases h
      exact ⟨_, _, .refl _, rfl, .ended rfl rfl rfl⟩
  | cons event events ih =>
      cases event with
      | fragment text =>
          rw [refill] at h
          split at h
          · next hpush =>
              obtain ⟨used, last, hused, hlast⟩ := ih h
              exact ⟨_, last, (passed_fragment [] [] hpush).trans hused,
                hlast⟩
          · cases h
      | failure _ =>
          cases h
          exact ⟨_, _, .refl _, rfl, .failed rfl rfl rfl⟩
      | cancellation =>
          cases h
          exact ⟨_, _, .refl _, rfl, .fired rfl rfl rfl rfl⟩
      | _ => cases h

/-- A feed without records at hand that is neither cancelled nor at its end. -/
theorem eq_ofParts (hcancelled : ¬ feed.isCancelled = true) (hready : feed.ready = [])
    (hfinished : ¬ feed.isFinished = true) : feed = ofParts feed.decoder feed.events := by
  obtain ⟨events, decoder, ready, isFinished, isCancelled⟩ := feed
  rw [Bool.not_eq_true] at hcancelled hfinished
  cases hcancelled
  cases hready
  cases hfinished
  rfl

theorem passed_of_next_record (h : feed.next = .record record feed') :
    (∃ used, feed.Passed used [record] feed') ∧ feed.isCancelled = false ∧
      feed'.isCancelled = false := by
  unfold next at h
  split at h
  · cases h
  · next hcancelled =>
      have hbefore := Bool.not_eq_true _ ▸ hcancelled
      split at h
      · next hready =>
          cases h
          refine ⟨⟨[], rfl, nofun, ?_, rfl, rfl, fun _ => rfl⟩, hbefore, hbefore⟩
          rw [hready]
          exact List.append_nil _
      · next hready =>
          split at h
          · cases h
          · next hfinished =>
              obtain ⟨hpassed, hafter⟩ := passed_of_refill_record h
              rw [← eq_ofParts hcancelled hready hfinished] at hpassed
              exact ⟨hpassed, hbefore, hafter⟩

/-- A poll that leads to a wait takes an event with it, unless the reply stalls. -/
theorem passed_of_next_waiting (h : feed.next = .waiting feed') :
    (∃ used, feed.Passed used [] feed') ∧ feed.isCancelled = false ∧
      feed'.isCancelled = false ∧ (feed'.events.length < feed.events.length ∨ feed'.IsStuck) := by
  unfold next at h
  split at h
  · cases h
  · next hcancelled =>
      split at h
      · cases h
      · next hready =>
          split at h
          · cases h
          · next hfinished =>
              obtain ⟨hpassed, hafter, hlength⟩ := passed_of_refill_waiting h
              rw [← eq_ofParts hcancelled hready hfinished] at hpassed
              exact ⟨hpassed, Bool.not_eq_true _ ▸ hcancelled, hafter, hlength⟩

theorem passed_of_next_over (h : feed.next = .over feed') (hbefore : feed.isCancelled = false) :
    ∃ used last, feed.Passed used [] last ∧ last.isCancelled = false ∧ last.Stops feed' := by
  have hcancelled : ¬ feed.isCancelled = true := by simp [hbefore]
  rw [next, if_neg hcancelled] at h
  split at h
  · cases h
  · next hready =>
      split at h
      · next hfinished =>
          cases h
          exact ⟨[], feed, .refl feed, hbefore, .finished hready hfinished⟩
      · next hfinished =>
          have hpassed := passed_of_refill_over h
          rwa [← eq_ofParts hcancelled hready hfinished] at hpassed

/-- The record that is read is the first of those that remained. -/
theorem continues_of_next_record (h : feed.next = .record record feed') :
    feed.Continues [record] feed' := by
  obtain ⟨⟨used, hpassed⟩, hbefore, hafter⟩ := passed_of_next_record h
  exact hpassed.continues hbefore hafter

theorem continues_of_next_waiting (h : feed.next = .waiting feed') :
    feed.Continues [] feed' ∧
      (feed'.events.length < feed.events.length ∨ feed'.IsStuck) := by
  obtain ⟨⟨used, hpassed⟩, hbefore, hafter, hlength⟩ := passed_of_next_waiting h
  exact ⟨hpassed.continues hbefore hafter, hlength⟩

theorem Stops.ends (h : feed.Stops feed') (hbefore : feed.isCancelled = false) :
    feed.Ends feed' := by
  cases h with
  | finished hready hfinished =>
      refine ⟨?_, fun _ => ?_, fun _ => ?_⟩
      · rw [fires, hbefore, hfinished]
        rfl
      · rw [remaining, hready, hfinished]
        rfl
      · rw [stalls, hfinished]
        rfl
  | ended hready hevents hafter =>
      refine ⟨?_, fun _ => ?_, fun _ => ?_⟩
      · rw [hafter, fires, hbefore, hevents, Model.fires, Bool.and_false, Bool.or_false]
      · rw [remaining, hready, hevents]
        simp [Model.heard, Decoder.pushAll]
      · rw [stalls, hevents, Model.stalls, Bool.and_false]
  | failed hready hevents hafter =>
      refine ⟨?_, fun _ => ?_, fun _ => ?_⟩
      · rw [hafter, fires, hbefore, hevents, Model.fires, Bool.and_false, Bool.or_false]
      · rw [remaining, hready, hevents]
        simp [Model.heard, Decoder.pushAll]
      · rw [stalls, hevents, Model.stalls, Bool.and_false]
  | fired hready hfinished hevents hafter =>
      have hfires : feed.fires = true := by
        rw [fires, hfinished, hevents]
        simp [Model.fires]
      exact ⟨hafter.trans hfires.symm, fun hquiet => absurd hfires (by simp [hquiet]),
        fun hquiet => absurd hfires (by simp [hquiet])⟩

theorem next_of_isCancelled (h : feed.isCancelled = true) : feed.next = .over feed.finish := by
  rw [next, if_pos h]

theorem ends_of_next_over (h : feed.next = .over feed') : feed.Ends feed' := by
  cases hbefore : feed.isCancelled with
  | true =>
      rw [next_of_isCancelled hbefore] at h
      cases h
      have hfires : feed.fires = true := by rw [fires, hbefore, Bool.true_or]
      exact ⟨hbefore.trans hfires.symm, fun hquiet => absurd hfires (by simp [hquiet]),
        fun hquiet => absurd hfires (by simp [hquiet])⟩
  | false =>
      obtain ⟨used, last, hpassed, hlast, hstops⟩ := passed_of_next_over h hbefore
      have hends := hstops.ends hlast
      have hfires := hpassed.fires (hlast.trans hbefore.symm)
      refine ⟨hends.fires.trans hfires, fun hquiet => ?_, fun hquiet => ?_⟩
      · rw [hpassed.remaining, hends.remaining (hfires.trans hquiet)]
        rfl
      · rw [← hpassed.stalls, hends.stalls (hfires.trans hquiet)]

end

/-! ## Reading on -/

/-- The poll that ended a reading, by what it led to. -/
def Ended.next : Ended → Next
  | .over feed => .over feed
  | .waiting feed => .waiting feed

/-- Reading on gives some records, and the poll of what the feed has become by then gives none. -/
structure ReadOn (feed : Feed) (read : List Record) (last : Feed) (ended : Ended) : Prop where
  passed : ∃ used, feed.Passed used read last
  isCancelled : last.isCancelled = feed.isCancelled
  next : last.next = ended.next

namespace ReadOn

variable {feed feed' last : Feed} {record : Record} {read : List Record} {ended : Ended}

theorem cons (hnext : feed.next = .record record feed') (h : feed'.ReadOn read last ended) :
    feed.ReadOn (record :: read) last ended := by
  obtain ⟨⟨used, hfirst⟩, hbefore, hafter⟩ := passed_of_next_record hnext
  obtain ⟨used', hlater⟩ := h.passed
  exact ⟨⟨_, hfirst.trans hlater⟩, h.isCancelled.trans (hafter.trans hbefore.symm), h.next⟩

theorem remaining (h : feed.ReadOn read last ended) :
    feed.remaining = read ++ last.remaining := by
  obtain ⟨used, hpassed⟩ := h.passed
  exact hpassed.remaining

/-- When it is over, all records that remained were given, unless it was cancelled. -/
theorem atEnd (h : feed.ReadOn read last (.over feed')) : feed'.isCancelled = feed.fires ∧
    (feed.fires = false → last.remaining = [] ∧ feed.stalls = false) := by
  obtain ⟨used, hpassed⟩ := h.passed
  have hends := ends_of_next_over h.next
  have hfires := hpassed.fires h.isCancelled
  refine ⟨hends.fires.trans hfires, fun hquiet => ?_⟩
  rw [← hfires] at hquiet
  exact ⟨hends.remaining hquiet, hpassed.stalls.symm.trans (hends.stalls hquiet)⟩

/-- When it waits, the other records still remain. -/
theorem waiting (h : feed.ReadOn read last (.waiting feed')) :
    feed.isCancelled = false ∧ (∃ used, feed.Passed used read feed') ∧
      feed.Continues read feed' ∧
        (feed'.events.length < feed.events.length ∨ feed'.IsStuck) := by
  obtain ⟨used, hpassed⟩ := h.passed
  obtain ⟨⟨used', hpaused⟩, hlast, hafter, hlength⟩ := passed_of_next_waiting h.next
  have hall := hpassed.trans hpaused
  rw [List.append_nil] at hall
  have hbefore := h.isCancelled.symm.trans hlast
  refine ⟨hbefore, ⟨_, hall⟩, hall.continues hbefore hafter, ?_⟩
  exact hlength.imp_left (Nat.lt_of_lt_of_le · hpassed.length_le)

end ReadOn

theorem exists_readOn {σ : Type} (take : σ → Record → σ) (acc : σ) (feed : Feed) :
    ∃ read last ended, feed.ReadOn read last ended ∧
      feed.fold (fun acc record => (take acc record, false)) acc =
        (read.foldl take acc, ended) := by
  fun_induction fold (fun acc record => (take acc record, false)) acc feed with
  | case1 acc feed feed' hnext =>
      exact ⟨[], feed, .over feed', ⟨⟨[], .refl feed⟩, rfl, hnext⟩, rfl⟩
  | case2 acc feed feed' hnext =>
      exact ⟨[], feed, .waiting feed', ⟨⟨[], .refl feed⟩, rfl, hnext⟩, rfl⟩
  | case3 acc feed record feed' hnext acc' cancels htake ih =>
      cases htake
      rw [Bool.or_false] at ih ⊢
      obtain ⟨read, last, ended, hread, hfold⟩ := ih
      exact ⟨record :: read, last, ended, hread.cons hnext, hfold⟩

end Feed

end Record

end Marginalia
