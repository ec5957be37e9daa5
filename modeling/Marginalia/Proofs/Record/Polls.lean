import Marginalia.Proofs.Record.Remaining

/-!
# Readings that are cancelled

A reader polls a reply for one record after the other, and the request may be cancelled at any
time.  The records that come are the first ones of those of the fragments in front of the
first failure, and they are all of them when the request is not cancelled.
-/

namespace Marginalia

namespace Record

namespace Feed

/-! ## Feeds that are over -/

def IsOver (feed : Feed) : Prop :=
  feed.isCancelled = true ∨ (feed.ready = [] ∧ feed.isFinished = true)

section

variable {decoder : Decoder} {events : List Model.Event} {feed feed' : Feed}

theorem IsOver.exists_next (h : feed.IsOver) : ∃ final, feed.next = .over final := by
  rcases h with hcancelled | ⟨hready, hfinished⟩
  · exact ⟨feed.finish, next_of_isCancelled hcancelled⟩
  · cases hcancelled : feed.isCancelled with
    | true => exact ⟨feed.finish, next_of_isCancelled hcancelled⟩
    | false => exact ⟨feed, by simp [next, hcancelled, hready, hfinished]⟩

theorem isOver_of_refill_over (h : refill decoder events = .over feed) : feed.IsOver := by
  induction events generalizing decoder with
  | nil =>
      cases h
      exact .inr ⟨rfl, rfl⟩
  | cons event events ih =>
      cases event with
      | fragment text =>
          rw [refill] at h
          split at h
          · exact ih h
          · cases h
      | failure _ =>
          cases h
          exact .inr ⟨rfl, rfl⟩
      | cancellation =>
          cases h
          exact .inl rfl
      | _ => cases h

/-- The end of a feed is the end for good. -/
theorem isOver_of_next_over (h : feed.next = .over feed') : feed'.IsOver := by
  unfold next at h
  split at h
  · cases h
    exact .inr ⟨rfl, rfl⟩
  · split at h
    · cases h
    · next hready =>
        split at h
        · next hfinished =>
            cases h
            exact .inr ⟨hready, hfinished⟩
        · exact isOver_of_refill_over h

/-- A reader waits at a pause or at a stall only. -/
theorem pause_mem_of_refill_waiting (h : refill decoder events = .waiting feed) :
    .pause ∈ events ∨ feed.IsStuck := by
  induction events generalizing decoder with
  | nil => cases h
  | cons event events ih =>
      cases event with
      | fragment text =>
          rw [refill] at h
          split at h
          · exact (ih h).imp_left (List.mem_cons_of_mem _)
          · cases h
      | pause => exact .inl List.mem_cons_self
      | stall =>
          cases h
          exact .inr ⟨rfl, rfl, rfl, events, rfl⟩
      | _ => cases h

theorem pause_mem_of_next_waiting (h : feed.next = .waiting feed') :
    .pause ∈ feed.events ∨ feed'.IsStuck := by
  unfold next at h
  split at h
  · cases h
  · split at h
    · cases h
    · split at h
      · cases h
      · exact pause_mem_of_refill_waiting h

end

/-! ## Polls in a row -/

/--
A feed is polled, some records come one after the other, and it has become another feed.
The request may be cancelled before any of the polls, and after the last one.
-/
inductive Polled : Feed → List Record → Feed → Prop where
  | start (feed : Feed) : Polled feed [] feed
  | record {feed feed' last : Feed} {record : Record} {records : List Record}
      (hnext : feed.next = .record record feed') (later : Polled feed' records last) :
      Polled feed (record :: records) last
  | waiting {feed feed' last : Feed} {records : List Record}
      (hnext : feed.next = .waiting feed') (later : Polled feed' records last) :
      Polled feed records last
  | cancelled {feed last : Feed} {records : List Record} (later : Polled feed.cancel records last) :
      Polled feed records last

namespace Polled

variable {feed last : Feed} {records : List Record}

theorem eq_nil_of_isOver (h : feed.Polled records last) (hover : feed.IsOver) : records = [] := by
  induction h with
  | start feed => rfl
  | record hnext _ _ =>
      obtain ⟨final, hfinal⟩ := hover.exists_next
      cases hnext.symm.trans hfinal
  | waiting hnext _ _ =>
      obtain ⟨final, hfinal⟩ := hover.exists_next
      cases hnext.symm.trans hfinal
  | cancelled _ ih => exact ih (.inl rfl)

theorem exists_passed (h : feed.Polled records last) : ∃ used, feed.Passed used records last := by
  induction h with
  | start feed => exact ⟨[], .refl feed⟩
  | record hnext _ ih =>
      obtain ⟨⟨used, hfirst⟩, -⟩ := passed_of_next_record hnext
      obtain ⟨used', hlater⟩ := ih
      exact ⟨_, hfirst.trans hlater⟩
  | waiting hnext _ ih =>
      obtain ⟨⟨used, hfirst⟩, -⟩ := passed_of_next_waiting hnext
      obtain ⟨used', hlater⟩ := ih
      exact ⟨_, hfirst.trans hlater⟩
  | cancelled _ ih =>
      obtain ⟨used, h⟩ := ih
      exact ⟨used, h.events, h.isPassed, h.ready, h.decoder, h.isFinished, h.idle⟩

end Polled

/-! ## What the readers do -/

theorem exists_polled {σ : Type} (take : σ → Record → σ × Bool) (acc : σ) (feed : Feed) :
    ∃ records last, feed.Polled records last ∧ last.next = (feed.fold take acc).2.next ∧
      (feed.fold take acc).1 = records.foldl (fun acc record => (take acc record).1) acc := by
  fun_induction fold take acc feed with
  | case1 acc feed feed' hnext => exact ⟨[], feed, .start feed, hnext, rfl⟩
  | case2 acc feed feed' hnext => exact ⟨[], feed, .start feed, hnext, rfl⟩
  | case3 acc feed record feed' hnext acc' cancels htake ih =>
      obtain ⟨records, last, hpolled, hlast, hfold⟩ := ih
      refine ⟨record :: records, last, .record hnext ?_, hlast, ?_⟩
      · cases cancels with
        | true =>
            rw [Bool.or_true] at hpolled
            exact .cancelled hpolled
        | false =>
            rw [Bool.or_false] at hpolled
            exact hpolled
      · rw [hfold, List.foldl_cons, htake]

theorem foldl_concat (acc records : List Record) :
    records.foldl (fun acc record => acc ++ [record]) acc = acc ++ records := by
  rw [List.foldl_append_eq_append, ← List.flatMap_def, List.flatMap_singleton']

/-- Takes in one record more, and cancels the request behind the one with the given number. -/
def collecting (cancelAfter : Option Nat) (acc : List Record) (record : Record) :
    List Record × Bool :=
  (acc ++ [record], cancelAfter == some (acc.length + 1))

theorem collect_eq (feed : Feed) (cancelAfter : Option Nat) :
    feed.collect cancelAfter = feed.fold (collecting cancelAfter) [] := rfl

theorem exists_polled_collect (feed : Feed) (cancelAfter : Option Nat) :
    ∃ last, feed.Polled (feed.collect cancelAfter).1 last ∧
      last.next = (feed.collect cancelAfter).2.next := by
  obtain ⟨records, last, hpolled, hlast, hfold⟩ :=
    exists_polled (collecting cancelAfter) [] feed
  simp only [collecting, foldl_concat, List.nil_append] at hfold
  rw [collect_eq, hfold]
  exact ⟨last, hpolled, hlast⟩

/-- Either there is room for one record more, or the request is cancelled and none comes. -/
theorem length_fold_collecting_le {count : Nat} {acc : List Record} {feed : Feed}
    (h : acc.length ≤ count ∨ (feed.isCancelled = true ∧ acc.length ≤ count + 1)) :
    (feed.fold (collecting (some (count + 1))) acc).1.length ≤ count + 1 := by
  fun_induction fold (collecting (some (count + 1))) acc feed with
  | case1 acc feed feed' hnext =>
      dsimp only
      omega
  | case2 acc feed feed' hnext =>
      dsimp only
      omega
  | case3 acc feed record feed' hnext acc' cancels htake ih =>
      obtain ⟨-, hbefore, -⟩ := passed_of_next_record hnext
      rw [hbefore] at h
      have hroom : acc.length ≤ count := h.resolve_right fun hlast => by cases hlast.1
      cases htake
      refine ih ?_
      rw [List.length_append, List.length_singleton]
      by_cases hlast : acc.length = count
      · simp [hlast]
      · exact .inl (by omega)

/-- No more records are collected than those up to the one behind which the request is cancelled. -/
theorem length_collect_le (feed : Feed) (count : Nat) :
    (feed.collect (some (count + 1))).1.length ≤ count + 1 :=
  length_fold_collecting_le (.inl (Nat.zero_le _))

theorem exists_polled_remaining {feed : Feed} (hfires : feed.fires = false)
    (hstalls : feed.stalls = false) :
    ∃ last final, feed.Polled feed.remaining last ∧ last.next = .over final ∧
      final.isCancelled = false := by
  match hnext : feed.next with
  | .over final =>
      have hends := ends_of_next_over hnext
      rw [hends.remaining hfires]
      exact ⟨feed, final, .start feed, hnext, hends.fires.trans hfires⟩
  | .record record feed' =>
      have hcontinues := continues_of_next_record hnext
      obtain ⟨last, final, hpolled, hlast⟩ := exists_polled_remaining
        (hcontinues.fires.trans hfires) (hcontinues.stalls.trans hstalls)
      rw [hcontinues.remaining]
      exact ⟨last, final, .record hnext hpolled, hlast⟩
  | .waiting feed' =>
      obtain ⟨hcontinues, hshorter⟩ := continues_of_next_waiting hnext
      have hquiet := hcontinues.stalls.trans hstalls
      have hlt : feed'.events.length < feed.events.length := by
        refine hshorter.resolve_right fun hstuck => ?_
        rw [hstuck.stalls] at hquiet
        cases hquiet
      obtain ⟨last, final, hpolled, hlast⟩ :=
        exists_polled_remaining (hcontinues.fires.trans hfires) hquiet
      rw [hcontinues.remaining]
      exact ⟨last, final, .waiting hnext hpolled, hlast⟩
termination_by feed.size
decreasing_by
  · exact next_record_lt hnext
  · exact Prod.Lex.left _ _ hlt

/-- Without a pause or a cancellation, all records are collected in one go. -/
theorem collect_none {feed : Feed} (hfires : feed.fires = false) (hstalls : feed.stalls = false)
    (hpause : .pause ∉ feed.events) :
    ∃ final, feed.collect none = (feed.remaining, .over final) := by
  obtain ⟨read, last, ended, hread, hfold⟩ :=
    exists_readOn (fun acc record => acc ++ [record]) [] feed
  rw [foldl_concat, List.nil_append] at hfold
  have hcollect : feed.collect none = (read, ended) := hfold
  match ended with
  | .over final =>
      obtain ⟨-, hall⟩ := hread.atEnd
      rw [hcollect, hread.remaining, (hall hfires).1, List.append_nil]
      exact ⟨final, rfl⟩
  | .waiting feed' =>
      obtain ⟨used, hpassed⟩ := hread.passed
      rcases pause_mem_of_next_waiting hread.next with hmem | hstuck
      · rw [hpassed.events] at hpause
        exact absurd (List.mem_append_right used hmem) hpause
      · have hquiet := hread.waiting.2.2.1.stalls.trans hstalls
        rw [hstuck.stalls] at hquiet
        cases hquiet

/-! ## Readings of a reply -/

/-- What is true of the records that a reader got of a reply, and of what its feed has become. -/
structure Yields (events : List Model.Event) (records : List Record) (last : Feed) : Prop where
  isPrefix : records <+: ofEvents events
  complete : ∀ final, last.next = .over final → final.isCancelled = false →
    records = ofEvents events
  atEnd : ∀ final, last.next = .over final → ∀ more later, final.Polled more later → more = []
  cancelled : last.isCancelled = true → ∀ more later, last.Polled more later → more = []
  /-- Neither a failure nor a cancellation is read past, and no record comes from behind it. -/
  stopped : ∀ before event after, events = before ++ event :: after → event.isPassed = false →
    records <+: ofEvents before ∧ event :: after <:+ last.events

theorem ofEvents_append {used : List Model.Event} (h : ∀ event ∈ used, event.isPassed = true)
    (more : List Model.Event) : ofEvents used <+: ofEvents (used ++ more) := by
  refine Decoder.pushAll_prefix ?_
  rw [Model.heard_append h]
  exact List.prefix_append _ _

theorem Polled.yields {events : List Model.Event} {isCancelled : Bool} {records : List Record}
    {last : Feed} (h : Polled { events, isCancelled } records last) :
    Yields events records last := by
  obtain ⟨used, hpassed⟩ := h.exists_passed
  have hevents : events = used ++ last.events := hpassed.events
  have hrecords : ofEvents used = records ++ last.ready := hpassed.ready
  have hgiven : records <+: ofEvents used := hrecords ▸ List.prefix_append _ _
  have hremaining : ofEvents events = records ++ last.remaining := hpassed.remaining
  refine ⟨?_, ?_, ?_, ?_, ?_⟩
  · rw [hremaining]
    exact List.prefix_append _ _
  · intro final hover hquiet
    have hends := ends_of_next_over hover
    rw [hremaining, hends.remaining (hends.fires.symm.trans hquiet), List.append_nil]
  · intro final hover more later hmore
    exact hmore.eq_nil_of_isOver (isOver_of_next_over hover)
  · intro hcancelled more later hmore
    exact hmore.eq_nil_of_isOver (.inl hcancelled)
  · intro before event after hsplit hstop
    rw [hevents] at hsplit
    rcases List.append_eq_append_iff.mp hsplit with
      ⟨between, hbefore, hlast⟩ | ⟨between, hused, hafter⟩
    · rw [hbefore, hlast]
      exact ⟨hgiven.trans (ofEvents_append hpassed.isPassed between), List.suffix_append _ _⟩
    · -- the event is not one of those that were read past, so these end in front of it
      cases between with
      | nil =>
          rw [hused, List.append_nil] at hgiven
          rw [hafter]
          exact ⟨hgiven, List.suffix_refl _⟩
      | cons first between =>
          cases hafter
          have hmem : event ∈ used := hused ▸ List.mem_append_right before List.mem_cons_self
          rw [hpassed.isPassed event hmem] at hstop
          cases hstop

/--
Whatever becomes of the request while a reply is read, the records that come are the first of
those of the fragments in front of the first failure; none comes once the request is cancelled
or the end was found, and nothing behind a failure is read.  If the request is not cancelled
and the reply does not stall, all records come and the end is found.
-/
theorem yields_prefix (events : List Model.Event) (isCancelled : Bool) :
    let feed : Feed := { events, isCancelled }
    (∀ records last, feed.Polled records last → Yields events records last) ∧
    (∀ cancelAfter, ∃ last, feed.Polled (feed.collect cancelAfter).1 last ∧
      last.next = (feed.collect cancelAfter).2.next) ∧
    (∀ count, (feed.collect (some (count + 1))).1.length ≤ count + 1) ∧
    (feed.fires = false → feed.stalls = false →
      (∃ last final, feed.Polled (ofEvents events) last ∧ last.next = .over final ∧
        final.isCancelled = false) ∧
      (.pause ∉ events → ∃ final, feed.collect none = (ofEvents events, .over final))) := by
  intro feed
  refine ⟨fun records last hpolled => hpolled.yields, feed.exists_polled_collect,
    feed.length_collect_le, fun hfires hstalls => ⟨?_, fun hpause => ?_⟩⟩
  · exact exists_polled_remaining hfires hstalls
  · exact collect_none hfires hstalls hpause

/-- Two records in one fragment, and a third one behind a failure. -/
def lostReply : List Model.Event :=
  [.fragment "\x7b\"line\":1,\"suggestion\":\"a\"\x7d\x7b\"line\":2,\"suggestion\":\"b\"\x7d \x7b",
    .failure (.stream "lost"), .fragment "\"line\":3,\"suggestion\":\"c\"\x7d"]

theorem yields_lostReply :
    let feed : Feed := { events := lostReply }
    feed.fires = false ∧ feed.stalls = false ∧ .pause ∉ lostReply ∧
      (∃ records final, feed.collect none = (records, .over final) ∧
        records.map (·.line) = [1, 2]) ∧
      (feed.collect (some 1)).1.length ≤ 1 ∧
        ∃ last, Yields lostReply (feed.collect (some 1)).1 last := by
  intro feed
  have hfires : feed.fires = false := by decide
  have hstalls : feed.stalls = false := by decide
  have hpause : .pause ∉ lostReply := by decide
  have hlines : (ofEvents lostReply).map (·.line) = [1, 2] := by decide +kernel
  obtain ⟨hyields, hpolls, hfew, hundisturbed⟩ := yields_prefix lostReply false
  obtain ⟨final, hall⟩ := (hundisturbed hfires hstalls).2 hpause
  obtain ⟨last, hpolled, hlast⟩ := hpolls (some 1)
  exact ⟨hfires, hstalls, hpause, ⟨_, final, hall, hlines⟩, hfew 0, last, hyields _ _ hpolled⟩

end Feed

end Record

end Marginalia
