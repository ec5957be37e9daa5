import Marginalia.Model.Reply
import Marginalia.Record.Decoder

/-!
# The records of a reply

Reads the records of a reply one at a time.  Cancellation is looked at before
anything else, so no record is given once it has happened, not even one that is
already decoded.  A failure ends the feed like the end of the reply does.
-/

namespace Marginalia

namespace Record

structure Feed where
  events : List Model.Event
  decoder : Decoder := {}
  ready : List Record := []
  isFinished : Bool := false
  isCancelled : Bool := false
  deriving DecidableEq

namespace Feed

inductive Next where
  | record (record : Record) (feed : Feed)
  | over (feed : Feed)
  /-- Nothing can be said yet. -/
  | waiting (feed : Feed)

def finish (feed : Feed) : Feed :=
  { feed with isFinished := true, ready := [], decoder := feed.decoder.finish }

def cancel (feed : Feed) : Feed :=
  { feed with isCancelled := true }

/-- Reads events until a record is complete; there is none at hand. -/
def refill (decoder : Decoder) : List Model.Event → Next
  | [] => .over (finish { events := [], decoder })
  | .fragment text :: events =>
      match decoder.push text with
      | ([], decoder) => refill decoder events
      | (record :: ready, decoder) => .record record { events, decoder, ready }
  | .failure _ :: events => .over (finish { events, decoder })
  | .cancellation :: events => .over (finish (cancel { events, decoder }))
  | .pause :: events => .waiting { events, decoder }
  | .stall :: events => .waiting { events := .stall :: events, decoder }

def next (feed : Feed) : Next :=
  if feed.isCancelled then .over feed.finish
  else
    match feed.ready with
    | record :: ready => .record record { feed with ready }
    | [] => if feed.isFinished then .over feed else refill feed.decoder feed.events

/-- How much there is left to read: events first, then records at hand. -/
def size (feed : Feed) : Nat × Nat :=
  (feed.events.length, feed.ready.length)

theorem refill_record {decoder : Decoder} {events : List Model.Event} {record : Record}
    {feed : Feed} (h : refill decoder events = .record record feed) :
    feed.events.length < events.length := by
  induction events generalizing decoder with
  | nil => simp [refill] at h
  | cons event events ih =>
      cases event with
      | fragment text =>
          unfold refill at h
          split at h
          · exact Nat.lt_succ_of_lt (ih h)
          · cases h
            simp
      | _ => simp [refill] at h

theorem next_record_lt {feed feed' : Feed} {record : Record}
    (h : feed.next = .record record feed') :
    Prod.Lex (· < ·) (· < ·) feed'.size feed.size := by
  unfold next at h
  split at h
  · cases h
  · split at h
    · next hready =>
        cases h
        simp only [size, hready]
        exact Prod.Lex.right _ (by simp)
    · split at h
      · cases h
      · exact Prod.Lex.left _ _ (refill_record h)

/-- How a reading ended: the feed is over, or it waits. -/
inductive Ended where
  | over (feed : Feed)
  | waiting (feed : Feed)

/--
Reads records while there are any, taking each in by `take`, which may also cancel
the request.
-/
def fold {σ : Type} (take : σ → Record → σ × Bool) (acc : σ) (feed : Feed) : σ × Ended :=
  match _h : feed.next with
  | .over feed => (acc, .over feed)
  | .waiting feed => (acc, .waiting feed)
  | .record record feed' =>
      match take acc record with
      | (acc, cancels) =>
          fold take acc { feed' with isCancelled := feed'.isCancelled || cancels }
termination_by feed.size
decreasing_by
  show Prod.Lex _ _ feed'.size feed.size
  exact next_record_lt _h

section

variable {σ : Type} {take : σ → Record → σ × Bool} {acc : σ} {feed feed' : Feed}

theorem fold_of_over (h : feed.next = .over feed') : feed.fold take acc = (acc, .over feed') := by
  rw [fold]
  split
  · next hnext => cases h.symm.trans hnext; rfl
  · next hnext => cases h.symm.trans hnext
  · next hnext => cases h.symm.trans hnext

theorem fold_of_waiting (h : feed.next = .waiting feed') :
    feed.fold take acc = (acc, .waiting feed') := by
  rw [fold]
  split
  · next hnext => cases h.symm.trans hnext
  · next hnext => cases h.symm.trans hnext; rfl
  · next hnext => cases h.symm.trans hnext

theorem fold_of_record {record : Record} (h : feed.next = .record record feed') :
    feed.fold take acc =
      fold take (take acc record).1
        { feed' with isCancelled := feed'.isCancelled || (take acc record).2 } := by
  conv => lhs; rw [fold]
  split
  · next hnext => cases h.symm.trans hnext
  · next hnext => cases h.symm.trans hnext
  · next hnext => cases h.symm.trans hnext; rfl

/-- What is done to the result beforehand may as well be done at the end, if `take` allows it. -/
theorem fold_map (f : σ → σ)
    (htake : ∀ acc record, take (f acc) record = (f (take acc record).1, (take acc record).2))
    (acc : σ) (feed : Feed) :
    feed.fold take (f acc) = (f (feed.fold take acc).1, (feed.fold take acc).2) := by
  fun_induction fold take acc feed with
  | case1 acc feed feed' hnext => rw [fold_of_over hnext]
  | case2 acc feed feed' hnext => rw [fold_of_waiting hnext]
  | case3 acc feed record feed' hnext acc' cancels htaken ih =>
      rw [fold_of_record hnext, htake, htaken]
      exact ih

end

/--
All records that a reader gets who cancels the request right after the record with
the given number, if there is one.
-/
def collect (feed : Feed) (cancelAfter : Option Nat) : List Record × Ended :=
  let take (acc : List Record) (record : Record) : List Record × Bool :=
    (acc ++ [record], cancelAfter == some (acc.length + 1))
  fold take [] feed

end Feed

end Record

end Marginalia
