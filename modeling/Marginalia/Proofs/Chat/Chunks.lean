import Marginalia.Proofs.Chat.Boundary

/-!
# Bodies cut into chunks

What is heard of a body depends on its bytes only.  Taking in the events that are complete
and keeping the rest for the next chunk comes to the same as taking in the events of all
bytes at once, as long as no more is kept than may be.
-/

namespace Marginalia

namespace Chat

namespace EventStream

/-! ## Events and what is behind them -/

def Reading.add (r : Reading) (bytes : List UInt8) : Reading :=
  { r with buffer := r.buffer ++ bytes }

theorem Reading.add_nil (r : Reading) : r.add [] = r := by
  rw [add, List.append_nil]

theorem Reading.add_add (r : Reading) (bytes more : List UInt8) :
    (r.add bytes).add more = r.add (bytes ++ more) := by
  simp only [add, List.append_assoc]

def Step.keeping (buffer : List UInt8) : Step → Step
  | .goOn fragments r => .goOn fragments { r with buffer }
  | .stop failure => .stop failure

theorem takePayload_keeping (r : Reading) (buffer : List UInt8) (json : Json) :
    takePayload { r with buffer } json = (takePayload r json).keeping buffer := by
  unfold takePayload
  cases Payload.ofJson? json with
  | none => rfl
  | some payload =>
      dsimp only
      cases payload.error with
      | some message => rfl
      | none =>
          dsimp only
          cases payload.fragments with
          | nil =>
              dsimp only
              cases r.isFinished || payload.finishes with
              | true => rfl
              | false => rfl
          | cons fragment fragments => rfl

theorem takeData_keeping (r : Reading) (buffer : List UInt8) (data : List Char) :
    takeData { r with buffer } data = (takeData r data).keeping buffer := by
  unfold takeData
  split
  · rfl
  · cases Json.parseChars data with
    | ok json => exact takePayload_keeping { r with parseErrors := 0 } buffer json
    | error fault =>
        dsimp only
        split
        · rfl
        · rfl

/-- What an event leads to does not depend on the bytes behind it. -/
theorem takeEvent_keeping (r : Reading) (buffer event : List UInt8) :
    takeEvent { r with buffer } event = (takeEvent r event).keeping buffer := by
  unfold takeEvent
  split
  · rfl
  · cases Text.Utf8.decode? event with
    | none => rfl
    | some chars =>
        dsimp only
        cases data? chars with
        | none => rfl
        | some data => exact takeData_keeping r buffer data

theorem buffer_of_takeEvent {r r' : Reading} {event : List UInt8} {fragments : List String}
    (h : takeEvent r event = .goOn fragments r') : r'.buffer = r.buffer := by
  have hkeeping := takeEvent_keeping r r.buffer event
  rw [h] at hkeeping
  injection hkeeping with _ hr
  rw [hr]

/-! ## One thing after another -/

def Progress.andThen (next : Reading → Progress) : Progress → Progress
  | .reading fragments r => (next r).after fragments
  | .stopped fragments failure => .stopped fragments failure

theorem Progress.after_nil (p : Progress) : p.after [] = p := by
  cases p with
  | reading fragments r => rfl
  | stopped fragments failure => rfl

theorem Progress.after_after (fragments more : List String) (p : Progress) :
    (p.after more).after fragments = p.after (fragments ++ more) := by
  cases p with
  | reading later r => simp only [after, List.append_assoc]
  | stopped later failure => simp only [after, List.append_assoc]

theorem Progress.andThen_after (next : Reading → Progress) (fragments : List String)
    (p : Progress) : (p.after fragments).andThen next = (p.andThen next).after fragments := by
  cases p with
  | reading more r => exact (after_after fragments more (next r)).symm
  | stopped more failure => rfl

theorem takeChunks_cons (r : Reading) (chunk : List UInt8) (chunks : List (List UInt8)) :
    takeChunks r (chunk :: chunks) = (takeChunk r chunk).andThen (takeChunks · chunks) := by
  rw [takeChunks]
  cases takeChunk r chunk with
  | reading fragments r => rfl
  | stopped fragments failure => rfl

/-! ## All events of the bytes at hand -/

def Reading.advance (r : Reading) : Progress :=
  takeEvents r.buffer.length r

theorem takeEvents_congr {fuel fuel' : Nat} {r : Reading} (h : r.buffer.length ≤ fuel)
    (h' : r.buffer.length ≤ fuel') : takeEvents fuel r = takeEvents fuel' r := by
  induction fuel generalizing fuel' r with
  | zero =>
      have hbuffer : r.buffer = [] := List.eq_nil_of_length_eq_zero (Nat.le_zero.mp h)
      cases fuel' with
      | zero => rfl
      | succ fuel' =>
          rw [takeEvents, takeEvents, hbuffer]
          rfl
  | succ fuel ih =>
      cases fuel' with
      | zero =>
          have hbuffer : r.buffer = [] := List.eq_nil_of_length_eq_zero (Nat.le_zero.mp h')
          rw [takeEvents, takeEvents, hbuffer]
          rfl
      | succ fuel' =>
          rw [takeEvents, takeEvents]
          cases hsplit : splitEvent? r.buffer with
          | none => rfl
          | some found =>
              have hlength := length_of_splitEvent? hsplit
              dsimp only
              cases htaken : takeEvent { r with buffer := found.2 } found.1 with
              | stop failure => rfl
              | goOn fragments r' =>
                  have hbuffer : r'.buffer = found.2 := buffer_of_takeEvent htaken
                  have hrest : takeEvents fuel r' = takeEvents fuel' r' :=
                    ih (by rw [hbuffer]; omega) (by rw [hbuffer]; omega)
                  dsimp only
                  rw [hrest]

theorem Reading.advance_of_none {r : Reading} (h : splitEvent? r.buffer = none) :
    r.advance = .reading [] r := by
  rw [advance]
  cases r.buffer.length with
  | zero => rfl
  | succ fuel => rw [takeEvents, h]

/-- The first event comes before those of the bytes behind it. -/
theorem Reading.advance_of_some {r : Reading} {event rest : List UInt8}
    (h : splitEvent? r.buffer = some (event, rest)) :
    r.advance =
      match takeEvent { r with buffer := rest } event with
      | .stop failure => .stopped [] failure
      | .goOn fragments r' => r'.advance.after fragments := by
  have hlength := length_of_splitEvent? h
  obtain ⟨fuel, hfuel⟩ := Nat.exists_eq_add_one_of_ne_zero (Nat.ne_zero_of_lt hlength)
  rw [advance, hfuel, takeEvents, h]
  dsimp only
  cases htaken : takeEvent { r with buffer := rest } event with
  | stop failure => rfl
  | goOn fragments r' =>
      have hbuffer : r'.buffer = rest := buffer_of_takeEvent htaken
      dsimp only
      rw [advance, takeEvents_congr (by rw [hbuffer]; omega) (Nat.le_refl _)]

/-- What is kept of the bytes at hand holds no whole event, and is no longer than they are. -/
theorem Reading.kept_of_advance {r r' : Reading} {fragments : List String}
    (h : r.advance = .reading fragments r') :
    splitEvent? r'.buffer = none ∧ r'.buffer.length ≤ r.buffer.length := by
  induction hlength : r.buffer.length using Nat.strongRecOn generalizing r fragments with
  | ind n ih =>
      cases hsplit : splitEvent? r.buffer with
      | none =>
          rw [advance_of_none hsplit] at h
          cases h
          exact ⟨hsplit, Nat.le_of_eq hlength⟩
      | some found =>
          have hlt := length_of_splitEvent? hsplit
          rw [advance_of_some hsplit] at h
          cases htaken : takeEvent { r with buffer := found.2 } found.1 with
          | stop failure =>
              rw [htaken] at h
              cases h
          | goOn more next =>
              have hbuffer : next.buffer = found.2 := buffer_of_takeEvent htaken
              rw [htaken] at h
              dsimp only at h
              cases hnext : next.advance with
              | stopped later failure =>
                  rw [hnext] at h
                  cases h
              | reading later last =>
                  rw [hnext] at h
                  cases h
                  have hkept := ih next.buffer.length (by rw [hbuffer]; omega) hnext rfl
                  exact ⟨hkept.1, by have := hkept.2; rw [hbuffer] at this; omega⟩

/-- Bytes that come later are read after the events that are complete without them. -/
theorem Reading.advance_add (r : Reading) (more : List UInt8) :
    (r.add more).advance = r.advance.andThen fun r' => (r'.add more).advance := by
  induction hlength : r.buffer.length using Nat.strongRecOn generalizing r with
  | ind n ih =>
      cases hsplit : splitEvent? r.buffer with
      | none =>
          rw [advance_of_none hsplit]
          exact (Progress.after_nil _).symm
      | some found =>
          have hlt := length_of_splitEvent? hsplit
          have hmore : splitEvent? (r.add more).buffer = some (found.1, found.2 ++ more) :=
            splitEvent?_append hsplit more
          have htake : takeEvent { r.add more with buffer := found.2 ++ more } found.1 =
              (takeEvent { r with buffer := found.2 } found.1).keeping (found.2 ++ more) :=
            takeEvent_keeping { r with buffer := found.2 } (found.2 ++ more) found.1
          rw [advance_of_some hsplit, advance_of_some hmore, htake]
          cases htaken : takeEvent { r with buffer := found.2 } found.1 with
          | stop failure => rfl
          | goOn fragments next =>
              have hbuffer : next.buffer = found.2 := buffer_of_takeEvent htaken
              have hnext : ({ next with buffer := found.2 ++ more } : Reading) = next.add more := by
                rw [add, hbuffer]
              have hrest := ih next.buffer.length (by rw [hbuffer]; omega) next rfl
              simp only [Step.keeping, hnext, hrest, Progress.andThen_after]

/-! ## Bodies -/

theorem takeChunk_eq_advance {r : Reading} {chunk : List UInt8}
    (h : r.buffer.length + chunk.length ≤ maxBufferBytes) :
    takeChunk r chunk = (r.add chunk).advance := by
  rw [← List.length_append] at h
  rw [takeChunk, if_neg (Nat.not_lt_of_le h)]
  rfl

/-- Reading chunk by chunk is reading all bytes at once. -/
theorem takeChunks_eq_advance {r : Reading} {chunks : List (List UInt8)}
    (hkept : splitEvent? r.buffer = none)
    (hsize : r.buffer.length + chunks.flatten.length ≤ maxBufferBytes) :
    takeChunks r chunks = (r.add chunks.flatten).advance := by
  induction chunks generalizing r with
  | nil => rw [takeChunks, List.flatten_nil, Reading.add_nil, Reading.advance_of_none hkept]
  | cons chunk chunks ih =>
      rw [List.flatten_cons, List.length_append] at hsize
      rw [takeChunks_cons, takeChunk_eq_advance (by omega), List.flatten_cons, ← Reading.add_add,
        (r.add chunk).advance_add]
      cases hadvance : (r.add chunk).advance with
      | stopped fragments failure => rfl
      | reading fragments next =>
          obtain ⟨hnone, hle⟩ := Reading.kept_of_advance hadvance
          have hlength : (r.add chunk).buffer.length = r.buffer.length + chunk.length :=
            List.length_append
          exact congrArg (Progress.after fragments) (ih hnone (by omega))

/--
Two ways of cutting a body that is not too long make no difference to a reader.  The first
boundary found in part of a body, in either way of writing it, is the first one of the body.
-/
theorem read_of_flatten_eq {chunks chunks' : List (List UInt8)} (ending : Ending)
    (hbody : chunks.flatten = chunks'.flatten)
    (hsize : chunks.flatten.length ≤ maxBufferBytes) :
    read chunks ending = read chunks' ending ∧
      ∀ part more event rest, chunks.flatten = part ++ more →
        splitEvent? part = some (event, rest) →
          splitEvent? chunks.flatten = some (event, rest ++ more) ∧
            (∃ boundary, IsBoundary boundary ∧
              chunks.flatten = event ++ boundary ++ (rest ++ more)) ∧
            ∀ n < event.length, ∀ boundary, IsBoundary boundary →
              ¬ boundary <+: chunks.flatten.drop n := by
  constructor
  · have hchunks : takeChunks {} chunks = (Reading.add {} chunks.flatten).advance :=
      takeChunks_eq_advance rfl (by simpa using hsize)
    have hchunks' : takeChunks {} chunks' = (Reading.add {} chunks'.flatten).advance :=
      takeChunks_eq_advance rfl (by simpa [← hbody] using hsize)
    rw [read, read, hchunks, hchunks', hbody]
  · intro part more event rest hpart hsplit
    have hfound : splitEvent? chunks.flatten = some (event, rest ++ more) := by
      rw [hpart]
      exact splitEvent?_append hsplit more
    obtain ⟨hboundary, hnone⟩ := splitEvent?_eq_some_iff.mp hfound
    refine ⟨hfound, hboundary, fun n hn boundary hearlier hfront => ?_⟩
    obtain ⟨after, hafter⟩ := hfront
    have hsome := afterBoundary?_eq_some_iff.mpr ⟨boundary, hearlier, hafter.symm⟩
    rw [hnone n hn] at hsome
    cases hsome

/-- A body with a character of two bytes, cut inside it and inside the boundary behind it. -/
def cutEvent : List (List UInt8) :=
  [Text.Utf8.encode "data:\x7b\"choices\":[\x7b\"delta\":\x7b\"content\":\"" ++ [0xC3],
    [0xA9] ++ Text.Utf8.encode "\"\x7d\x7d]\x7d\r\n\r", Text.Utf8.encode "\ndata: [DONE]\n\n"]

theorem read_cutEvent :
    cutEvent.flatten = [cutEvent.flatten].flatten ∧ cutEvent.flatten.length ≤ maxBufferBytes ∧
      read cutEvent .closed = read [cutEvent.flatten] .closed ∧
        read cutEvent .closed = { fragments := ["é"], failure := none } := by
  have hbody : cutEvent.flatten = [cutEvent.flatten].flatten := by simp
  have hsize : cutEvent.flatten.length ≤ maxBufferBytes := by decide +kernel
  exact ⟨hbody, hsize, (read_of_flatten_eq .closed hbody hsize).1, by decide +kernel⟩

end EventStream

end Chat

end Marginalia
