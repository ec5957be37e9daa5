import Mathlib.Data.List.Induction
import Marginalia.Proofs.Chat.Chunks

/-!
# How a stream ends

Each event of a body says something on its own; what it leads to depends on what was said
before it in two ways only.  A payload that is no JSON fails when it is the third since the
last one that was JSON, and a payload without text ends the stream when a reason to finish
has been given.
-/

namespace Marginalia

namespace Chat

namespace EventStream

/-! ## Events and what they say -/

def eventsOf (body : List UInt8) : List (List UInt8) :=
  match _h : splitEvent? body with
  | none => []
  | some (event, rest) => event :: eventsOf rest
termination_by body.length
decreasing_by exact length_of_splitEvent? _h

theorem eventsOf_of_none {body : List UInt8} (h : splitEvent? body = none) :
    eventsOf body = [] := by
  rw [eventsOf]
  split
  · rfl
  · simp_all

theorem eventsOf_of_some {body event rest : List UInt8}
    (h : splitEvent? body = some (event, rest)) :
    eventsOf body = event :: eventsOf rest := by
  rw [eventsOf]
  split
  · simp_all
  · simp_all

inductive Meaning where
  | nothing
  | malformed
  | done
  | noJson (detail : String)
  /-- JSON of a shape that is not a reply's. -/
  | foreign
  | error (message : String)
  | chunk (fragments : List String) (finishes : Bool)

def meaningOfJson (json : Json) : Meaning :=
  match Payload.ofJson? json with
  | none => .foreign
  | some payload =>
      match payload.error with
      | some message => .error message
      | none => .chunk payload.fragments payload.finishes

def meaningOfData (data : List Char) : Meaning :=
  if data = endMark then .done
  else
    match Json.parseChars data with
    | .ok json => meaningOfJson json
    | .error fault => .noJson (fault.message data)

def meaning (event : List UInt8) : Meaning :=
  if event.isEmpty then .nothing
  else
    match Text.Utf8.decode? event with
    | none => .malformed
    | some chars =>
        match data? chars with
        | none => .nothing
        | some data => meaningOfData data

def meanings (body : List UInt8) : List Meaning :=
  (eventsOf body).map meaning

namespace Meaning

def isJson : Meaning → Bool
  | foreign | error _ | chunk _ _ => true
  | _ => false

def isNoJson : Meaning → Bool
  | noJson _ => true
  | _ => false

def finishes : Meaning → Bool
  | chunk _ finishes => finishes
  | _ => false

def fragments : Meaning → List String
  | chunk fragments _ => fragments
  | _ => []

end Meaning

/-- The payloads that are no JSON behind the last one that is. -/
def misses (said : List Meaning) : Nat :=
  (said.reverse.takeWhile fun m => !m.isJson).countP Meaning.isNoJson

theorem misses_append (said : List Meaning) (m : Meaning) :
    misses (said ++ [m]) =
      if m.isJson then 0 else if m.isNoJson then misses said + 1 else misses said := by
  rw [misses, List.reverse_concat, List.takeWhile_cons]
  cases hjson : m.isJson with
  | true => rfl
  | false =>
      cases hnone : m.isNoJson with
      | true => simp [misses, hnone]
      | false => simp [misses, hnone]

def Fails (said : List Meaning) : Meaning → Prop
  | .malformed => True
  | .error _ => True
  | .noJson _ => misses said + 1 ≥ maxParseErrors
  | _ => False

def Completes (said : List Meaning) : Meaning → Prop
  | .done => True
  | .chunk [] finishes => finishes = true ∨ ∃ m ∈ said, m.finishes = true
  | _ => False

def Sound (said : List Meaning) : Prop :=
  ∀ before m after, said = before ++ m :: after → ¬ Fails before m

theorem not_fails_of_completes {said : List Meaning} {m : Meaning} (h : Completes said m) :
    ¬ Fails said m := by
  cases m with
  | done => exact id
  | chunk fragments finishes => exact id
  | nothing => exact h.elim
  | malformed => exact h.elim
  | noJson detail => exact h.elim
  | foreign => exact h.elim
  | error message => exact h.elim

/-! ## One event -/

def Reading.hear (r : Reading) : Meaning → Step
  | .nothing => .goOn [] r
  | .malformed => failed "Received invalid UTF-8 from SSE stream"
  | .done => .stop none
  | .noJson detail =>
      if r.parseErrors + 1 ≥ maxParseErrors then failed ("Invalid stream payload: " ++ detail)
      else .goOn [] { r with parseErrors := r.parseErrors + 1 }
  | .foreign => .goOn [] { r with parseErrors := 0 }
  | .error message => failed message
  | .chunk [] finishes =>
      if r.isFinished || finishes then .stop none
      else .goOn [] { r with parseErrors := 0 }
  | .chunk fragments finishes =>
      .goOn fragments { r with parseErrors := 0, isFinished := r.isFinished || finishes }

theorem takePayload_eq_hear (r : Reading) (json : Json) :
    takePayload { r with parseErrors := 0 } json = r.hear (meaningOfJson json) := by
  unfold takePayload meaningOfJson
  cases Payload.ofJson? json with
  | none => rfl
  | some payload =>
      dsimp only
      cases payload.error with
      | some message => rfl
      | none =>
          dsimp only
          cases payload.fragments with
          | cons fragment fragments => rfl
          | nil =>
              simp only [Reading.hear]
              cases hfinished : r.isFinished || payload.finishes with
              | true => rfl
              | false =>
                  rw [Bool.or_eq_false_iff] at hfinished
                  simp [hfinished.1]

theorem takeEvent_eq_hear (r : Reading) (event : List UInt8) :
    takeEvent r event = r.hear (meaning event) := by
  unfold takeEvent meaning
  split
  · rfl
  · cases Text.Utf8.decode? event with
    | none => rfl
    | some chars =>
        dsimp only
        cases data? chars with
        | none => rfl
        | some data =>
            dsimp only
            unfold takeData meaningOfData
            split
            · rfl
            · cases Json.parseChars data with
              | ok json => exact takePayload_eq_hear r json
              | error fault => rfl

structure Reading.Heard (r : Reading) (said : List Meaning) : Prop where
  parseErrors : r.parseErrors = misses said
  isFinished : r.isFinished = said.any Meaning.finishes

theorem Reading.Heard.start (body : List UInt8) : Heard { buffer := body } [] :=
  ⟨rfl, rfl⟩

namespace Reading.Heard

variable {r : Reading} {said : List Meaning} {m : Meaning}

theorem hear_of_completes (h : r.Heard said) (hm : Completes said m) :
    r.hear m = .stop none := by
  cases m with
  | done => rfl
  | nothing => exact hm.elim
  | malformed => exact hm.elim
  | noJson detail => exact hm.elim
  | foreign => exact hm.elim
  | error message => exact hm.elim
  | chunk fragments finishes =>
      cases fragments with
      | cons fragment fragments => exact hm.elim
      | nil =>
          have hfinished : (r.isFinished || finishes) = true := by
            rw [h.isFinished, Bool.or_eq_true, List.any_eq_true]
            exact hm.symm
          rw [hear, if_pos hfinished]

theorem hear_of_fails (h : r.Heard said) (hm : Fails said m) :
    ∃ failure, r.hear m = .stop (some failure) := by
  cases m with
  | malformed => exact ⟨_, rfl⟩
  | error message => exact ⟨_, rfl⟩
  | noJson detail =>
      rw [Fails, ← h.parseErrors] at hm
      exact ⟨_, by rw [hear, if_pos hm, failed]⟩
  | nothing => exact hm.elim
  | done => exact hm.elim
  | foreign => exact hm.elim
  | chunk fragments finishes => exact hm.elim

theorem hear_of_neither (h : r.Heard said) (hfails : ¬ Fails said m)
    (hcompletes : ¬ Completes said m) :
    ∃ r', r.hear m = .goOn m.fragments r' ∧ r'.Heard (said ++ [m]) ∧ r'.buffer = r.buffer := by
  have hmisses := misses_append said m
  have hany : (said ++ [m]).any Meaning.finishes = (r.isFinished || m.finishes) := by
    simp [h.isFinished]
  cases m with
  | nothing =>
      refine ⟨r, rfl, ⟨?_, ?_⟩, rfl⟩
      · simpa [hmisses, Meaning.isJson, Meaning.isNoJson] using h.parseErrors
      · simp [hany, Meaning.finishes]
  | malformed => exact absurd trivial hfails
  | done => exact absurd trivial hcompletes
  | error message => exact absurd trivial hfails
  | noJson detail =>
      rw [Fails, ← h.parseErrors] at hfails
      refine ⟨{ r with parseErrors := r.parseErrors + 1 }, ?_, ⟨?_, ?_⟩, rfl⟩
      · rw [hear, if_neg hfails]
        rfl
      · simp [hmisses, Meaning.isJson, Meaning.isNoJson, h.parseErrors]
      · simp [hany, Meaning.finishes]
  | foreign =>
      refine ⟨{ r with parseErrors := 0 }, rfl, ⟨?_, ?_⟩, rfl⟩
      · simp [hmisses, Meaning.isJson]
      · simp [hany, Meaning.finishes]
  | chunk fragments finishes =>
      cases fragments with
      | nil =>
          have hfinished : ¬ (r.isFinished || finishes) = true := by
            rw [h.isFinished, Bool.or_eq_true, List.any_eq_true]
            exact fun heither => hcompletes heither.symm
          refine ⟨{ r with parseErrors := 0 }, ?_, ⟨?_, ?_⟩, rfl⟩
          · rw [hear, if_neg hfinished]
            rfl
          · simp [hmisses, Meaning.isJson]
          · simp_all [Meaning.finishes]
      | cons fragment fragments =>
          refine ⟨{ r with parseErrors := 0, isFinished := r.isFinished || finishes }, rfl,
            ⟨?_, ?_⟩, rfl⟩
          · simp [hmisses, Meaning.isJson]
          · simp [hany, Meaning.finishes]

end Reading.Heard

/-! ## All events -/

def GoesOn (said : List Meaning) : Prop :=
  ∀ before m after, said = before ++ m :: after → ¬ Fails before m ∧ ¬ Completes before m

theorem GoesOn.sound {said : List Meaning} (h : GoesOn said) : Sound said :=
  fun before m after hsaid => (h before m after hsaid).1

theorem GoesOn.left {said more : List Meaning} (h : GoesOn (said ++ more)) : GoesOn said :=
  fun before m after hsaid => h before m (after ++ more) (by simp [hsaid])

theorem GoesOn.concat {said : List Meaning} {m : Meaning} (h : GoesOn said)
    (hfails : ¬ Fails said m) (hcompletes : ¬ Completes said m) : GoesOn (said ++ [m]) := by
  intro before m' after hsaid
  rcases List.eq_nil_or_concat after with rfl | ⟨after, last, rfl⟩
  · obtain ⟨hbefore, hm⟩ := List.append_inj' hsaid rfl
    cases hbefore
    cases hm
    exact ⟨hfails, hcompletes⟩
  · rw [List.concat_eq_append, ← List.cons_append, ← List.append_assoc] at hsaid
    exact h before m' after (List.append_inj' hsaid rfl).1

theorem goesOn_or_exists (said : List Meaning) :
    GoesOn said ∨
      ∃ before m after, said = before ++ m :: after ∧ GoesOn before ∧
        (Fails before m ∨ Completes before m) := by
  induction said using List.reverseRecOn with
  | nil => exact .inl fun before m after h => by simp at h
  | append_singleton said m ih =>
      rcases ih with hsaid | ⟨before, first, after, rfl, hbefore, hfirst⟩
      · by_cases hm : Fails said m ∨ Completes said m
        · exact .inr ⟨said, m, [], rfl, hsaid, hm⟩
        · rw [not_or] at hm
          exact .inl (hsaid.concat hm.1 hm.2)
      · exact .inr ⟨before, first, after ++ [m], by simp, hbefore, hfirst⟩

theorem exists_heard {body : List UInt8} {before later : List Meaning}
    (hbody : meanings body = before ++ later) (hbefore : GoesOn before) :
    ∃ r : Reading, r.Heard before ∧ meanings r.buffer = later ∧
      Reading.advance { buffer := body } = r.advance.after (before.flatMap Meaning.fragments) := by
  induction before using List.reverseRecOn generalizing later with
  | nil => exact ⟨{ buffer := body }, .start body, hbody, (Progress.after_nil _).symm⟩
  | append_singleton before m ih =>
      rw [List.append_assoc, List.singleton_append] at hbody
      obtain ⟨r, hr, hlater, hadvance⟩ := ih hbody hbefore.left
      obtain ⟨hfails, hcompletes⟩ := hbefore before m [] rfl
      cases hsplit : splitEvent? r.buffer with
      | none =>
          rw [meanings, eventsOf_of_none hsplit] at hlater
          cases hlater
      | some found =>
          rw [meanings, eventsOf_of_some hsplit, List.map_cons] at hlater
          injection hlater with hm hrest
          have hkept : Reading.Heard { r with buffer := found.2 } before := ⟨hr.1, hr.2⟩
          obtain ⟨r', hhear, hr', hbuffer⟩ := hkept.hear_of_neither hfails hcompletes
          refine ⟨r', hr', by rw [hbuffer]; exact hrest, ?_⟩
          rw [hadvance, Reading.advance_of_some hsplit, takeEvent_eq_hear, hm, hhear]
          simp only [Progress.after_after, List.flatMap_append, List.flatMap_singleton]

/-- The event at which a stream stops decides how. -/
theorem exists_heard_at {body : List UInt8} {before after : List Meaning} {m : Meaning}
    (hbody : meanings body = before ++ m :: after) (hbefore : GoesOn before) :
    ∃ r : Reading, r.Heard before ∧ ∀ failure, r.hear m = .stop failure →
      Reading.advance { buffer := body } =
        .stopped (before.flatMap Meaning.fragments) failure := by
  obtain ⟨r, hr, hlater, hadvance⟩ := exists_heard hbody hbefore
  cases hsplit : splitEvent? r.buffer with
  | none =>
      rw [meanings, eventsOf_of_none hsplit] at hlater
      cases hlater
  | some found =>
      rw [meanings, eventsOf_of_some hsplit, List.map_cons] at hlater
      injection hlater with hmeaning
      refine ⟨{ r with buffer := found.2 }, ⟨hr.1, hr.2⟩, fun failure hstop => ?_⟩
      rw [hadvance, Reading.advance_of_some hsplit, takeEvent_eq_hear, hmeaning, hstop]
      simp [Progress.after]

/-! ## Bodies -/

variable {chunks : List (List UInt8)} {before after : List Meaning} {m : Meaning}

theorem takeChunks_eq_advance_flatten (hsize : chunks.flatten.length ≤ maxBufferBytes) :
    takeChunks {} chunks = Reading.advance { buffer := chunks.flatten } :=
  takeChunks_eq_advance rfl (by simpa using hsize)

theorem read_of_completes (hsize : chunks.flatten.length ≤ maxBufferBytes)
    (hbody : meanings chunks.flatten = before ++ m :: after) (hbefore : GoesOn before)
    (hm : Completes before m) (ending : Ending) :
    read chunks ending =
      { fragments := before.flatMap Meaning.fragments, failure := none } := by
  obtain ⟨r, hr, hstop⟩ := exists_heard_at hbody hbefore
  have hadvance := hstop none (hr.hear_of_completes hm)
  rw [read, takeChunks_eq_advance_flatten hsize, hadvance]

theorem read_of_fails (hsize : chunks.flatten.length ≤ maxBufferBytes)
    (hbody : meanings chunks.flatten = before ++ m :: after) (hbefore : GoesOn before)
    (hm : Fails before m) (ending : Ending) :
    ∃ failure, read chunks ending =
      { fragments := before.flatMap Meaning.fragments, failure := some failure } := by
  obtain ⟨r, hr, hstop⟩ := exists_heard_at hbody hbefore
  obtain ⟨failure, hfailure⟩ := hr.hear_of_fails hm
  have hadvance := hstop (some failure) hfailure
  exact ⟨failure, by rw [read, takeChunks_eq_advance_flatten hsize, hadvance]⟩

theorem read_of_goesOn (hsize : chunks.flatten.length ≤ maxBufferBytes)
    (h : GoesOn (meanings chunks.flatten)) (ending : Ending) :
    ∃ r : Reading, r.Heard (meanings chunks.flatten) ∧
      read chunks ending =
        { fragments := (meanings chunks.flatten).flatMap Meaning.fragments
          failure := r.end ending
          isWaiting := ending = .interrupted } := by
  obtain ⟨r, hr, hlater, hadvance⟩ := exists_heard (List.append_nil _).symm h
  have hsplit : splitEvent? r.buffer = none := by
    cases hsplit : splitEvent? r.buffer with
    | none => rfl
    | some found =>
        rw [meanings, eventsOf_of_some hsplit] at hlater
        cases hlater
  refine ⟨r, hr, ?_⟩
  rw [read, takeChunks_eq_advance_flatten hsize, hadvance, Reading.advance_of_none hsplit]
  simp [Progress.after]

/-- Of two events at which a stream can stop, the first one decides. -/
theorem eq_of_goesOn_of_sound {before' after' : List Meaning} {m' : Meaning}
    (h : before ++ m :: after = before' ++ m' :: after') (hbefore : GoesOn before)
    (hm : Fails before m) (hbefore' : Sound before') (hm' : Completes before' m') : False := by
  rcases List.append_eq_append_iff.mp h with ⟨mid, rfl, hmid⟩ | ⟨mid, rfl, hmid⟩
  · cases mid with
    | nil =>
        rw [List.append_nil] at hm'
        injection hmid with hm
        subst hm
        exact not_fails_of_completes hm' ‹_›
    | cons next mid =>
        injection hmid with hnext
        subst hnext
        exact hbefore' before m mid rfl hm
  · cases mid with
    | nil =>
        rw [List.append_nil] at hm
        injection hmid with hm
        subst hm
        exact not_fails_of_completes hm' ‹_›
    | cons next mid =>
        injection hmid with hnext
        subst hnext
        exact (hbefore before' m' mid rfl).2 hm'

/-- Whether these end a stream well: an event does, before any fails, or none fails, a reason
to finish was given, and the body is closed behind them. -/
def EndsWell (said : List Meaning) (ending : Ending) : Prop :=
  (∃ before m after, said = before ++ m :: after ∧ Sound before ∧ Completes before m) ∨
    (ending = .closed ∧ Sound said ∧ ∃ m ∈ said, m.finishes = true)

theorem read_failure_eq_none_iff (hsize : chunks.flatten.length ≤ maxBufferBytes)
    {ending : Ending} (hending : ending = .closed ∨ ending = .broken) :
    (read chunks ending).failure = none ↔ EndsWell (meanings chunks.flatten) ending := by
  rcases goesOn_or_exists (meanings chunks.flatten) with
    hgoes | ⟨before, m, after, hbody, hbefore, hm | hm⟩
  · obtain ⟨r, hr, hread⟩ := read_of_goesOn hsize hgoes ending
    have hfinished : r.isFinished = true ↔ ∃ m ∈ meanings chunks.flatten, m.finishes = true := by
      rw [hr.isFinished, List.any_eq_true]
    rw [hread]
    constructor
    · intro hnone
      rcases hending with rfl | rfl
      · refine .inr ⟨rfl, hgoes.sound, hfinished.mp ?_⟩
        cases hr' : r.isFinished with
        | true => rfl
        | false => simp [Reading.end, hr'] at hnone
      · cases hnone
    · rintro (⟨before, m, after, hbody, -, hm⟩ | ⟨rfl, -, hm⟩)
      · exact absurd hm (hgoes before m after hbody).2
      · simp [Reading.end, hfinished.mpr hm]
  · obtain ⟨failure, hread⟩ := read_of_fails hsize hbody hbefore hm ending
    rw [hread]
    constructor
    · intro hnone
      cases hnone
    · rintro (⟨before', m', after', hbody', hsound, hm'⟩ | ⟨-, hsound, -⟩)
      · exact (eq_of_goesOn_of_sound (hbody.symm.trans hbody') hbefore hm hsound hm').elim
      · exact absurd hm (hsound before m after hbody)
  · rw [read_of_completes hsize hbody hbefore hm ending]
    exact ⟨fun _ => .inl ⟨before, m, after, hbody, hbefore.sound, hm⟩, fun _ => rfl⟩

/-! ## Parts of a body -/

def Progress.fragments : Progress → List String
  | reading fragments _ => fragments
  | stopped fragments _ => fragments

theorem fragments_read (hsize : chunks.flatten.length ≤ maxBufferBytes) (ending : Ending) :
    (read chunks ending).fragments =
      (Reading.advance { buffer := chunks.flatten }).fragments := by
  rw [read, takeChunks_eq_advance_flatten hsize]
  cases Reading.advance { buffer := chunks.flatten } with
  | reading fragments r => rfl
  | stopped fragments failure => rfl

/-- Bytes that come later take no fragment back. -/
theorem fragments_advance_add (r : Reading) (more : List UInt8) :
    r.advance.fragments <+: (r.add more).advance.fragments := by
  rw [Reading.advance_add]
  cases r.advance with
  | stopped fragments failure => exact List.prefix_rfl
  | reading fragments r' =>
      rw [Progress.andThen]
      cases (r'.add more).advance with
      | reading later last => exact List.prefix_append fragments later
      | stopped later failure => exact List.prefix_append fragments later

/--
Nothing is cut off in silence.  A reader hears fragments and then at most one failure, and hears
none exactly when the stream ends well.  What is heard of a part of a body is heard of the body.
-/
theorem read_never_truncates_silently (hsize : chunks.flatten.length ≤ maxBufferBytes)
    {ending : Ending} (hending : ending = .closed ∨ ending = .broken) :
    (read chunks ending).isWaiting = false ∧
      (∃ fragments : List String, (read chunks ending).items = fragments.map .ok ∨
        ∃ failure, (read chunks ending).items = fragments.map .ok ++ [.error failure]) ∧
      ((∀ failure, .error failure ∉ (read chunks ending).items) ↔
        EndsWell (meanings chunks.flatten) ending) ∧
      ∀ part ending', part.flatten <+: chunks.flatten →
        (read part ending').fragments <+: (read chunks ending).fragments := by
  have hwaiting : (read chunks ending).isWaiting = false := by
    rw [read]
    cases takeChunks {} chunks with
    | stopped fragments failure => rfl
    | reading fragments r => rcases hending with rfl | rfl <;> rfl
  have hnone := read_failure_eq_none_iff hsize hending
  refine ⟨hwaiting, ⟨(read chunks ending).fragments, ?_⟩, ?_, ?_⟩
  · cases hfailure : (read chunks ending).failure with
    | none => exact .inl (by simp [Transcript.items, hfailure])
    | some failure => exact .inr ⟨failure, by simp [Transcript.items, hfailure]⟩
  · rw [← hnone]
    cases hfailure : (read chunks ending).failure with
    | none => simp [Transcript.items, hfailure]
    | some failure => simp [Transcript.items, hfailure]
  · rintro part ending' ⟨more, hmore⟩
    have hpart : part.flatten.length ≤ maxBufferBytes := by
      rw [← hmore, List.length_append] at hsize
      omega
    rw [fragments_read hsize, fragments_read hpart, ← hmore]
    exact fragments_advance_add { buffer := part.flatten } more

/-- A body that gives a reason to finish with its text, cut off behind that event. -/
def finishedBody : List (List UInt8) :=
  [Text.Utf8.encode "data:\x7b\"choices\":[\x7b\"delta\":\x7b\"content\":\"a\"\x7d,",
    Text.Utf8.encode "\"finish_reason\":\"stop\"\x7d]\x7d\n\ndata: ["]

theorem read_finishedBody :
    finishedBody.flatten.length ≤ maxBufferBytes ∧
      (read finishedBody .closed).items = [.ok "a"] ∧
      EndsWell (meanings finishedBody.flatten) .closed ∧
      ¬ EndsWell (meanings finishedBody.flatten) .broken := by
  have hsize : finishedBody.flatten.length ≤ maxBufferBytes := by decide +kernel
  have hclosed : read finishedBody .closed = { fragments := ["a"], failure := none } := by
    decide +kernel
  have hbroken : read finishedBody .broken =
      { fragments := ["a"], failure := some (.transport .brokenBody) } := by decide +kernel
  have hitems : (read finishedBody .closed).items = [.ok "a"] := by rw [hclosed]; rfl
  have hclosing : Ending.closed = .closed ∨ Ending.closed = .broken := .inl rfl
  have hbreaking : Ending.broken = .closed ∨ Ending.broken = .broken := .inr rfl
  have hwell := (read_never_truncates_silently hsize hclosing).2.2.1
  have hlost := (read_never_truncates_silently hsize hbreaking).2.2.1
  refine ⟨hsize, hitems, hwell.mp fun failure => ?_, fun h => ?_⟩
  · simp [hitems]
  · exact hlost.mpr h (.transport .brokenBody) (by simp [Transcript.items, hbroken])

end EventStream

end Chat

end Marginalia
