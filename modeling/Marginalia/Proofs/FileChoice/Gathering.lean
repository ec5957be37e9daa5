import Marginalia.Proofs.FileChoice.Selection
import Marginalia.Proofs.Filter.Tokens

/-!
# Only offered files are read

A choice of files is read to the end of the reply, however often this has to wait.  Files are
read only if the reply arrives whole, and only those that were offered, so that nothing in a
reply can make any other file part of a request.
-/

namespace Marginalia

namespace FileChoice

/-! ## A reply that arrives whole -/

/--
Reads a choice on whenever more may have arrived.  Each waking tells whether the request was
cancelled while the choice was waiting.
-/
def resume (choice : FileChoice) : List Bool → Collected
  | [] => choice.advance
  | isCancelled :: wakes =>
      match choice.advance with
      | .waiting reply events => resume { choice with reply, events, isCancelled } wakes
      | collected => collected

/--
A reply that arrives whole, and its text: fragments, and waits during which the request is not
cancelled.  It may be cancelled in the poll that ends the reply.
-/
inductive Arrives : List Model.Event → List Bool → String → Prop where
  | ended {events : List Model.Event} {wakes : List Bool}
      (hend : ∀ event ∈ events, event = .cancellation) : Arrives events wakes ""
  | fragment {text rest : String} {events : List Model.Event} {wakes : List Bool}
      (others : Arrives events wakes rest) : Arrives (.fragment text :: events) wakes (text ++ rest)
  | pause {rest : String} {events : List Model.Event} {wakes : List Bool}
      (others : Arrives events wakes rest) : Arrives (.pause :: events) (false :: wakes) rest

theorem arrives_fragment_iff {text all : String} {events : List Model.Event} {wakes : List Bool} :
    Arrives (.fragment text :: events) wakes all ↔
      ∃ rest, all = text ++ rest ∧ Arrives events wakes rest := by
  constructor
  · intro h
    cases h with
    | ended hend => cases hend _ List.mem_cons_self
    | fragment others => exact ⟨_, rfl, others⟩
  · rintro ⟨rest, rfl, others⟩
    exact .fragment others

theorem arrives_pause_iff {text : String} {events : List Model.Event} {wakes : List Bool} :
    Arrives (.pause :: events) wakes text ↔
      ∃ wakes', wakes = false :: wakes' ∧ Arrives events wakes' text := by
  constructor
  · intro h
    cases h with
    | ended hend => cases hend _ List.mem_cons_self
    | pause others => exact ⟨_, rfl, others⟩
  · rintro ⟨wakes', rfl, others⟩
    exact .pause others

theorem arrives_cancellation_iff {text : String} {events : List Model.Event} {wakes : List Bool} :
    Arrives (.cancellation :: events) wakes text ↔
      text = "" ∧ ∀ event ∈ events, event = .cancellation := by
  constructor
  · intro h
    cases h with
    | ended hend => exact ⟨rfl, fun event hmem => hend event (List.mem_cons_of_mem _ hmem)⟩
  · rintro ⟨rfl, hend⟩
    exact .ended (by simpa using hend)

theorem not_arrives_failure {failure : Model.Failure} {text : String} {events : List Model.Event}
    {wakes : List Bool} : ¬ Arrives (.failure failure :: events) wakes text := by
  intro h
  cases h with
  | ended hend => cases hend _ List.mem_cons_self

theorem not_arrives_stall {text : String} {events : List Model.Event} {wakes : List Bool} :
    ¬ Arrives (.stall :: events) wakes text := by
  intro h
  cases h with
  | ended hend => cases hend _ List.mem_cons_self

theorem Arrives.unique {events : List Model.Event} {wakes : List Bool} {text text' : String}
    (h : Arrives events wakes text) (h' : Arrives events wakes text') : text = text' := by
  induction h generalizing text' with
  | ended hend =>
      cases h' with
      | ended _ => rfl
      | fragment _ => cases hend _ List.mem_cons_self
      | pause _ => cases hend _ List.mem_cons_self
  | fragment _ ih =>
      obtain ⟨rest, rfl, others⟩ := arrives_fragment_iff.mp h'
      rw [ih others]
  | pause _ ih =>
      obtain ⟨wakes', hwakes, others⟩ := arrives_pause_iff.mp h'
      cases hwakes
      exact ih others

/-! ## Reading a reply -/

/-- Once cancelled, a choice is complete only if nothing more arrives. -/
theorem collect_cancelled (reply : String) (events : List Model.Event) :
    ((∀ event ∈ events, event = .cancellation) →
        ∃ isCancelled, collect reply true events = .complete reply isCancelled) ∧
      ((¬ ∀ event ∈ events, event = .cancellation) →
        ∃ isCancelled, collect reply true events = .abandoned isCancelled) := by
  induction events with
  | nil => exact ⟨fun _ => ⟨true, by simp [collect]⟩, fun h => absurd (by simp) h⟩
  | cons event events ih =>
      cases event with
      | cancellation =>
          simp only [collect, List.mem_cons, forall_eq_or_imp, true_and]
          exact ih
      | _ =>
          refine ⟨fun h => ?_, fun _ => ⟨_, by rw [collect]⟩⟩
          cases h _ List.mem_cons_self

/-- How far a choice comes that was not cancelled before. -/
inductive Comes (reply : String) (events : List Model.Event) : Collected → Prop where
  | complete {text : String} {isCancelled : Bool} (arrives : ∀ wakes, Arrives events wakes text) :
      Comes reply events (.complete (reply ++ text) isCancelled)
  | abandoned {isCancelled : Bool} (never : ∀ wakes text, ¬ Arrives events wakes text) :
      Comes reply events (.abandoned isCancelled)
  | waiting {text : String} {events' : List Model.Event}
      (iff : ∀ wakes all, Arrives events wakes all ↔ ∃ wakes' rest,
        wakes = false :: wakes' ∧ all = text ++ rest ∧ Arrives events' wakes' rest) :
      Comes reply events (.waiting (reply ++ text) events')

theorem Comes.fragment {reply text : String} {events : List Model.Event} {c : Collected}
    (h : Comes (reply ++ text) events c) : Comes reply (.fragment text :: events) c := by
  cases h with
  | complete arrives =>
      rw [String.append_assoc]
      exact .complete fun wakes => .fragment (arrives wakes)
  | abandoned never =>
      refine .abandoned fun wakes all h => ?_
      obtain ⟨rest, -, others⟩ := arrives_fragment_iff.mp h
      exact never wakes rest others
  | waiting iff =>
      rw [String.append_assoc]
      refine .waiting fun wakes all => ?_
      rw [arrives_fragment_iff]
      constructor
      · rintro ⟨rest, rfl, others⟩
        obtain ⟨wakes', rest', hwakes, rfl, hrest⟩ := (iff wakes rest).mp others
        exact ⟨wakes', rest', hwakes, String.append_assoc.symm, hrest⟩
      · rintro ⟨wakes', rest', hwakes, rfl, hrest⟩
        exact ⟨_, String.append_assoc, (iff wakes _).mpr ⟨wakes', rest', hwakes, rfl, hrest⟩⟩

theorem comes_collect (reply : String) (events : List Model.Event) :
    Comes reply events (collect reply false events) := by
  induction events generalizing reply with
  | nil =>
      rw [collect]
      have hcomplete : Comes reply [] (.complete (reply ++ "") false) :=
        .complete fun wakes => .ended (by simp)
      simpa using hcomplete
  | cons event events ih =>
      cases event with
      | fragment text =>
          rw [collect]
          exact (ih (reply ++ text)).fragment
      | failure failure =>
          rw [collect]
          exact .abandoned fun _ _ => not_arrives_failure
      | cancellation =>
          rw [collect]
          obtain ⟨hall, hmore⟩ := collect_cancelled reply events
          by_cases hend : ∀ event ∈ events, event = .cancellation
          · obtain ⟨isCancelled, hcollect⟩ := hall hend
            rw [hcollect]
            have hcomplete : Comes reply (.cancellation :: events)
                (.complete (reply ++ "") isCancelled) :=
              .complete fun wakes => arrives_cancellation_iff.mpr ⟨rfl, hend⟩
            simpa using hcomplete
          · obtain ⟨isCancelled, hcollect⟩ := hmore hend
            rw [hcollect]
            exact .abandoned fun _ _ h => hend (arrives_cancellation_iff.mp h).2
      | pause =>
          have hwaits : Comes reply (.pause :: events) (.waiting (reply ++ "") events) :=
            .waiting fun wakes all => by simp [arrives_pause_iff]
          rw [collect]
          simpa using hwaits
      | stall =>
          have hwaits :
              Comes reply (.stall :: events) (.waiting (reply ++ "") (.stall :: events)) :=
            .waiting fun wakes all => by simp [not_arrives_stall]
          rw [collect]
          simpa using hwaits

theorem Arrives.complete_iff {events : List Model.Event} {wakes : List Bool} {text : String}
    (h : Arrives events wakes text) (before reply : String) (isCancelled : Bool) :
    (∃ isCancelled', Collected.complete (before ++ text) isCancelled =
        .complete reply isCancelled') ↔
      ∃ text', Arrives events wakes text' ∧ reply = before ++ text' := by
  constructor
  · rintro ⟨isCancelled', heq⟩
    cases heq
    exact ⟨text, h, rfl⟩
  · rintro ⟨text', h', rfl⟩
    rw [h'.unique h]
    exact ⟨isCancelled, rfl⟩

/-- A choice is complete just when its reply arrives whole. -/
theorem resume_complete_iff (choice : FileChoice) (wakes : List Bool) (reply : String) :
    (∃ isCancelled, choice.resume wakes = .complete reply isCancelled) ↔
      choice.isCancelled = false ∧
        ∃ text, Arrives choice.events wakes text ∧ reply = choice.reply ++ text := by
  induction wakes generalizing choice with
  | nil =>
      simp only [resume, advance]
      cases choice.isCancelled with
      | true => simp
      | false =>
          have hcomes := comes_collect choice.reply choice.events
          generalize collect choice.reply false choice.events = c at hcomes ⊢
          cases hcomes with
          | @complete text isCancelled arrives =>
              simpa using (arrives []).complete_iff choice.reply reply isCancelled
          | abandoned never => simp [never]
          | waiting iff => simp [iff]
  | cons wake wakes ih =>
      simp only [resume, advance]
      cases choice.isCancelled with
      | true => simp
      | false =>
          have hcomes := comes_collect choice.reply choice.events
          generalize collect choice.reply false choice.events = c at hcomes ⊢
          cases hcomes with
          | @complete text isCancelled arrives =>
              simpa using (arrives (wake :: wakes)).complete_iff choice.reply reply isCancelled
          | abandoned never => simp [never]
          | @waiting text events' iff =>
              -- the choice goes on where it stopped, unless this waking finds it cancelled
              simp only [Bool.false_eq_true, if_false, ih, iff, true_and]
              constructor
              · rintro ⟨rfl, rest, hrest, rfl⟩
                exact ⟨text ++ rest, ⟨wakes, rest, rfl, rfl, hrest⟩, String.append_assoc⟩
              · rintro ⟨all, ⟨wakes', rest, hwakes, rfl, hrest⟩, rfl⟩
                cases hwakes
                exact ⟨rfl, rest, hrest, String.append_assoc.symm⟩

/-! ## Reading the files -/

/-- A whole choice, as `run` makes it, when the reply may have to be waited for. -/
def gather (r : Reviewer) (library : Library) (d : Document) (isCancelled : Bool)
    (x : Model.Exchange) (wakes : List Bool) : Run :=
  let (token, x) := x.issue
  match start r library d token isCancelled x with
  | (.nothing, x) => ⟨[], [], isCancelled, x.cancelIf token isCancelled⟩
  | (.reading choice, x) =>
      match choice.resume wakes with
      | .complete reply isCancelled =>
          let (messages, reads) := conclude r library choice.offered reply
          ⟨messages, reads, isCancelled, x.cancelIf token isCancelled⟩
      | .abandoned isCancelled => ⟨[], [], isCancelled, x.cancelIf token isCancelled⟩
      | .waiting _ _ => ⟨[], [], isCancelled, x.cancelIf token isCancelled⟩

theorem gather_nil (r : Reviewer) (library : Library) (d : Document) (isCancelled : Bool)
    (x : Model.Exchange) :
    gather r library d isCancelled x [] = run r library d isCancelled x := rfl

def offeredFor (library : Library) (d : Document) : List String :=
  library.files.filter (· != d.id)

structure Answered (r : Reviewer) (isCancelled : Bool) (x : Model.Exchange) (wakes : List Bool)
    (text : String) : Prop where
  model : r.model?.isSome = true
  quiet : isCancelled = false
  arrives : ∃ events, x.answer 0 = .stream events ∧ Arrives events wakes text

theorem Answered.unique {r : Reviewer} {isCancelled : Bool} {x : Model.Exchange}
    {wakes : List Bool} {text text' : String} (h : Answered r isCancelled x wakes text)
    (h' : Answered r isCancelled x wakes text') : text = text' := by
  obtain ⟨events, hevents, harrives⟩ := h.arrives
  obtain ⟨events', hevents', harrives'⟩ := h'.arrives
  cases hevents.symm.trans hevents'
  exact harrives.unique harrives'

/-- What a choice comes to: the files its reply asks for, or nothing. -/
inductive Gathered (r : Reviewer) (library : Library) (d : Document) (isCancelled : Bool)
    (x : Model.Exchange) (wakes : List Bool) (g : Run) : Prop where
  | whole {text : String} (answered : Answered r isCancelled x wakes text)
      (reads : g.reads = select text (offeredFor library d))
      (messages : g.messages = fileMessages library r.settings.budget g.reads)
  | nothing (hnone : offeredFor library d = [] ∨ ∀ text, ¬ Answered r isCancelled x wakes text)
      (reads : g.reads = []) (messages : g.messages = [])

theorem gathered (r : Reviewer) (library : Library) (d : Document) (isCancelled : Bool)
    (x : Model.Exchange) (wakes : List Bool) :
    Gathered r library d isCancelled x wakes (gather r library d isCancelled x wakes) := by
  have hanswer : x.issue.2.answer 0 = x.answer 0 := rfl
  simp only [gather, start, Model.Exchange.send_eq, hanswer]
  cases hoffered : (library.files.filter (· != d.id)).isEmpty with
  | true => exact .nothing (.inl (List.isEmpty_iff.mp hoffered)) rfl rfl
  | false =>
      cases hmodel : r.model? with
      | none =>
          refine .nothing (.inr fun text h => ?_) rfl rfl
          have hsome := h.model
          rw [hmodel] at hsome
          cases hsome
      | some model =>
          cases hreply : x.answer 0 with
          | refused failure =>
              refine .nothing (.inr fun text h => ?_) rfl rfl
              obtain ⟨events, hevents, -⟩ := h.arrives
              rw [hreply] at hevents
              cases hevents
          | stream events =>
              let choice : FileChoice := { offered := offeredFor library d, events, isCancelled }
              have hiff (reply : String) := resume_complete_iff choice wakes reply
              have hnever (hnot : ∀ reply c, choice.resume wakes ≠ .complete reply c)
                  (text : String) : ¬ Answered r isCancelled x wakes text := by
                rintro ⟨-, hquiet, events', hevents', harrives⟩
                cases hreply.symm.trans hevents'
                obtain ⟨c, hcomplete⟩ := (hiff _).mpr ⟨hquiet, text, harrives, rfl⟩
                exact hnot _ c hcomplete
              simp only [Bool.false_eq_true, if_false]
              show Gathered r library d isCancelled x wakes
                (match choice.resume wakes with
                | .complete reply isCancelled => _
                | .abandoned isCancelled => _
                | .waiting _ _ => _)
              cases hresume : choice.resume wakes with
              | complete reply c =>
                  obtain ⟨hquiet, text, harrives, htext⟩ := (hiff reply).mp ⟨c, hresume⟩
                  have hsame : reply = text := by simpa [choice] using htext
                  have hanswered : Answered r isCancelled x wakes reply :=
                    ⟨by rw [hmodel]; rfl, hquiet, events, hreply, hsame ▸ harrives⟩
                  exact .whole hanswered rfl rfl
              | abandoned c => exact .nothing (.inr (hnever (by simp [hresume]))) rfl rfl
              | waiting reply events => exact .nothing (.inr (hnever (by simp [hresume]))) rfl rfl

theorem fileMessages_congr {library : Library} {read : String → Option String}
    (budget : Text.Budget) {paths : List String}
    (h : ∀ path ∈ paths, read path = library.read path) :
    fileMessages { library with read } budget paths = fileMessages library budget paths := by
  rw [fileMessages, fileMessages, List.flatMap_def, List.flatMap_def]
  refine congrArg List.flatten (List.map_congr_left fun path hpath => ?_)
  dsimp only
  rw [h path hpath]

/-- A choice depends on the texts of those files only that it reads. -/
theorem gather_congr {r : Reviewer} {library : Library} {d : Document} {isCancelled : Bool}
    {x : Model.Exchange} {wakes : List Bool} {read : String → Option String}
    (h : ∀ path ∈ (gather r library d isCancelled x wakes).reads, read path = library.read path) :
    gather r { library with read } d isCancelled x wakes =
      gather r library d isCancelled x wakes := by
  have hstart (token : Model.Token) (x : Model.Exchange) :
      start r { library with read } d token isCancelled x =
        start r library d token isCancelled x := rfl
  simp only [gather, hstart] at h ⊢
  split
  · rfl
  · next choice x' hreading =>
      simp only [hreading] at h
      split
      · next reply c hcomplete =>
          simp only [hcomplete, conclude] at h ⊢
          rw [fileMessages_congr r.settings.budget h]
      · rfl
      · rfl

/-! ## Replies that do not arrive whole -/

theorem Arrives.mem {events : List Model.Event} {wakes : List Bool} {text : String}
    (h : Arrives events wakes text) {event : Model.Event} (hmem : event ∈ events) :
    event = .cancellation ∨ event = .pause ∨ ∃ text, event = .fragment text := by
  induction h with
  | ended hend => exact .inl (hend event hmem)
  | @fragment text _ _ _ _ ih =>
      rcases List.mem_cons.mp hmem with rfl | hlater
      · exact .inr (.inr ⟨text, rfl⟩)
      · exact ih hlater
  | pause _ ih =>
      rcases List.mem_cons.mp hmem with rfl | hlater
      · exact .inr (.inl rfl)
      · exact ih hlater

/-- Nothing but cancellations comes after a cancellation. -/
theorem Arrives.eq_cancellation {before after : List Model.Event} {wakes : List Bool}
    {text : String} (h : Arrives (before ++ .cancellation :: after) wakes text) :
    ∀ event ∈ after, event = .cancellation := by
  induction before generalizing wakes text with
  | nil => exact (arrives_cancellation_iff.mp h).2
  | cons event before ih =>
      cases h with
      | ended hend =>
          intro event hmem
          exact hend event (by simp [hmem])
      | fragment others => exact ih others
      | pause others => exact ih others

/-- No waking after a wait finds the request cancelled. -/
theorem Arrives.wake_eq_false {events : List Model.Event} {wakes : List Bool} {text : String}
    (h : Arrives events wakes text) {n : Nat} (hn : n < events.countP (· == .pause)) :
    wakes[n]? = some false := by
  induction h generalizing n with
  | ended hend =>
      rw [List.countP_eq_zero.mpr] at hn
      · exact absurd hn (Nat.not_lt_zero n)
      · intro event hmem
        rw [hend event hmem]
        simp
  | fragment others ih =>
      refine ih ?_
      simpa [List.countP_cons] using hn
  | pause others ih =>
      cases n with
      | zero => rfl
      | succ n =>
          refine ih ?_
          simpa [List.countP_cons] using hn

/-- What keeps the reply to a request for a choice from arriving whole. -/
inductive Fails (isCancelled : Bool) (x : Model.Exchange) (wakes : List Bool) : Prop where
  | refused {failure : Model.Failure} (answer : x.answer 0 = .refused failure) :
      Fails isCancelled x wakes
  /-- The request is cancelled before it is made. -/
  | early (hcancelled : isCancelled = true) : Fails isCancelled x wakes
  | item {events : List Model.Event} {failure : Model.Failure}
      (answer : x.answer 0 = .stream events)
      (hmem : .failure failure ∈ events) : Fails isCancelled x wakes
  /-- The request is cancelled in a poll, and that poll does not end the reply. -/
  | between {before after : List Model.Event} {event : Model.Event}
      (answer : x.answer 0 = .stream (before ++ .cancellation :: after)) (hmem : event ∈ after)
      (hmore : event ≠ .cancellation) : Fails isCancelled x wakes
  /-- The request is cancelled while the reply is waited for. -/
  | waiting {events : List Model.Event} {n : Nat} (answer : x.answer 0 = .stream events)
      (hn : n < events.countP (· == .pause)) (hwake : wakes[n]? = some true) :
      Fails isCancelled x wakes

theorem Fails.not_answered {r : Reviewer} {isCancelled : Bool} {x : Model.Exchange}
    {wakes : List Bool} (h : Fails isCancelled x wakes) (text : String) :
    ¬ Answered r isCancelled x wakes text := by
  rintro ⟨-, hquiet, events, hevents, harrives⟩
  cases h with
  | refused answer => cases answer.symm.trans hevents
  | early hcancelled => cases hquiet.symm.trans hcancelled
  | item answer hmem =>
      cases answer.symm.trans hevents
      rcases harrives.mem hmem with hevent | hevent | ⟨text, hevent⟩
      · cases hevent
      · cases hevent
      · cases hevent
  | between answer hmem hmore =>
      cases answer.symm.trans hevents
      exact hmore (harrives.eq_cancellation _ hmem)
  | waiting answer hn hwake =>
      cases answer.symm.trans hevents
      cases (harrives.wake_eq_false hn).symm.trans hwake

/--
Whatever the reply to a choice is, only files are read that were listed and are not the
document itself, each once; the texts of all other files make no difference.  If the reply
arrives whole, these are the ones on offer among the paths that it lists first, in their order.
If it does not, nothing is read and there are no messages.
-/
theorem gather_reads_offered (r : Reviewer) (library : Library) (d : Document)
    (isCancelled : Bool) (x : Model.Exchange) (wakes : List Bool) :
    let gathered := gather r library d isCancelled x wakes
    ((∀ path ∈ gathered.reads, path ∈ library.files ∧ path ≠ d.id) ∧ gathered.reads.Nodup) ∧
    (gathered.messages = fileMessages library r.settings.budget gathered.reads ∧
      ∀ read : String → Option String,
        (∀ path ∈ gathered.reads, read path = library.read path) →
          gather r { library with read } d isCancelled x wakes = gathered) ∧
    (∀ text, Answered r isCancelled x wakes text →
      ∃ paths, Listed text.toList paths ∧
        FirstOccurrences (fun path => path ∈ library.files ∧ path ≠ d.id) paths gathered.reads) ∧
    ((∀ text, ¬ Answered r isCancelled x wakes text) →
      gathered.reads = [] ∧ gathered.messages = []) ∧
    (Fails isCancelled x wakes → gathered.reads = [] ∧ gathered.messages = []) := by
  intro gathered
  have hoffered (path : String) :
      path ∈ offeredFor library d ↔ path ∈ library.files ∧ path ≠ d.id := by
    simp [offeredFor]
  have hread {read : String → Option String}
      (h : ∀ path ∈ gathered.reads, read path = library.read path) :
      gather r { library with read } d isCancelled x wakes = gathered := gather_congr h
  have hnever {text : String} (h : Fails isCancelled x wakes) :
      ¬ Answered r isCancelled x wakes text := h.not_answered text
  cases FileChoice.gathered r library d isCancelled x wakes with
  | @whole text answered reads messages =>
      obtain ⟨paths, hlisted, hfirst⟩ := exists_listed_select text (offeredFor library d)
      rw [← reads] at hfirst
      refine ⟨⟨fun path hpath => ?_, hfirst.nodup⟩, ⟨messages, fun read => hread⟩,
        fun text' h => ?_, fun h => absurd answered (h text), fun h => absurd answered (hnever h)⟩
      · exact (hoffered path).mp ((hfirst.mem path).mp hpath).2
      · rw [h.unique answered]
        exact ⟨paths, hlisted, fun s => by rw [hfirst.mem, hoffered], hfirst.order⟩
  | nothing hnone reads messages =>
      refine ⟨by simp [gathered, reads],
        ⟨by simp [gathered, reads, messages, fileMessages], fun read => hread⟩,
        fun text h => ?_, fun _ => ⟨reads, messages⟩, fun _ => ⟨reads, messages⟩⟩
      have hempty : offeredFor library d = [] := hnone.resolve_right fun hnever => hnever text h
      obtain ⟨paths, hlisted, -⟩ := exists_listed_select text []
      have hreads : gathered.reads = [] := reads
      rw [hreads]
      refine ⟨paths, hlisted, fun s => ?_, .nil⟩
      rw [← hoffered, hempty]
      simp

def pairLibrary : Library :=
  { files := ["a.rs", "b.rs", "main.rs"]
    read := fun path => if path = "a.rs" then some "a" else none }

/-- The reply comes in two parts; it asks for a file twice, and for two that are not on offer. -/
def pairExchange : Model.Exchange :=
  { replies := [.stream
      [.fragment "Sure \x7b \x7b\"paths\": [\"b.rs\", \"main.rs\", \"/etc/pass", .pause,
        .fragment "wd\", \"b.rs\", \"a.rs\"], \"why\": [\x7b\x7d]\x7d"]] }

/-- Of the five paths in a reply two are on offer; without any reply nothing is read. -/
theorem gather_reads_offered_pair :
    let r : Reviewer := { catalog := ⟨[⟨"test", "scripted"⟩]⟩ }
    let d : Document := { id := "main.rs", lines := ["fn main()"] }
    let gathered := gather r pairLibrary d false pairExchange [false]
    gathered.reads = ["b.rs", "a.rs"] ∧
      (∃ text paths, Answered r false pairExchange [false] text ∧ Listed text.toList paths ∧
        FirstOccurrences (fun path => path ∈ pairLibrary.files ∧ path ≠ d.id) paths
          gathered.reads) ∧
      (gather r pairLibrary d true pairExchange [false]).reads = [] := by
  intro r d gathered
  have hanswered : Answered r false pairExchange [false] _ :=
    ⟨by decide +kernel, rfl, _, rfl, .fragment (.pause (.fragment (.ended (by simp))))⟩
  obtain ⟨-, -, hwhole, -, -⟩ := gather_reads_offered r pairLibrary d false pairExchange [false]
  obtain ⟨-, -, -, -, hfails⟩ := gather_reads_offered r pairLibrary d true pairExchange [false]
  obtain ⟨paths, hlisted, hfirst⟩ := hwhole _ hanswered
  exact ⟨by decide +kernel, ⟨_, paths, hanswered, hlisted, hfirst⟩, (hfails (.early rfl)).1⟩

end FileChoice

end Marginalia
