import Mathlib.Data.List.Count
import Mathlib.Data.List.Nodup
import Marginalia.Proofs.Display

/-!
# Runs of a ledger

A ledger has one shelf for each document with markers, and no empty one.  So the host hears
that the markers of a document are gone only when it shows some, and the order in which all
documents are cleared makes no difference.
-/

namespace Marginalia

namespace Ledger

def documents (l : Ledger) : List String :=
  l.shelves.map (·.1)

theorem mem_documents_iff {l : Ledger} {id : String} :
    id ∈ l.documents ↔ ∃ shelf, l.shelf? id = some shelf := by
  obtain ⟨shelves⟩ := l
  induction shelves with
  | nil => simp [documents, shelf?]
  | cons entry shelves ih =>
      rw [shelf?_cons]
      by_cases hid : entry.1 = id
      · simp [documents, hid]
      · have hne : id ≠ entry.1 := Ne.symm hid
        rw [if_neg hid, ← ih]
        simp [documents, hne]

theorem mem_documents_put {shelves : List (String × Shelf)} {document id : String}
    {shelf : Shelf} :
    id ∈ documents ⟨put shelves document shelf⟩ ↔ id = document ∨ id ∈ documents ⟨shelves⟩ := by
  rw [mem_documents_iff, shelf?_put, mem_documents_iff]
  by_cases hid : document = id
  · simp [hid]
  · have hne : id ≠ document := Ne.symm hid
    simp [hid, hne]

theorem nodup_documents_put {shelves : List (String × Shelf)} {document : String} (shelf : Shelf)
    (h : (documents ⟨shelves⟩).Nodup) : (documents ⟨put shelves document shelf⟩).Nodup := by
  induction shelves with
  | nil => simp [documents, put]
  | cons entry shelves ih =>
      simp only [documents, List.map_cons, List.nodup_cons] at h
      rw [put]
      by_cases hentry : entry.1 = document
      · rw [if_pos (beq_iff_eq.mpr hentry), documents, List.map_cons, List.nodup_cons, ← hentry]
        exact h
      · rw [if_neg (fun heq => hentry (beq_iff_eq.mp heq)), documents, List.map_cons,
          List.nodup_cons]
        have hrest := ih h.2
        have hnot : entry.1 ∉ documents ⟨put shelves document shelf⟩ := by
          rw [mem_documents_put]
          rintro (heq | hmem)
          · exact hentry heq
          · exact h.1 hmem
        exact ⟨hnot, hrest⟩

/-- Whether each document has one shelf at most, and no shelf is empty. -/
structure Tidy (l : Ledger) : Prop where
  nodup : l.documents.Nodup
  nonempty : ∀ id shelf, l.shelf? id = some shelf → shelf.rendered ≠ []

namespace Tidy

variable {l : Ledger}

theorem empty : Tidy {} :=
  ⟨List.nodup_nil, nofun⟩

theorem mem_documents_iff (h : l.Tidy) {id : String} :
    id ∈ l.documents ↔ l.rendered id ≠ [] := by
  rw [Ledger.mem_documents_iff, rendered]
  constructor
  · rintro ⟨shelf, hshelf⟩
    rw [hshelf]
    exact h.nonempty id shelf hshelf
  · intro hrendered
    cases hshelf : l.shelf? id with
    | none => simp [hshelf] at hrendered
    | some shelf => exact ⟨shelf, rfl⟩

theorem add (h : l.Tidy) (document : String) (m : Marker) : (l.add document m).Tidy := by
  refine ⟨nodup_documents_put _ h.nodup, fun id shelf hshelf => ?_⟩
  rw [shelf?_add] at hshelf
  split at hshelf
  · cases hshelf
    simp [Shelf.add]
  · exact h.nonempty id shelf hshelf

theorem apply (h : l.Tidy) {d : Document} {line : Nat} {suggestion color : String}
    {severity : Severity} {a : Applied} (ha : l.apply d line suggestion severity color = .ok a) :
    ∃ text m, d.line? line = some text ∧ a.ledger = l.add d.id m ∧ a.ledger.Tidy ∧
      a.events = [.setMarkers d.id (l.rendered d.id ++ [m])] := by
  cases hline : d.line? line with
  | none =>
      rw [Ledger.apply, hline] at ha
      cases ha
  | some text =>
      rw [apply_eq_add hline] at ha
      cases ha
      exact ⟨text, _, rfl, rfl, h.add d.id _, rfl⟩

end Tidy

/-! ## Clearing -/

theorem documents_filter (l : Ledger) (p : String → Bool) :
    documents ⟨l.shelves.filter fun entry => p entry.1⟩ = l.documents.filter p := by
  rw [documents, documents, List.filter_map]
  rfl

theorem clear_of_mem {l : Ledger} {document : String} (h : document ∈ l.documents) :
    l.clear document =
      (⟨l.shelves.filter fun entry => entry.1 != document⟩, [.clearMarkers document]) := by
  obtain ⟨shelf, hshelf⟩ := mem_documents_iff.mp h
  rw [clear, hshelf]

theorem clear_of_not_mem {l : Ledger} {document : String} (h : document ∉ l.documents) :
    l.clear document = (l, []) := by
  cases hshelf : l.shelf? document with
  | none => rw [clear, hshelf]
  | some shelf => exact absurd (mem_documents_iff.mpr ⟨shelf, hshelf⟩) h

theorem clearEach_of_subset {l : Ledger} {order : List String} (hnodup : order.Nodup)
    (hmem : ∀ document ∈ order, document ∈ l.documents) :
    l.clearEach order =
      (⟨l.shelves.filter fun entry => !order.contains entry.1⟩, order.map .clearMarkers) := by
  induction order generalizing l with
  | nil =>
      have hall : l.shelves.filter (fun entry => !([] : List String).contains entry.1) =
          l.shelves := by simp
      rw [hall]
      rfl
  | cons document order ih =>
      rw [List.nodup_cons] at hnodup
      have hfirst := clear_of_mem (hmem document List.mem_cons_self)
      have hrest : ∀ id ∈ order, id ∈
          documents ⟨l.shelves.filter fun entry => entry.1 != document⟩ := by
        intro id hid
        have hne : id ≠ document := fun h => hnodup.1 (h ▸ hid)
        have hdocument := hmem id (List.mem_cons_of_mem document hid)
        have hkept : id ∈ l.documents.filter (· != document) :=
          List.mem_filter.mpr ⟨hdocument, by simpa using hne⟩
        rw [← documents_filter] at hkept
        exact hkept
      have hfilter : (l.shelves.filter fun entry => entry.1 != document).filter
          (fun entry => !order.contains entry.1) =
            l.shelves.filter fun entry => !(document :: order).contains entry.1 := by
        rw [List.filter_filter]
        congr 1
        funext entry
        rw [List.contains_cons, Bool.not_or, Bool.and_comm]
        rfl
      rw [clearEach, hfirst]
      dsimp only
      rw [ih hnodup.2 hrest]
      simp only [hfilter, List.map_cons, List.singleton_append]

/-- In whatever order all documents are cleared, each is told once and none is left. -/
theorem Tidy.clearEach_perm {l : Ledger} (h : l.Tidy) {order : List String}
    (horder : order.Perm l.documents) :
    l.clearEach order = ({}, order.map .clearMarkers) := by
  rw [clearEach_of_subset (horder.nodup_iff.mpr h.nodup) fun id hid => horder.mem_iff.mp hid]
  have hnone : l.shelves.filter (fun entry => !order.contains entry.1) = [] := by
    rw [List.filter_eq_nil_iff]
    intro entry hentry
    have hdocument : entry.1 ∈ order :=
      horder.mem_iff.mpr (List.mem_map.mpr ⟨entry, hentry, rfl⟩)
    simp [hdocument]
  rw [hnone]

theorem Tidy.clear {l : Ledger} (h : l.Tidy) (document : String) : (l.clear document).1.Tidy := by
  refine ⟨?_, fun id shelf hshelf => ?_⟩
  · by_cases hdocument : document ∈ l.documents
    · rw [clear_of_mem hdocument]
      rw [documents_filter l (· != document)]
      exact h.nodup.filter _
    · rw [clear_of_not_mem hdocument]
      exact h.nodup
  · rw [shelf?_clear] at hshelf
    split at hshelf
    · cases hshelf
    · exact h.nonempty id shelf hshelf

/-! ## Runs -/

/-- What a ledger is asked to do. -/
inductive Operation where
  | apply (d : Document) (line : Nat) (suggestion : String) (severity : Severity) (color : String)
  | clear (document : String)
  | clearAll

/-- Whether an operation marks a line that the document has. -/
def Operation.Marks (id : String) : Operation → Prop
  | .apply d line _ _ _ => d.id = id ∧ (d.line? line).isSome = true
  | _ => False

/-- What an operation does, and the events it comes with; all are cleared in any order. -/
inductive Performs (l : Ledger) : Operation → Ledger → List HostEvent → Prop where
  | applied {d : Document} {line : Nat} {suggestion color : String} {severity : Severity}
      {a : Applied} (ha : l.apply d line suggestion severity color = .ok a) :
      Performs l (.apply d line suggestion severity color) a.ledger a.events
  | rejected {d : Document} {line : Nat} {suggestion color : String} {severity : Severity}
      {e : OutOfRange} (he : l.apply d line suggestion severity color = .error e) :
      Performs l (.apply d line suggestion severity color) l []
  | cleared (document : String) :
      Performs l (.clear document) (l.clear document).1 (l.clear document).2
  | clearedAll {order : List String} (horder : order.Perm l.documents) :
      Performs l .clearAll (l.clearEach order).1 (l.clearEach order).2

/-- Operations one after the other on a ledger that is empty at first, with all events. -/
inductive Runs : List Operation → Ledger → List HostEvent → Prop where
  | empty : Runs [] {} []
  | step {operations : List Operation} {operation : Operation} {l l' : Ledger}
      {log events : List HostEvent} (h : Runs operations l log)
      (hperforms : l.Performs operation l' events) :
      Runs (operations ++ [operation]) l' (log ++ events)

end Ledger

namespace Display

def Heeds (d : Display) (events : List HostEvent) : Prop :=
  ∀ before id after, events = before ++ .clearMarkers id :: after →
    (d.replay before).markers id ≠ []

theorem heeds_nil (d : Display) : d.Heeds [] := by
  intro before id after h
  simp at h

theorem Heeds.append {d : Display} {events more : List HostEvent} (h : d.Heeds events)
    (hmore : (d.replay events).Heeds more) : d.Heeds (events ++ more) := by
  intro before id after hsplit
  rcases List.append_eq_append_iff.mp hsplit with
    ⟨between, hbefore, hmore'⟩ | ⟨rest, hevents, hrest⟩
  · rw [hbefore, replay_append]
    exact hmore between id after hmore'
  · cases rest with
    | nil =>
        rw [List.append_nil] at hevents
        have hfirst := hmore [] id after (by simpa using hrest.symm)
        rw [← hevents]
        exact hfirst
    | cons event rest =>
        rw [List.cons_append, List.cons.injEq] at hrest
        rw [← hrest.1] at hevents
        exact h before id rest hevents

theorem heeds_singleton_set (d : Display) (document : String) (ms : List Marker) :
    d.Heeds [.setMarkers document ms] := by
  intro before id after h
  rcases List.cons_eq_append_iff.mp h with ⟨-, hcons⟩ | ⟨before', -, hnil⟩
  · cases hcons
  · simp at hnil

theorem heeds_clears {d : Display} {order : List String} (hnodup : order.Nodup)
    (hshown : ∀ id ∈ order, d.markers id ≠ []) : d.Heeds (order.map .clearMarkers) := by
  induction order generalizing d with
  | nil => exact d.heeds_nil
  | cons document order ih =>
      rw [List.nodup_cons] at hnodup
      have hrest : ∀ id ∈ order, (d.follow (.clearMarkers document)).markers id ≠ [] := by
        intro id hid
        have hne : document ≠ id := fun h => hnodup.1 (h ▸ hid)
        rw [markers_clear, if_neg hne]
        exact hshown id (List.mem_cons_of_mem document hid)
      intro before id after h
      rcases List.cons_eq_append_iff.mp h with ⟨rfl, hcons⟩ | ⟨before', rfl, hbefore⟩
      · cases hcons
        exact hshown _ List.mem_cons_self
      · exact ih hnodup.2 hrest before' id after hbefore

theorem markers_replay_eq_nil {d : Display} {id : String} {events : List HostEvent}
    (hnone : d.markers id = []) (hset : ∀ ms, .setMarkers id ms ∉ events) :
    (d.replay events).markers id = [] := by
  induction events generalizing d with
  | nil => exact hnone
  | cons event events ih =>
      have hrest : ∀ ms, .setMarkers id ms ∉ events :=
        fun ms hms => hset ms (List.mem_cons_of_mem event hms)
      refine ih ?_ hrest
      cases event with
      | setMarkers document ms =>
          have hne : document ≠ id := by
            intro h
            exact hset ms (h ▸ List.mem_cons_self)
          rw [markers_set, if_neg hne]
          exact hnone
      | clearMarkers document =>
          rw [markers_clear, hnone]
          exact ite_self []
      | warning text => exact hnone
      | counts tally state => exact hnone

end Display

namespace Ledger

/-- What holds after every run: the ledger is tidy, the host mirrors it and heeds each event. -/
structure Sound (l : Ledger) (log : List HostEvent) : Prop where
  tidy : l.Tidy
  mirrors : (Display.replay {} log).Mirrors l
  heeds : Display.Heeds {} log

theorem Sound.performs {l l' : Ledger} {log events : List HostEvent} {operation : Operation}
    (h : Sound l log) (hperforms : l.Performs operation l' events) : Sound l' (log ++ events) := by
  cases hperforms with
  | applied ha =>
      obtain ⟨text, m, -, hledger, htidy, hevents⟩ := h.tidy.apply ha
      refine ⟨htidy, ?_, ?_⟩
      · rw [Display.replay_append, hevents, hledger]
        exact h.mirrors.add _ m
      · rw [hevents]
        exact h.heeds.append (Display.heeds_singleton_set _ _ _)
  | rejected he =>
      rw [List.append_nil]
      exact h
  | cleared document =>
      refine ⟨h.tidy.clear document, ?_, h.heeds.append ?_⟩
      · rw [Display.replay_append]
        exact h.mirrors.clear document
      · by_cases hdocument : document ∈ l.documents
        · rw [clear_of_mem hdocument]
          refine Display.heeds_clears (List.nodup_singleton document) fun id hid => ?_
          rw [List.mem_singleton] at hid
          rw [h.mirrors id, hid]
          exact h.tidy.mem_documents_iff.mp hdocument
        · rw [clear_of_not_mem hdocument]
          exact Display.heeds_nil _
  | @clearedAll order horder =>
      have hmirrors := h.mirrors.clearEach order
      rw [h.tidy.clearEach_perm horder] at hmirrors ⊢
      refine ⟨.empty, ?_, h.heeds.append ?_⟩
      · rw [Display.replay_append]
        exact hmirrors
      · refine Display.heeds_clears (horder.nodup_iff.mpr h.tidy.nodup) fun id hid => ?_
        rw [h.mirrors id]
        exact h.tidy.mem_documents_iff.mp (horder.mem_iff.mp hid)

theorem Runs.sound {operations : List Operation} {l : Ledger} {log : List HostEvent}
    (h : Runs operations l log) : Sound l log := by
  induction h with
  | empty => exact ⟨.empty, .empty, Display.heeds_nil _⟩
  | step _ hperforms ih => exact ih.performs hperforms

/-- The host is told markers of a document only when one was made on a line that it has. -/
theorem Performs.exists_marks {l l' : Ledger} {operation : Operation} {events : List HostEvent}
    {id : String} {ms : List Marker} (htidy : l.Tidy) (h : l.Performs operation l' events)
    (hset : .setMarkers id ms ∈ events) : operation.Marks id := by
  cases h with
  | applied ha =>
      obtain ⟨text, m, hline, -, -, hevents⟩ := htidy.apply ha
      rw [hevents, List.mem_singleton] at hset
      cases hset
      exact ⟨rfl, by rw [hline]; rfl⟩
  | rejected he => cases hset
  | cleared document =>
      by_cases hdocument : document ∈ l.documents
      · rw [clear_of_mem hdocument] at hset
        simp at hset
      · rw [clear_of_not_mem hdocument] at hset
        cases hset
  | clearedAll horder =>
      rw [htidy.clearEach_perm horder] at hset
      simp at hset

theorem Runs.exists_marks {operations : List Operation} {l : Ledger} {log : List HostEvent}
    {id : String} {ms : List Marker} (h : Runs operations l log)
    (hset : .setMarkers id ms ∈ log) : ∃ operation ∈ operations, operation.Marks id := by
  induction h with
  | empty => cases hset
  | @step operations operation l l' log events h hperforms ih =>
      rcases List.mem_append.mp hset with hlog | hevents
      · obtain ⟨earlier, hearlier, hmarks⟩ := ih hlog
        exact ⟨earlier, List.mem_append_left _ hearlier, hmarks⟩
      · exact ⟨operation, by simp, hperforms.exists_marks h.sound.tidy hevents⟩

theorem Tidy.count_clears {l : Ledger} (h : l.Tidy) {order : List String}
    (horder : order.Perm l.documents) (id : String) :
    (l.clearEach order).2.count (.clearMarkers id) = if l.rendered id = [] then 0 else 1 := by
  have hinjective : Function.Injective HostEvent.clearMarkers := by
    intro a b hab
    cases hab
    rfl
  rw [h.clearEach_perm horder, List.count_map_of_injective _ _ hinjective, horder.count_eq]
  by_cases hrendered : l.rendered id = []
  · have hnot : id ∉ l.documents := fun hmem => h.mem_documents_iff.mp hmem hrendered
    rw [if_pos hrendered, List.count_eq_zero_of_not_mem hnot]
  · rw [if_neg hrendered]
    exact List.count_eq_one_of_mem h.nodup (h.mem_documents_iff.mpr hrendered)

/--
A host that follows all events of a run shows the ledger's markers.  It is told that those of
a document are gone only while it shows some, so not twice without new ones between, and never
for a document of which no line was marked.  To clear all documents tells this once of each
that has markers, and comes to the same in any order.
-/
theorem runs_mirrored {operations : List Operation} {l : Ledger} {log : List HostEvent}
    (h : Runs operations l log) :
    (∀ id, (Display.replay {} log).markers id = l.rendered id) ∧
    (∀ before id after, log = before ++ .clearMarkers id :: after →
      (Display.replay {} before).markers id ≠ [] ∧
        ∀ earlier between, before = earlier ++ .clearMarkers id :: between →
          ∃ ms, .setMarkers id ms ∈ between) ∧
    (∀ id, (∀ operation ∈ operations, ¬ operation.Marks id) → .clearMarkers id ∉ log) ∧
    ∀ order, order.Perm l.documents →
      (l.clearEach order).1 = l.clearAll.1 ∧
      (∀ event ∈ (l.clearEach order).2, ∃ id, event = .clearMarkers id) ∧
      (∀ id, (l.clearEach order).2.count (.clearMarkers id) =
        if l.rendered id = [] then 0 else 1) ∧
      ∀ id, (Display.replay {} (log ++ (l.clearEach order).2)).markers id =
        (Display.replay {} (log ++ l.clearAll.2)).markers id := by
  obtain ⟨htidy, hmirrors, hheeds⟩ := h.sound
  have hall := htidy.clearEach_perm (List.Perm.refl l.documents)
  refine ⟨hmirrors, fun before id after hlog => ⟨hheeds before id after hlog, ?_⟩, ?_, ?_⟩
  · intro earlier between hbefore
    refine Classical.byContradiction fun hnone => ?_
    rw [not_exists] at hnone
    have hshown := hheeds before id after hlog
    rw [hbefore, Display.replay_append] at hshown
    have hgone : ((Display.replay {} earlier).follow (.clearMarkers id)).markers id = [] := by
      rw [Display.markers_clear, if_pos rfl]
    have hsilent := Display.markers_replay_eq_nil hgone hnone
    exact hshown hsilent
  · intro id hmarks hclear
    obtain ⟨before, after, hlog⟩ := List.append_of_mem hclear
    refine hheeds before id after hlog (Display.markers_replay_eq_nil rfl fun ms hms => ?_)
    obtain ⟨operation, hoperation, hmark⟩ :=
      h.exists_marks (hlog ▸ List.mem_append_left _ hms)
    exact hmarks operation hoperation hmark
  · intro order horder
    have hcleared := htidy.clearEach_perm horder
    refine ⟨?_, fun event hevent => ?_, htidy.count_clears horder, fun id => ?_⟩
    · rw [hcleared]
      exact (congrArg Prod.fst hall).symm
    · rw [hcleared] at hevent
      obtain ⟨id, -, rfl⟩ := List.mem_map.mp hevent
      exact ⟨id, rfl⟩
    · have hgone := hmirrors.clearEach order id
      rw [Display.replay_append, hgone, Display.replay_append, hmirrors.clearAll id]
      exact congrArg (Ledger.rendered · id) ((congrArg Prod.fst hcleared).trans
        (congrArg Prod.fst hall).symm)

/-- A line is marked, two that their documents do not have are refused, and all is cleared. -/
theorem runs_mirrored_cleared :
    let d : Document := { id := "main.rs", lines := ["fn main()", "  run();"] }
    let other : Document := { id := "other.rs", lines := ["mod main;"] }
    let m : Marker := ⟨.red, "a", "red", ⟨2, 2, 8⟩⟩
    let operations : List Operation :=
      [.apply d 2 "a" .red "red", .apply d 3 "b" .red "red", .apply other 0 "c" .red "red",
        .clear "other.rs", .clearAll]
    let log : List HostEvent := [.setMarkers "main.rs" [m], .clearMarkers "main.rs"]
    Runs operations {} log ∧ (∀ id, (Display.replay {} log).markers id = []) ∧
      .clearMarkers "other.rs" ∉ log := by
  intro d other m operations log
  have hbeyond : apply (add {} "main.rs" m) d 3 "b" .red "red" = .error ⟨3, 2⟩ := rfl
  have hzero : apply (add {} "main.rs" m) other 0 "c" .red "red" = .error ⟨0, 1⟩ := rfl
  have hmarked : Runs [.apply d 2 "a" .red "red"] (add {} "main.rs" m)
      [.setMarkers "main.rs" [m]] := Runs.empty.step (.applied (a := ⟨_, m, _⟩) rfl)
  have hrefused := (hmarked.step (.rejected hbeyond)).step (.rejected hzero)
  have hcleared := (hrefused.step (.cleared "other.rs")).step (.clearedAll (List.Perm.refl _))
  have hruns : Runs operations {} log := hcleared
  obtain ⟨hshown, -, hnever, -⟩ := runs_mirrored hruns
  refine ⟨hruns, hshown, hnever "other.rs" fun operation hoperation => ?_⟩
  simp only [operations, List.mem_cons, List.not_mem_nil, or_false] at hoperation
  rcases hoperation with rfl | rfl | rfl | rfl | rfl
  · rintro ⟨hid, -⟩
    exact absurd hid (by decide)
  · rintro ⟨hid, -⟩
    exact absurd hid (by decide)
  · rintro ⟨-, hline⟩
    exact absurd hline (by decide)
  · exact id
  · exact id

end Ledger

end Marginalia
