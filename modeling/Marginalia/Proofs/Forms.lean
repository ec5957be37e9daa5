import Mathlib.Data.List.Forall2
import Marginalia.Chat.Service
import Marginalia.Forms
import Marginalia.Proofs.Json.Expected

/-!
# Serialised forms are read back

Every form gives back the values that it writes, and the values that it takes from any other text
are among those.  What a chat service is sent is read back in the same way.
-/

namespace Marginalia

namespace Form

open Json Json.Expect

variable {α : Type} {form : Form α} {valid : α → Prop}

/--
Whether a form gives back each value that it can be given to write, and also each value that it
reads from a text of any other layout.
-/
structure Faithful (form : Form α) (valid : α → Prop) : Prop where
  parse_render : ∀ a, valid a → form.parse (form.render a) = .ok a
  reparse : ∀ text a, form.parse text = .ok a →
    valid a ∧ form.parse (form.render a) = .ok a

theorem parse_eq_ok_iff {text : String} {a : α} :
    form.parse text = .ok a ↔
      ∃ rest, form.read (fuelFor text.toList) text.toList = .ok (a, rest) ∧
        skipSpace rest = [] := by
  have hended {rest : List Char} {b : α} :
      ended (b, rest) = .ok a ↔ b = a ∧ skipSpace rest = [] := by
    unfold ended
    split
    · next hnone => simp [hnone]
    · next hsome => simpa [faultAt] using fun _ => hsome
  rw [parse, whole, bind_eq_ok_iff]
  constructor
  · rintro ⟨⟨b, rest⟩, hread, hb⟩
    obtain ⟨rfl, hrest⟩ := hended.mp hb
    exact ⟨rest, hread, hrest⟩
  · rintro ⟨rest, hread, hrest⟩
    exact ⟨(a, rest), hread, hended.mpr ⟨rfl, hrest⟩⟩

theorem parse_render_of_recovers {a : α}
    (h : Recovers (form.read (fuelFor (form.render a).toList)) (form.write a) a) :
    form.parse (form.render a) = .ok a := by
  have hread := h [] delimited_nil
  rw [List.append_nil] at hread
  exact parse_eq_ok_iff.mpr ⟨[], hread, rfl⟩

theorem Faithful.of_valid (hrender : ∀ a, valid a → form.parse (form.render a) = .ok a)
    (hvalid : ∀ text a, form.parse text = .ok a → valid a) : form.Faithful valid :=
  ⟨hrender, fun text a h => ⟨hvalid text a h, hrender a (hvalid text a h)⟩⟩

theorem Faithful.of_recovers
    (h : ∀ a fuel, Recovers (form.read fuel) (form.write a) a) : form.Faithful fun _ => True :=
  .of_valid (fun a _ => parse_render_of_recovers (h a _)) fun _ _ _ => trivial

/-! ## Words and texts -/

theorem severity_faithful : severity.Faithful fun _ => True :=
  .of_recovers fun s _ => recovers_word s.ofLabel?_label

theorem role_faithful : role.Faithful fun _ => True :=
  .of_recovers fun r _ => recovers_word r.ofLabel?_label

theorem text_faithful : text.Faithful fun _ => True :=
  .of_recovers fun s _ => recovers_string s

theorem requirements_faithful : requirements.Faithful fun _ => True := by
  refine .of_recovers fun r _ => ?_
  have hchecked : Recovers (checked string fun s => some (⟨s⟩ : Requirements)) (.string r.text) r :=
    (recovers_string r.text).checked rfl
  exact hchecked

theorem nonBlank_faithful : nonBlank.Faithful fun _ => True := by
  refine .of_recovers fun t _ => ?_
  have hchecked : Recovers (checked string NonBlank.ofString?) (.string t.text) t :=
    (recovers_string t.text).checked t.ofString?_text
  exact hchecked

theorem nonBlank_parse_iff {text : String} {t : NonBlank} :
    nonBlank.parse text = .ok t ↔ Form.text.parse text = .ok t.text := by
  have hofString {s : String} (h : NonBlank.ofString? s = some t) : s = t.text := by
    unfold NonBlank.ofString? at h
    split at h
    · cases h
      rfl
    · cases h
  have hread {cs rest : List Char} :
      checked string NonBlank.ofString? cs = .ok (t, rest) ↔ string cs = .ok (t.text, rest) := by
    rw [checked_eq_ok_iff]
    constructor
    · rintro ⟨s, hstring, hsome⟩
      rwa [← hofString hsome]
    · intro hstring
      exact ⟨t.text, hstring, t.ofString?_text⟩
  rw [parse_eq_ok_iff, parse_eq_ok_iff]
  simp only [nonBlank, Form.text, hread]

/-! ## Records -/

theorem recovers_field {σ α : Type} {reader : Reader α} {v : Json} {a : α} (key : String)
    (get : σ → Option α) (set : σ → α → σ) (acc : σ) (h : Recovers reader v a) :
    Recovers ((field key reader get set).read acc) v (set acc a) := by
  intro rest hrest
  exact bind_eq_ok_iff.mpr ⟨_, h rest hrest, rfl⟩

theorem keeps_field {σ α : Type} {Inv : σ → Prop} {reader : Reader α} {key : String}
    {get : σ → Option α} {set : σ → α → σ}
    (h : ∀ {acc a text rest}, Inv acc → reader text = .ok (a, rest) → Inv (set acc a)) :
    (field key reader get set).Keeps Inv := by
  intro acc text acc' rest hacc hread
  obtain ⟨⟨a, after⟩, ha, hset⟩ := bind_eq_ok_iff.mp hread
  cases hset
  exact h hacc ha

def Countable (t : Tally) : Prop :=
  ∀ severity, t.get severity ≤ maxCount

namespace PartialTally

def fields : List (Expect.Field PartialTally) :=
  [ field "red" (natural maxCount) red fun p n => { p with red := n },
    field "yellow" (natural maxCount) yellow fun p n => { p with yellow := n },
    field "green" (natural maxCount) green fun p n => { p with green := n } ]

structure Bounded (p : PartialTally) : Prop where
  red : ∀ n ∈ p.red, n ≤ maxCount
  yellow : ∀ n ∈ p.yellow, n ≤ maxCount
  green : ∀ n ∈ p.green, n ≤ maxCount

theorem keeps_bounded : ∀ field ∈ fields, field.Keeps Bounded := by
  simp only [fields, List.forall_mem_cons, List.not_mem_nil, false_implies, implies_true, and_true]
  refine ⟨keeps_field fun hp hn => ⟨?_, hp.yellow, hp.green⟩,
    keeps_field fun hp hn => ⟨hp.red, ?_, hp.green⟩,
    keeps_field fun hp hn => ⟨hp.red, hp.yellow, ?_⟩⟩
  all_goals
    intro _ hsome
    cases hsome
    exact le_of_natural hn

theorem eq_of_complete? {p : PartialTally} {t : Tally} (h : p.complete? = some t) :
    p = ⟨some t.red, some t.yellow, some t.green⟩ := by
  simp only [complete?, Option.bind_eq_bind, Option.bind_eq_some_iff, Option.pure_def] at h
  obtain ⟨red, hred, yellow, hyellow, green, hgreen, htally⟩ := h
  cases htally
  cases p
  cases hred
  cases hyellow
  cases hgreen
  rfl

theorem fills {t : Tally} (ht : Countable t) :
    Fills fields {} [("red", .number (.natural t.red)), ("yellow", .number (.natural t.yellow)),
      ("green", .number (.natural t.green))] ⟨some t.red, some t.yellow, some t.green⟩ := by
  have hcount {n : Nat} (hn : n ≤ maxCount) :
      Recovers (natural maxCount) (.number (.natural n)) n := recovers_natural hn hn
  refine .member rfl rfl (recovers_field _ _ _ _ (hcount (ht .red))) ?_
  refine .member rfl rfl (recovers_field _ _ _ _ (hcount (ht .yellow))) ?_
  exact .member rfl rfl (recovers_field _ _ _ _ (hcount (ht .green))) .done

end PartialTally

theorem tally_read (fuel : Nat) :
    tally.read fuel = record fuel PartialTally.fields {} PartialTally.complete? := rfl

theorem tally_recovers {t : Tally} (ht : Countable t) {fuel : Nat} (hfuel : 3 < fuel) :
    Recovers (tally.read fuel) (tally.write t) t := by
  have hcomplete : PartialTally.complete? ⟨some t.red, some t.yellow, some t.green⟩ = some t := rfl
  rw [tally_read]
  exact (PartialTally.fills ht).recovers hcomplete hfuel

theorem tally_faithful : tally.Faithful Countable := by
  refine .of_valid (fun t ht => ?_) fun text t hparse => ?_
  · have hfuel : 3 < fuelFor (tally.render t).toList := length_lt_fuelFor_compact [_, _, _]
    exact parse_render_of_recovers (tally_recovers ht hfuel)
  · obtain ⟨rest, hread, -⟩ := parse_eq_ok_iff.mp hparse
    obtain ⟨p, hp, hcomplete⟩ :=
      exists_complete_of_record hread PartialTally.keeps_bounded ⟨nofun, nofun, nofun⟩
    cases PartialTally.eq_of_complete? hcomplete
    intro severity
    cases severity with
    | red => exact hp.red t.red rfl
    | yellow => exact hp.yellow t.yellow rfl
    | green => exact hp.green t.green rfl

/-! ### Annotations -/

namespace PartialAnnotation

def fields (fuel : Nat) : List (Expect.Field PartialAnnotation) :=
  [ field "line" (natural maxLine) line fun p n => { p with line := n },
    field "suggestion" string suggestion fun p s => { p with suggestion := s },
    field "severity" (Form.severity.read fuel) severity fun p s => { p with severity := s },
    field "color" string color fun p s => { p with color := s } ]

def Bounded (p : PartialAnnotation) : Prop :=
  ∀ n ∈ p.line, n ≤ maxLine

theorem keeps_bounded (fuel : Nat) : ∀ field ∈ fields fuel, field.Keeps Bounded := by
  simp only [fields, List.forall_mem_cons, List.not_mem_nil, false_implies, implies_true, and_true]
  refine ⟨keeps_field fun _ hn => ?_, keeps_field fun hp _ => hp, keeps_field fun hp _ => hp,
    keeps_field fun hp _ => hp⟩
  intro _ hsome
  cases hsome
  exact le_of_natural hn

theorem eq_of_complete? {p : PartialAnnotation} {a : Annotation} (h : p.complete? = some a) :
    p = ⟨some a.line, some a.suggestion, some a.severity, some a.color⟩ := by
  simp only [complete?, Option.bind_eq_bind, Option.bind_eq_some_iff, Option.pure_def] at h
  obtain ⟨line, hline, suggestion, hsuggestion, severity, hseverity, color, hcolor, ha⟩ := h
  cases ha
  cases p
  cases hline
  cases hsuggestion
  cases hseverity
  cases hcolor
  rfl

theorem fills {a : Annotation} (ha : a.line ≤ maxLine) (fuel : Nat) :
    Fills (fields fuel) {}
      [("line", .number (.natural a.line)), ("suggestion", .string a.suggestion),
        ("severity", .string a.severity.label), ("color", .string a.color)]
      ⟨some a.line, some a.suggestion, some a.severity, some a.color⟩ := by
  have hline := recovers_natural ha (Nat.le_trans ha (by decide))
  have hseverity := recovers_word a.severity.ofLabel?_label
  refine .member rfl rfl (recovers_field _ _ _ _ hline) ?_
  refine .member rfl rfl (recovers_field _ _ _ _ (recovers_string a.suggestion)) ?_
  refine .member rfl rfl (recovers_field _ _ _ _ hseverity) ?_
  exact .member rfl rfl (recovers_field _ _ _ _ (recovers_string a.color)) .done

theorem read_eq (fuel : Nat) :
    annotation.read fuel = record fuel (fields fuel) {} complete? := rfl

theorem recovers {a : Annotation} (ha : a.line ≤ maxLine) {fuel : Nat} (hfuel : 4 < fuel) :
    Recovers (Form.read annotation fuel) (Form.write annotation a) a := by
  have hcomplete : complete?
      ⟨some a.line, some a.suggestion, some a.severity, some a.color⟩ = some a := rfl
  rw [read_eq]
  exact (fills ha fuel).recovers hcomplete hfuel

end PartialAnnotation

theorem annotation_faithful : annotation.Faithful (·.line ≤ maxLine) := by
  refine .of_valid (fun a ha => ?_) fun text a hparse => ?_
  · have hfuel : 4 < fuelFor (Form.render annotation a).toList :=
      length_lt_fuelFor_compact [_, _, _, _]
    have hrecovers := PartialAnnotation.recovers ha hfuel
    exact parse_render_of_recovers hrecovers
  · obtain ⟨rest, hread, -⟩ := parse_eq_ok_iff.mp hparse
    have hkeeps := PartialAnnotation.keeps_bounded (fuelFor text.toList)
    obtain ⟨p, hp, hcomplete⟩ := exists_complete_of_record hread hkeeps nofun
    cases PartialAnnotation.eq_of_complete? hcomplete
    exact hp a.line rfl

/-- A list, an escape, and the word of a severity as a key are all taken. -/
example : annotation.parse " [3, \"a\\u0041\", \x7b\"green\": null\x7d, \"\"]\n" =
    .ok ⟨3, "aA", .green, ""⟩ := by
  rfl

end Form

/-! ## What is sent to a service -/

namespace Chat.Service

open Json

/-- Whether an item of a list is an object with the role and the content of a message. -/
def Sends (m : Message) (item : Json) : Prop :=
  ∃ members, item = .object members ∧ lookup? members "role" = some (.string m.role.label) ∧
    lookup? members "content" = some (.string m.content)

/-- Whether a value asks a model for a stream of its reply to messages, given in their order. -/
def Asks (model : String) (messages : List Message) (v : Json) : Prop :=
  ∃ members items, v = .object members ∧ lookup? members "model" = some (.string model) ∧
    lookup? members "stream" = some (.bool true) ∧
    lookup? members "messages" = some (.array items) ∧ List.Forall₂ Sends messages items

theorem sorted_toJson (m : Message) :
    m.toJson.sorted = .object [("content", .string m.content), ("role", .string m.role.label)] := by
  simp [Message.toJson, sorted, List.mergeSort]

theorem requestBody_eq (s : Service) (messages : List Message) :
    s.requestBody messages =
      .object [("messages", .array (messages.map (·.toJson.sorted))), ("model", .string s.model),
        ("stream", .bool true)] := by
  simp [requestBody, sorted, List.mergeSort]

theorem fits_requestBody (s : Service) (messages : List Message) :
    Fits maxDepth (s.requestBody messages) := by
  have hmessage (m : Message) : Fits (maxDepth - 2) m.toJson.sorted := by
    rw [sorted_toJson]
    refine .object ?_
    simp only [List.forall_mem_cons, List.not_mem_nil, false_implies, implies_true, and_true]
    exact ⟨.string _, .string _⟩
  rw [requestBody_eq]
  refine .object ?_
  simp only [List.forall_mem_cons, List.not_mem_nil, false_implies, implies_true, and_true]
  exact ⟨.array (List.forall_mem_map.mpr fun m _ => hmessage m), .string _, .bool true⟩

/-- The body of a request is read as what asks the model of the service. -/
theorem asks_requestBody (s : Service) (messages : List Message) :
    ∃ v, parseChars (s.requestBody messages).compact.toList = .ok v ∧ Asks s.model messages v := by
  refine ⟨_, parseChars_eq_ok_iff.mpr (s.fits_requestBody messages).spells,
    _, _, s.requestBody_eq messages, rfl, rfl, rfl, ?_⟩
  rw [List.forall₂_map_right_iff, List.forall₂_same]
  exact fun m _ => ⟨_, sorted_toJson m, rfl, rfl⟩

end Chat.Service

/-! ## All forms -/

/--
Every form gives back the values that it writes, and a value that it reads from any text is one of
those; no blank text is read where there must be content.  The body of a request is read as what
asks the model of the service for a stream, with the roles and the contents of the messages.
-/
theorem Form.all_faithful :
    Form.severity.Faithful (fun _ => True) ∧ Form.tally.Faithful Form.Countable ∧
    Form.role.Faithful (fun _ => True) ∧ Form.requirements.Faithful (fun _ => True) ∧
    Form.nonBlank.Faithful (fun _ => True) ∧ Form.text.Faithful (fun _ => True) ∧
    Form.annotation.Faithful (fun a => a.line ≤ maxLine) ∧
    (∀ text t, Form.nonBlank.parse text = .ok t ↔ Form.text.parse text = .ok t.text) ∧
    ∀ (s : Chat.Service) (messages : List Message), ∃ v,
      Json.parseChars (s.requestBody messages).compact.toList = .ok v ∧
      Chat.Service.Asks s.model messages v :=
  ⟨Form.severity_faithful, Form.tally_faithful, Form.role_faithful, Form.requirements_faithful,
    Form.nonBlank_faithful, Form.text_faithful, Form.annotation_faithful,
    fun _ _ => Form.nonBlank_parse_iff, Chat.Service.asks_requestBody⟩

end Marginalia
