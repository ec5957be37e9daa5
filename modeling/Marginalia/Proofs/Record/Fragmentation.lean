import Marginalia.Proofs.Record.Plain
import Marginalia.Proofs.Record.Unfinished

/-!
# Replies cut into fragments

A reply that holds records between texts without opening braces gives these records, in
their order, wherever it is cut.  The kept text is what came after the last record that is
complete, and the record after it is never complete in what is kept.
-/

namespace Marginalia

namespace Record

/-- A record of a reply, with the text in front of it. -/
structure Entry extends Spelling where
  gap : List Char
  noBrace : '\x7b' ∉ gap
  short : Decoder.byteCount (gap ++ text) ≤ Decoder.maxPendingBytes

namespace Entry

def chars (e : Entry) : List Char :=
  e.gap ++ e.text

/-- The characters of a reply with these entries and a text after them. -/
def reply (entries : List Entry) (tail : List Char) : List Char :=
  entries.flatMap chars ++ tail

/-- The entries that are complete in so many characters of a reply. -/
def completed : List Entry → Nat → List Entry
  | [], _ => []
  | e :: entries, n =>
      if e.chars.length ≤ n then e :: completed entries (n - e.chars.length) else []

theorem completed_append (done later : List Entry) (n : Nat) :
    completed (done ++ later) ((done.flatMap chars).length + n) = done ++ completed later n := by
  induction done with
  | nil => simp
  | cons e done ih =>
      rw [List.cons_append, completed, List.flatMap_cons, List.length_append, Nat.add_assoc,
        if_pos (Nat.le_add_right _ _), Nat.add_sub_cancel_left, ih, List.cons_append]

/-- Whether the first of the entries, if there is one, is longer than a text. -/
def Exceed (entries : List Entry) (front : List Char) : Prop :=
  ∀ e ∈ entries.head?, front.length < e.chars.length

theorem Exceed.completed_eq_nil {entries : List Entry} {front : List Char}
    (h : Exceed entries front) : completed entries front.length = [] := by
  cases entries with
  | nil => rfl
  | cons e entries => exact if_neg (Nat.not_le_of_lt (h e rfl))

theorem chars_length_pos (e : Entry) : 0 < e.chars.length := by
  have hcloser := e.closer_suffix.trans (List.suffix_append e.gap e.text)
  exact hcloser.length_le

/-- A text with these entries one after the other and no opening brace behind them. -/
inductive Carried : List Entry → List Char → Prop where
  | nil {text : List Char} (noBrace : '\x7b' ∉ text) : Carried [] text
  | cons (e : Entry) {entries : List Entry} {after : List Char} (next : Carried entries after) :
      Carried (e :: entries) (e.chars ++ after)

theorem carried_reply (entries : List Entry) {tail : List Char} (htail : '\x7b' ∉ tail) :
    Carried entries (reply entries tail) := by
  induction entries with
  | nil => exact .nil htail
  | cons e entries ih =>
      rw [reply, List.flatMap_cons, List.append_assoc]
      exact .cons e ih

theorem exists_more {front unread chars after : List Char} (h : front ++ unread = chars ++ after)
    (hlt : front.length < chars.length) : ∃ more, front ++ more = chars ∧ more ≠ [] := by
  obtain ⟨more, hmore⟩ := List.prefix_of_prefix_length_le ⟨unread, h⟩
    (List.prefix_append chars after) (Nat.le_of_lt hlt)
  refine ⟨more, hmore, ?_⟩
  rintro rfl
  rw [List.append_nil] at hmore
  exact absurd hlt (hmore ▸ Nat.lt_irrefl _)

theorem exists_after {front unread chars after : List Char} (h : front ++ unread = chars ++ after)
    (hle : chars.length ≤ front.length) : ∃ later, front = chars ++ later ∧
      later ++ unread = after := by
  obtain ⟨later, hlater⟩ := List.prefix_of_prefix_length_le (List.prefix_append chars after)
    ⟨unread, h⟩ hle
  refine ⟨later, hlater.symm, ?_⟩
  rw [← hlater, List.append_assoc] at h
  exact List.append_cancel_left h

end Entry

/-! ## Records in plain spelling -/

namespace Plain

variable (r : Plain)

theorem objects_members : Json.objects.ofMembers r.members = [] := by
  rw [members]
  induction r.fields with
  | nil => rfl
  | cons f fields ih =>
      rw [List.map_cons, Field.member, Json.objects.ofMembers, ih]
      cases f with
      | line _ => rfl
      | suggestion _ => rfl
      | severity _ => rfl

/-- A record in plain spelling has no record inside. -/
def spelling : Spelling where
  text := r.text
  members := r.members
  record := r.record
  whole := (firstObject?_eq_some_iff (Nat.le_succ _)).mpr r.reads
  spells := r.ofMembers?_members
  bare := by
    rw [r.objects_members]
    exact List.forall_mem_nil _

def entry (gap : List Char) (noBrace : '\x7b' ∉ gap)
    (short : Decoder.byteCount (gap ++ r.text) ≤ Decoder.maxPendingBytes) : Entry where
  toSpelling := r.spelling
  gap
  noBrace
  short

end Plain

open Entry

/-! ## Decoding a front of a reply -/

theorem decodeNext?_of_not_mem {pending : List Char} (h : '\x7b' ∉ pending) :
    decodeNext? pending = none := by
  rw [Option.eq_none_iff_forall_ne_some]
  intro decoded hdecoded
  obtain ⟨start, ms, hstart, hreads, -⟩ := decodeNext?_eq_some hdecoded
  obtain ⟨inner, hbrace, -⟩ := hreads.exists_brace_suffix hstart
  exact h (hbrace.subset List.mem_cons_self)

/-- The front of a reply gives the records of the entries that are complete in it. -/
theorem drained_front {entries : List Entry} {front unread : List Char}
    (h : Carried entries (front ++ unread)) :
    ∃ done later kept, entries = done ++ later ∧ front = done.flatMap chars ++ kept ∧
      drained front = (done.map (·.record), kept) ∧ Carried later (kept ++ unread) ∧
        Exceed later kept := by
  generalize hreply : front ++ unread = reply at h
  induction h generalizing front with
  | nil noBrace =>
      rw [← hreply] at noBrace
      have hnone := decodeNext?_of_not_mem fun hmem => noBrace (List.mem_append_left unread hmem)
      exact ⟨[], [], front, rfl, rfl, drained_of_none hnone, .nil noBrace, nofun⟩
  | @cons e entries after next ih =>
      by_cases hlt : front.length < e.chars.length
      · obtain ⟨more, hmore, hne⟩ := exists_more hreply hlt
        have hnone := e.decodeNext?_front e.noBrace hmore hne
        refine ⟨[], e :: entries, front, rfl, rfl, drained_of_none hnone, ?_, ?_⟩
        · rw [hreply]
          exact .cons e next
        · intro e' he'
          cases he'
          exact hlt
      · obtain ⟨later, hfront, hlater⟩ := exists_after hreply (Nat.le_of_not_lt hlt)
        obtain ⟨done, others, kept, hentries, hkept, hdrained, hcarried, hexceed⟩ := ih hlater
        have hsome := e.decodeNext?_complete e.noBrace later
        refine ⟨e :: done, others, kept, ?_, ?_, ?_, hcarried, hexceed⟩
        · rw [hentries, List.cons_append]
        · rw [hfront, hkept, List.flatMap_cons, List.append_assoc]
        · rw [hfront, chars, drained_of_some hsome, Decoded.rest, hdrained]
          rfl

namespace Decoder

/-! ## Taking in a fragment -/

theorem byteCount_append (text more : List Char) :
    byteCount (text ++ more) = byteCount text + byteCount more := by
  have hstart : ∀ (cs : List Char) (n : Nat),
      cs.foldl (fun n c => n + c.utf8Size) n = n + byteCount cs := by
    intro cs
    induction cs with
    | nil => exact fun n => rfl
    | cons c cs ih =>
        intro n
        rw [byteCount, List.foldl_cons, List.foldl_cons, ih, ih (0 + c.utf8Size), Nat.zero_add,
          Nat.add_assoc]
  rw [byteCount, List.foldl_append, hstart]
  rfl

theorem cap_of_exceed {e : Entry} {entries : List Entry} {kept unread : List Char}
    (hcarried : Carried (e :: entries) (kept ++ unread)) (hexceed : Exceed (e :: entries) kept) :
    cap kept = kept := by
  generalize hreply : kept ++ unread = reply at hcarried
  cases hcarried with
  | cons e next =>
      obtain ⟨more, hmore, -⟩ := exists_more hreply (hexceed e rfl)
      have hshort := e.short
      rw [← Entry.chars, ← hmore, byteCount_append] at hshort
      exact if_neg (by omega)

/-- A fragment that completes an entry carries a closing brace. -/
theorem mem_of_completes {e : Entry} {front fragment after : List Char}
    (hlt : front.length < e.chars.length) (h : front ++ fragment = e.chars ++ after) :
    '\x7d' ∈ fragment := by
  obtain ⟨more, hmore, hne⟩ := exists_more h hlt
  have hcloser : ['\x7d'] <:+ e.chars := e.closer_suffix.trans (List.suffix_append e.gap e.text)
  have hlast : ['\x7d'] <:+ more :=
    List.suffix_of_suffix_length_le hcloser ⟨front, hmore⟩ (List.length_pos_iff.mpr hne)
  rw [← hmore, List.append_assoc] at h
  rw [List.append_cancel_left h]
  exact List.mem_append_left after (hlast.subset List.mem_cons_self)

/-- A fragment gives the records of the entries it completes. -/
theorem push_of_carried {entries : List Entry} {d : Decoder} {fragment : String}
    {unread : List Char} (h : Carried entries (d.pending ++ fragment.toList ++ unread))
    (hexceed : Exceed entries d.pending) :
    ∃ done later kept, entries = done ++ later ∧
      d.pending ++ fragment.toList = done.flatMap chars ++ kept ∧
        d.push fragment = (done.map (·.record), ⟨cap kept⟩) ∧
          Carried later (kept ++ unread) ∧ Exceed later kept := by
  obtain ⟨done, later, kept, hentries, hkept, hdrained, hcarried, hlater⟩ := drained_front h
  refine ⟨done, later, kept, hentries, hkept, ?_, hcarried, hlater⟩
  by_cases hmem : '\x7d' ∈ fragment.toList
  · rw [push_of_brace hmem, hdrained]
  · -- nothing is decoded, and no entry is complete, as each ends in a closing brace
    rw [push_of_no_brace hmem]
    cases done with
    | nil => simp [hkept]
    | cons e done =>
        rw [List.flatMap_cons, List.append_assoc] at hkept
        exact absurd (mem_of_completes (hexceed e (by simp [hentries])) hkept) hmem

/-! ## Taking in many fragments -/

def pushAll (d : Decoder) : List String → List Record × Decoder
  | [] => ([], d)
  | fragment :: fragments =>
      let (records, d) := d.push fragment
      let (more, d) := pushAll d fragments
      (records ++ more, d)

theorem pushAll_cons (d : Decoder) (fragment : String) (fragments : List String) :
    (d.pushAll (fragment :: fragments)).1 =
      (d.push fragment).1 ++ ((d.push fragment).2.pushAll fragments).1 := rfl

theorem carried_cap {later : List Entry} {kept unread : List Char}
    (hcarried : Carried later (kept ++ unread)) (hexceed : Exceed later kept) :
    Carried later (cap kept ++ unread) ∧ Exceed later (cap kept) ∧
      ∀ n, completed later ((cap kept).length + n) = completed later (kept.length + n) := by
  cases later with
  | nil =>
      -- no brace opens in what is left, so it is of no use even where it is not cut off
      refine ⟨?_, nofun, fun n => rfl⟩
      generalize hreply : kept ++ unread = reply at hcarried
      cases hcarried with
      | nil noBrace =>
          rw [← hreply] at noBrace
          refine .nil ?_
          unfold cap
          split
          · exact fun hmem => noBrace (List.mem_append_right kept hmem)
          · exact noBrace
  | cons e later =>
      rw [cap_of_exceed hcarried hexceed]
      exact ⟨hcarried, hexceed, fun n => rfl⟩

/-- Any fragments of a reply give the records of the entries that are complete in them. -/
theorem pushAll_of_carried {entries : List Entry} {d : Decoder} {fragments : List String}
    {unread : List Char}
    (h : Carried entries (d.pending ++ (String.join fragments).toList ++ unread))
    (hexceed : Exceed entries d.pending) :
    (d.pushAll fragments).1 =
      (completed entries (d.pending.length + (String.join fragments).toList.length)).map
        (·.record) := by
  induction fragments generalizing entries d with
  | nil =>
      rw [String.join_nil, String.toList_empty, List.length_nil, Nat.add_zero,
        hexceed.completed_eq_nil]
      rfl
  | cons fragment fragments ih =>
      rw [String.join_cons, String.toList_append] at h ⊢
      rw [← List.append_assoc d.pending, List.append_assoc (d.pending ++ _)] at h
      obtain ⟨done, later, kept, hentries, hkept, hpush, hcarried, hlater⟩ :=
        push_of_carried h hexceed
      obtain ⟨hcarried', hlater', hcompleted⟩ := carried_cap hcarried hlater
      rw [← List.append_assoc] at hcarried'
      have hrest := ih (d := ⟨cap kept⟩) hcarried' hlater'
      rw [hcompleted] at hrest
      have hlength := congrArg List.length hkept
      rw [List.length_append, List.length_append] at hlength
      rw [pushAll_cons, hpush, hrest, hentries, List.length_append, ← Nat.add_assoc, hlength,
        Nat.add_assoc, completed_append, List.map_append]

/--
However a reply is cut into fragments, they give the records of its entries, each once and
in order.  Any front of the fragments gives those of the entries that are complete in it.
-/
theorem pushAll_fragments (entries : List Entry) (tail : List Char) (htail : '\x7b' ∉ tail)
    {fragments : List String}
    (hreply : (String.join fragments).toList = reply entries tail) :
    (pushAll {} fragments).1 = entries.map (·.record) ∧
      ∀ given, given <+: fragments →
        (pushAll {} given).1 =
          (completed entries (String.join given).toList.length).map (·.record) := by
  have hexceed : Exceed entries [] := fun e _ => e.chars_length_pos
  have hgiven : ∀ given, given <+: fragments → (pushAll {} given).1 =
      (completed entries (String.join given).toList.length).map (·.record) := by
    rintro given ⟨unread, rfl⟩
    rw [String.join_append, String.toList_append] at hreply
    have hcarried := carried_reply entries htail
    rw [← hreply] at hcarried
    have hpush := pushAll_of_carried (d := {}) hcarried hexceed
    rwa [List.length_nil, Nat.zero_add] at hpush
  refine ⟨?_, hgiven⟩
  have hall := completed_append entries [] tail.length
  rw [List.append_nil, completed, List.append_nil] at hall
  rw [hgiven fragments (List.prefix_refl fragments), hreply, reply, List.length_append, hall]

/-- A suggestion that looks like a record itself, as it is spelled in a record. -/
theorem bracedSuggestion_body :
    Json.Body "\x7b\\\"line\\\":2\x7d\"".toList "\x7b\"line\":2\x7d".toList [] := by
  have hread : Json.stringBody true .plain [] "\x7b\\\"line\\\":2\x7d\"".toList =
      .ok ("\x7b\"line\":2\x7d", []) := rfl
  obtain ⟨cs, hcs, hbody⟩ := Json.Body.of_stringBody hread
  have htext : "\x7b\"line\":2\x7d".toList = cs := by
    rw [hcs]
    exact String.toList_ofList
  rw [htext]
  exact hbody

/-- The second fragment closes a brace inside the suggestion, and completes nothing. -/
theorem pushAll_bracedSuggestion :
    (pushAll {} ["Sure: \x7b\"line\":1,\"sugg", "estion\":\"\x7b\\\"line\\\":2\x7d",
      "\"\x7d done"]).1 =
        [⟨1, ⟨"\x7b\"line\":2\x7d", by decide +kernel⟩, .unrecognized ""⟩] :=
  let r : Plain := .compact (by decide) ⟨"\x7b\"line\":2\x7d", by decide +kernel⟩
    bracedSuggestion_body
  (pushAll_fragments [r.entry "Sure: ".toList (by decide +kernel) (by decide +kernel)]
    " done".toList (by decide +kernel) (by decide +kernel)).1

end Decoder

end Record

end Marginalia
