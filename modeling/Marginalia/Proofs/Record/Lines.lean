import Marginalia.Proofs.Record.Drain
import Marginalia.Record.Feed

/-!
# Line numbers of the records of a reply

No record that is read from a reply has a line number too great to be written.
-/

namespace Marginalia

namespace Record

def IsSmall (record : Record) : Prop :=
  record.line ≤ maxLine

theorem isSmall_of_ofMembers? {ms : List (String × Json)} {record : Record}
    (h : ofMembers? ms = some record) : record.IsSmall := by
  simp only [ofMembers?, Option.bind_eq_bind, Option.bind_eq_some_iff] at h
  obtain ⟨line, ⟨value, -, hline⟩, word, -, suggestion, -, hrecord⟩ := h
  cases hrecord
  unfold lineOf? at hline
  split at hline
  · split at hline
    · next hle =>
        cases hline
        exact hle
    · cases hline
  · cases hline

theorem isSmall_of_mem_drained {pending : List Char} {record : Record}
    (h : record ∈ (drained pending).1) : record.IsSmall := by
  induction hlength : pending.length using Nat.strongRecOn generalizing pending with
  | ind n ih =>
      cases hdecode : decodeNext? pending with
      | none =>
          rw [drained_of_none hdecode] at h
          cases h
      | some decoded =>
          rw [drained_of_some hdecode] at h
          rcases List.mem_append.mp h with hfirst | hlater
          · obtain ⟨start, ms, -, -, hms⟩ := decodeNext?_eq_some hdecode
            rw [Option.mem_toList] at hfirst
            exact isSmall_of_ofMembers? (hms.trans hfirst)
          · have hlt := (brace_suffix_of_decodeNext? hdecode).length_le
            rw [List.length_cons, hlength] at hlt
            exact ih _ hlt hlater rfl

theorem Decoder.isSmall_of_mem_push {d : Decoder} {fragment : String} {record : Record}
    (h : record ∈ (d.push fragment).1) : record.IsSmall := by
  by_cases hmem : '\x7d' ∈ fragment.toList
  · rw [push_of_brace hmem] at h
    exact isSmall_of_mem_drained h
  · rw [push_of_no_brace hmem] at h
    cases h

namespace Feed

def IsSmall (feed : Feed) : Prop :=
  ∀ record ∈ feed.ready, record.IsSmall

theorem isSmall_of_refill {decoder : Decoder} {events : List Model.Event} {record : Record}
    {feed : Feed} (h : refill decoder events = .record record feed) :
    record.IsSmall ∧ feed.IsSmall := by
  induction events generalizing decoder with
  | nil => cases h
  | cons event events ih =>
      cases event with
      | fragment text =>
          rw [refill] at h
          split at h
          · exact ih h
          · next first ready decoder' hpush =>
              have hsmall : ∀ r ∈ first :: ready, r.IsSmall := by
                intro r hr
                have hmem : r ∈ (decoder.push text).1 := by
                  rw [hpush]
                  exact hr
                exact Decoder.isSmall_of_mem_push hmem
              cases h
              exact ⟨hsmall _ List.mem_cons_self,
                fun r hr => hsmall r (List.mem_cons_of_mem _ hr)⟩
      | _ => cases h

/-- Every record that is read has a line number that can be written. -/
theorem isSmall_of_next {feed feed' : Feed} {record : Record} (hfeed : feed.IsSmall)
    (h : feed.next = .record record feed') : record.IsSmall ∧ feed'.IsSmall := by
  unfold next at h
  split at h
  · cases h
  · split at h
    · next first ready hready =>
        cases h
        rw [IsSmall, hready] at hfeed
        exact ⟨hfeed _ List.mem_cons_self, fun r hr => hfeed r (List.mem_cons_of_mem _ hr)⟩
    · split at h
      · cases h
      · exact isSmall_of_refill h

theorem ready_of_refill_waiting {decoder : Decoder} {events : List Model.Event} {feed : Feed}
    (h : refill decoder events = .waiting feed) : feed.ready = [] := by
  induction events generalizing decoder with
  | nil => cases h
  | cons event events ih =>
      cases event with
      | fragment text =>
          rw [refill] at h
          split at h
          · exact ih h
          · cases h
      | failure _ => cases h
      | cancellation => cases h
      | pause =>
          cases h
          rfl
      | stall =>
          cases h
          rfl

theorem isSmall_of_next_waiting {feed feed' : Feed} (h : feed.next = .waiting feed') :
    feed'.IsSmall := by
  have hready : feed'.ready = [] := by
    unfold next at h
    split at h
    · cases h
    · split at h
      · cases h
      · split at h
        · cases h
        · exact ready_of_refill_waiting h
  rw [IsSmall, hready]
  exact List.forall_mem_nil _

end Feed

end Record

end Marginalia
