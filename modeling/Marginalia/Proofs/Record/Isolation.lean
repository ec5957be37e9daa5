import Marginalia.Proofs.Record.Drain
import Marginalia.Proofs.Record.Plain

/-!
# Records behind a malformed text

Whatever is kept when a fragment arrives, a record in plain spelling at the end of the
fragment is decoded last, and nothing is kept after it.  Each decoding takes a piece in
front of the record or the record itself, so the decodings come to it in the end.
-/

namespace Marginalia

namespace Record

section

variable {body : List Char} {members : List (String × Json)} {record : Record}

/-- Resynchronising in front of an anchored record finds something in front of it, or the record. -/
theorem resync?_anchored {fuel : Nat} {text : List Char} (anchored : Json.Anchored body members)
    (hrecord : ofMembers? members = some record) (hfuel : text.length ≤ fuel)
    (hsuffix : '\x7b' :: body <:+ text) :
    ∃ found rest, resync? fuel text = some (found, rest) ∧
      ('\x7b' :: body <:+ rest ∨ found = record ∧ rest = []) := by
  induction text with
  | nil => exact absurd (List.suffix_nil.mp hsuffix) (List.cons_ne_nil _ _)
  | cons c text ih =>
      rcases List.suffix_cons_iff.mp hsuffix with heq | hlater
      · cases heq
        exact ⟨record, [], resync?_of_reads hfuel anchored.whole hrecord, .inr ⟨rfl, rfl⟩⟩
      · have hnext := ih (Nat.le_of_succ_le hfuel) hlater
        rw [resync?]
        by_cases hc : c = '\x7b'
        · rw [if_pos hc]
          cases hobject : firstObject? fuel (c :: text) with
          | none => exact hnext
          | some object =>
              obtain ⟨ms, rest⟩ := object
              cases hms : ofMembers? ms with
              | none => simpa only [hms] using hnext
              | some found =>
                  refine ⟨found, rest, by simp only [hms], ?_⟩
                  have hreads := (firstObject?_eq_some_iff hfuel).mp hobject
                  rcases hreads.approach anchored hsuffix with hbefore | ⟨rfl, hrest⟩
                  · exact .inl hbefore
                  · rw [hms] at hrecord
                    exact .inr ⟨Option.some.inj hrecord, hrest⟩
        · rw [if_neg hc]
          exact hnext

/-- A decoding in front of an anchored record takes something in front of it, or the record. -/
theorem decodeNext?_anchored {pending : List Char} (anchored : Json.Anchored body members)
    (hrecord : ofMembers? members = some record) (hsuffix : '\x7b' :: body <:+ pending) :
    ∃ decoded, decodeNext? pending = some decoded ∧
      ('\x7b' :: body <:+ decoded.rest ∨ decoded = .record record []) := by
  have hfuel : pending.length ≤ Json.fuelFor pending := Nat.le_succ _
  rw [decodeNext?]
  cases hobject : firstObject? (Json.fuelFor pending) pending with
  | some object =>
      obtain ⟨ms, rest⟩ := object
      have hreads := (firstObject?_eq_some_iff hfuel).mp hobject
      have happroach := hreads.approach anchored hsuffix
      cases hms : ofMembers? ms with
      | none =>
          refine ⟨.discarded rest, by simp only [hms], ?_⟩
          rcases happroach with hbefore | ⟨rfl, -⟩
          · exact .inl hbefore
          · rw [hms] at hrecord
            cases hrecord
      | some found =>
          refine ⟨.record found rest, by simp only [hms], ?_⟩
          rcases happroach with hbefore | ⟨rfl, rfl⟩
          · exact .inl hbefore
          · rw [hms] at hrecord
            exact .inr (by rw [Option.some.inj hrecord])
  | none =>
      cases pending with
      | nil => exact absurd (List.suffix_nil.mp hsuffix) (List.cons_ne_nil _ _)
      | cons c text =>
          rcases List.suffix_cons_iff.mp hsuffix with heq | hlater
          · cases heq
            have hfirst := (firstObject?_eq_some_iff hfuel).mpr anchored.whole
            rw [hfirst] at hobject
            cases hobject
          · obtain ⟨found, rest, hresync, hfound⟩ :=
              resync?_anchored anchored hrecord (Nat.le_of_succ_le hfuel) hlater
            refine ⟨.record found rest, by simp only [List.tail_cons, hresync]; rfl, ?_⟩
            rcases hfound with hbefore | ⟨rfl, rfl⟩
            · exact .inl hbefore
            · exact .inr rfl

/-- What can be decoded of a text that ends in an anchored record ends in that record. -/
theorem drained_anchored {pending : List Char} (anchored : Json.Anchored body members)
    (hrecord : ofMembers? members = some record) (hsuffix : '\x7b' :: body <:+ pending) :
    ∃ earlier, drained pending = (earlier ++ [record], []) := by
  induction hlength : pending.length using Nat.strongRecOn generalizing pending with
  | ind n ih =>
      obtain ⟨decoded, hdecoded, hfound⟩ := decodeNext?_anchored anchored hrecord hsuffix
      rw [drained_of_some hdecoded]
      rcases hfound with hbefore | rfl
      · have hlt := (brace_suffix_of_decodeNext? hdecoded).length_le
        rw [List.length_cons, hlength] at hlt
        obtain ⟨earlier, hearlier⟩ := ih _ hlt hbefore rfl
        refine ⟨decoded.record?.toList ++ earlier, ?_⟩
        rw [hearlier, List.append_assoc]
      · exact ⟨[], rfl⟩

end

namespace Decoder

/--
Whatever is kept and whatever comes first in a fragment, a record in plain spelling at its
end is given last, and nothing is kept.
-/
theorem push_plain (r : Plain) (d : Decoder) (ahead : String) :
    ∃ earlier, d.push (ahead ++ String.ofList r.text) = (earlier ++ [r.record], {}) := by
  have hpending : d.pending ++ (ahead ++ String.ofList r.text).toList =
      d.pending ++ ahead.toList ++ r.text := by
    rw [String.toList_append, String.toList_ofList, List.append_assoc]
  have hsuffix : r.text <:+ d.pending ++ ahead.toList ++ r.text := List.suffix_append _ _
  have hmem : '\x7d' ∈ (ahead ++ String.ofList r.text).toList := by
    rw [String.toList_append, String.toList_ofList]
    exact List.mem_append_right _ (r.reads.closer_suffix.subset List.mem_cons_self)
  obtain ⟨earlier, hdrained⟩ := drained_anchored r.anchored r.ofMembers?_members hsuffix
  refine ⟨earlier, ?_⟩
  rw [push_of_brace hmem, hpending, hdrained]
  rfl

example :
    (push ⟨"[\x7b\"note\": \"half an escape \\u00".toList⟩
      "\x7b\"line\":1,\"suggestion\":\"a\"\x7d").1 =
        [⟨1, ⟨"a", by decide⟩, .unrecognized ""⟩] := by
  decide +kernel

end Decoder

end Record

end Marginalia
