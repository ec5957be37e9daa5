import Marginalia.Proofs.Json.Quoting
import Marginalia.Record.Decoder

/-!
# Decoding until nothing is left to decode

Each object that a decoding takes ends in a closing brace, so the bound on the number of
decodings is never what ends them.  The equations here describe the loop without it.
-/

namespace Marginalia

namespace Record

open Json (Reads)

/-! ## Objects -/

theorem firstObject?_eq_some_iff {fuel : Nat} {text rest : List Char}
    {ms : List (String × Json)} (hfuel : text.length ≤ fuel) :
    firstObject? fuel text = some (ms, rest) ↔
      Reads Json.maxDepth text (.value (.object ms)) rest := by
  rw [← Json.value_eq_ok_iff hfuel, firstObject?]
  split
  · next ms' rest' hvalue => simp [hvalue]
  · next hvalue =>
      constructor
      · intro h
        cases h
      · intro h
        exact absurd h (hvalue ms rest)

theorem firstObject?_eq_none_iff {fuel : Nat} {text : List Char} (hfuel : text.length ≤ fuel) :
    firstObject? fuel text = none ↔
      ∀ ms rest, ¬ Reads Json.maxDepth text (.value (.object ms)) rest := by
  rw [Option.eq_none_iff_forall_ne_some]
  constructor
  · intro h ms rest hreads
    exact h (ms, rest) ((firstObject?_eq_some_iff hfuel).mpr hreads)
  · rintro h ⟨ms, rest⟩ hsome
    exact h ms rest ((firstObject?_eq_some_iff hfuel).mp hsome)

/-! ## One decoding -/

namespace Decoded

def record? : Decoded → Option Record
  | .record r _ => some r
  | .discarded _ => none

def rest : Decoded → List Char
  | .record _ rest => rest
  | .discarded rest => rest

end Decoded

theorem resync?_eq_some {fuel : Nat} {text rest : List Char} {record : Record}
    (hfuel : text.length ≤ fuel) (h : resync? fuel text = some (record, rest)) :
    ∃ start ms, start <:+ text ∧ Reads Json.maxDepth start (.value (.object ms)) rest ∧
      ofMembers? ms = some record := by
  induction text with
  | nil => cases h
  | cons c text ih =>
      have hfuel' : text.length ≤ fuel := Nat.le_of_succ_le hfuel
      have hlater : resync? fuel text = some (record, rest) →
          ∃ start ms, start <:+ c :: text ∧
            Reads Json.maxDepth start (.value (.object ms)) rest ∧
              ofMembers? ms = some record := by
        intro hrest
        obtain ⟨start, ms, hstart, hreads, hms⟩ := ih hfuel' hrest
        exact ⟨start, ms, hstart.trans (List.suffix_cons c text), hreads, hms⟩
      rw [resync?] at h
      split at h
      · split at h
        · next ms rest' hobject =>
            split at h
            · next record' hms =>
                cases h
                exact ⟨c :: text, ms, List.suffix_refl _,
                  (firstObject?_eq_some_iff hfuel).mp hobject, hms⟩
            · exact hlater h
        · exact hlater h
      · exact hlater h

theorem resync?_append {fuel : Nat} {lead : List Char} (hlead : '\x7b' ∉ lead)
    (text : List Char) : resync? fuel (lead ++ text) = resync? fuel text := by
  induction lead with
  | nil => rfl
  | cons c lead ih =>
      have hc : c ≠ '\x7b' := fun h => hlead (h ▸ List.mem_cons_self)
      rw [List.cons_append, resync?, if_neg hc]
      exact ih fun hmem => hlead (List.mem_cons_of_mem c hmem)

theorem resync?_of_reads {fuel : Nat} {inner rest : List Char} {ms : List (String × Json)}
    {record : Record} (hfuel : ('\x7b' :: inner).length ≤ fuel)
    (hreads : Reads Json.maxDepth ('\x7b' :: inner) (.value (.object ms)) rest)
    (hms : ofMembers? ms = some record) :
    resync? fuel ('\x7b' :: inner) = some (record, rest) := by
  rw [resync?, if_pos rfl, (firstObject?_eq_some_iff hfuel).mpr hreads]
  simp [hms]

theorem decodeNext?_eq_some {pending : List Char} {decoded : Decoded}
    (h : decodeNext? pending = some decoded) :
    ∃ start ms, start <:+ pending ∧
      Reads Json.maxDepth start (.value (.object ms)) decoded.rest ∧
        ofMembers? ms = decoded.record? := by
  have hfuel : pending.length ≤ Json.fuelFor pending := Nat.le_succ _
  simp only [decodeNext?] at h
  split at h
  · next ms rest hobject =>
      have hreads := (firstObject?_eq_some_iff hfuel).mp hobject
      split at h
      · next record hms =>
          cases h
          exact ⟨pending, ms, List.suffix_refl _, hreads, hms⟩
      · next hms =>
          cases h
          exact ⟨pending, ms, List.suffix_refl _, hreads, hms⟩
  · obtain ⟨⟨record, rest⟩, hresync, hdecoded⟩ := Option.map_eq_some_iff.mp h
    cases hdecoded
    have htail := List.tail_suffix pending
    obtain ⟨start, ms, hstart, hreads, hms⟩ :=
      resync?_eq_some (Nat.le_trans htail.length_le hfuel) hresync
    exact ⟨start, ms, hstart.trans htail, hreads, hms⟩

theorem brace_suffix_of_decodeNext? {pending : List Char} {decoded : Decoded}
    (h : decodeNext? pending = some decoded) : '\x7d' :: decoded.rest <:+ pending := by
  obtain ⟨start, ms, hstart, hreads, -⟩ := decodeNext?_eq_some h
  exact hreads.closer_suffix.trans hstart

theorem count_rest_lt {pending : List Char} {decoded : Decoded}
    (h : decodeNext? pending = some decoded) :
    decoded.rest.count '\x7d' < pending.count '\x7d' := by
  have hle := (brace_suffix_of_decodeNext? h).sublist.count_le '\x7d'
  rw [List.count_cons_self] at hle
  exact hle

theorem mem_of_decodeNext? {pending : List Char} {decoded : Decoded}
    (h : decodeNext? pending = some decoded) : '\x7d' ∈ pending :=
  (brace_suffix_of_decodeNext? h).subset List.mem_cons_self

/-! ## Where nothing can be decoded -/

/-- Where resynchronising finds nothing, no object of the text spells a record. -/
theorem ofMembers?_of_resync?_eq_none {fuel : Nat} {text inner rest : List Char}
    {ms : List (String × Json)} (hfuel : text.length ≤ fuel) (h : resync? fuel text = none)
    (hstart : '\x7b' :: inner <:+ text)
    (hreads : Reads Json.maxDepth ('\x7b' :: inner) (.value (.object ms)) rest) :
    ofMembers? ms = none := by
  induction text with
  | nil => exact absurd (List.suffix_nil.mp hstart) (List.cons_ne_nil _ _)
  | cons c text ih =>
      rw [← Option.not_isSome_iff_eq_none]
      intro hsome
      obtain ⟨record, hrecord⟩ := Option.isSome_iff_exists.mp hsome
      rcases List.suffix_cons_iff.mp hstart with heq | hlater
      · rw [← heq, resync?_of_reads (heq ▸ hfuel) hreads hrecord] at h
        cases h
      · have hnone : resync? fuel text = none := by
          rw [resync?] at h
          split at h
          · split at h
            · split at h
              · cases h
              · exact h
            · exact h
          · exact h
        rw [ih (Nat.le_of_succ_le hfuel) hnone hlater] at hrecord
        cases hrecord

theorem reads_of_discarded {pending rest : List Char}
    (h : decodeNext? pending = some (.discarded rest)) :
    ∃ ms, Reads Json.maxDepth pending (.value (.object ms)) rest ∧ ofMembers? ms = none := by
  simp only [decodeNext?] at h
  split at h
  · next ms rest' hobject =>
      split at h
      · cases h
      · next hms =>
          cases h
          exact ⟨ms, (firstObject?_eq_some_iff (Nat.le_succ _)).mp hobject, hms⟩
  · obtain ⟨found, -, hfound⟩ := Option.map_eq_some_iff.mp h
    cases hfound

/-- Nothing can be decoded where no object starts the text and no object in it spells a record. -/
theorem decodeNext?_eq_none_iff {pending : List Char} :
    decodeNext? pending = none ↔
      (∀ ms rest, ¬ Reads Json.maxDepth pending (.value (.object ms)) rest) ∧
        ∀ start ms rest, start <:+ pending →
          Reads Json.maxDepth start (.value (.object ms)) rest → ofMembers? ms = none := by
  have hfuel : pending.length ≤ Json.fuelFor pending := Nat.le_succ _
  constructor
  · intro h
    simp only [decodeNext?] at h
    split at h
    · split at h
      · cases h
      · cases h
    · next hobject =>
        have hfirst := (firstObject?_eq_none_iff hfuel).mp hobject
        have hlater := Option.map_eq_none_iff.mp h
        refine ⟨hfirst, fun start ms rest hstart hreads => ?_⟩
        cases pending with
        | nil =>
            rw [List.suffix_nil.mp hstart] at hreads
            exact absurd hreads (hfirst ms rest)
        | cons c text =>
            rcases List.suffix_cons_iff.mp hstart with rfl | hsuffix
            · exact absurd hreads (hfirst ms rest)
            · obtain ⟨inner, hbrace, hinner⟩ := hreads.exists_brace_suffix hsuffix
              exact ofMembers?_of_resync?_eq_none (Nat.le_of_succ_le hfuel) hlater hbrace hinner
  · rintro ⟨hfirst, hnone⟩
    rw [Option.eq_none_iff_forall_ne_some]
    intro decoded hdecoded
    obtain ⟨start, ms, hstart, hreads, hms⟩ := decodeNext?_eq_some hdecoded
    rw [hnone start ms _ hstart hreads] at hms
    cases decoded with
    | record record rest => cases hms
    | discarded rest =>
        obtain ⟨ms', hreads', -⟩ := reads_of_discarded hdecoded
        exact hfirst ms' rest hreads'

/-! ## The loop -/

/-- All that can be decoded from a text, and what is left of it. -/
def drained (pending : List Char) : List Record × List Char :=
  drain (pending.count '\x7d') pending

theorem drain_of_not_mem {fuel : Nat} {pending : List Char} (h : '\x7d' ∉ pending) :
    drain fuel pending = ([], pending) := by
  cases fuel with
  | zero => rfl
  | succ fuel => simp [drain, h]

/-- The bound on decodings makes no difference as long as it counts the closing braces. -/
theorem drain_congr {fuel fuel' : Nat} {pending : List Char} (h : pending.count '\x7d' ≤ fuel)
    (h' : pending.count '\x7d' ≤ fuel') : drain fuel pending = drain fuel' pending := by
  induction fuel generalizing fuel' pending with
  | zero =>
      have hnot : '\x7d' ∉ pending := List.count_eq_zero.mp (Nat.le_zero.mp h)
      rw [drain_of_not_mem hnot, drain_of_not_mem hnot]
  | succ fuel ih =>
      by_cases hmem : '\x7d' ∈ pending
      · have hpos := List.count_pos_iff.mpr hmem
        obtain ⟨fuel', rfl⟩ := Nat.exists_eq_succ_of_ne_zero (by omega : fuel' ≠ 0)
        rw [drain, drain]
        cases hdecode : decodeNext? pending with
        | none => rfl
        | some decoded =>
            -- the decoding takes a closing brace, so both bounds suit the rest
            have hlt := count_rest_lt hdecode
            have hrest : drain fuel decoded.rest = drain fuel' decoded.rest :=
              ih (by omega) (by omega)
            cases decoded with
            | record record rest =>
                rw [Decoded.rest] at hrest
                simp only [hrest]
            | discarded rest =>
                rw [Decoded.rest] at hrest
                simp only [hrest]
      · rw [drain_of_not_mem hmem, drain_of_not_mem hmem]

theorem drained_of_none {pending : List Char} (h : decodeNext? pending = none) :
    drained pending = ([], pending) := by
  unfold drained
  cases hcount : pending.count '\x7d' with
  | zero => rfl
  | succ fuel =>
      rw [drain, h]
      split <;> rfl

theorem drained_of_some {pending : List Char} {decoded : Decoded}
    (h : decodeNext? pending = some decoded) :
    drained pending =
      (decoded.record?.toList ++ (drained decoded.rest).1, (drained decoded.rest).2) := by
  have hmem := mem_of_decodeNext? h
  have hlt := count_rest_lt h
  have hpos := List.count_pos_iff.mpr hmem
  obtain ⟨fuel, hfuel⟩ := Nat.exists_eq_succ_of_ne_zero (Nat.ne_zero_of_lt hpos)
  have hrest : drain fuel decoded.rest = drained decoded.rest :=
    drain_congr (by omega) (Nat.le_refl _)
  unfold drained at hrest ⊢
  rw [hfuel, drain, if_pos (List.contains_iff_mem.mpr hmem), h]
  cases decoded with
  | record record rest =>
      rw [Decoded.rest] at hrest
      simp [hrest, Decoded.record?, Decoded.rest]
  | discarded rest =>
      rw [Decoded.rest] at hrest
      simp [hrest, Decoded.record?, Decoded.rest]

namespace Decoder

theorem push_of_brace {d : Decoder} {fragment : String} (h : '\x7d' ∈ fragment.toList) :
    d.push fragment =
      ((drained (d.pending ++ fragment.toList)).1,
        ⟨cap (drained (d.pending ++ fragment.toList)).2⟩) := by
  simp [push, drained, h]

theorem push_of_no_brace {d : Decoder} {fragment : String} (h : '\x7d' ∉ fragment.toList) :
    d.push fragment = ([], ⟨cap (d.pending ++ fragment.toList)⟩) := by
  simp [push, h]

end Decoder

end Record

end Marginalia
