import Marginalia.Chat.EventStream

/-!
# The end of an event

An event ends at the first blank line, which is written with line feeds alone or with a
return in front of each.  A blank line found in part of a body is the first one of the
whole body: no longer one that began before it could have been cut off.
-/

namespace Marginalia

namespace Chat

namespace EventStream

/-- The two ways to write the end of a line and a blank line after it. -/
inductive IsBoundary : List UInt8 → Prop where
  | feeds : IsBoundary [10, 10]
  | returns : IsBoundary [13, 10, 13, 10]

def afterBoundary? : List UInt8 → Option (List UInt8)
  | 10 :: 10 :: rest => some rest
  | 13 :: 10 :: 13 :: 10 :: rest => some rest
  | _ => none

theorem afterBoundary?_eq_some_iff {bytes rest : List UInt8} :
    afterBoundary? bytes = some rest ↔
      ∃ boundary, IsBoundary boundary ∧ bytes = boundary ++ rest := by
  constructor
  · intro h
    unfold afterBoundary? at h
    split at h
    · cases h
      exact ⟨_, .feeds, rfl⟩
    · cases h
      exact ⟨_, .returns, rfl⟩
    · cases h
  · rintro ⟨boundary, hboundary, rfl⟩
    cases hboundary with
    | feeds => rfl
    | returns => rfl

theorem splitEventFrom_append (acc front bytes : List UInt8) :
    splitEventFrom (acc ++ front) bytes =
      (splitEventFrom acc bytes).map fun found => (front.reverse ++ found.1, found.2) := by
  fun_induction splitEventFrom acc bytes with
  | case1 acc => rfl
  | case2 acc rest => simp [splitEventFrom]
  | case3 acc rest => simp [splitEventFrom]
  | case4 acc b rest hfeeds hreturns ih =>
      rw [splitEventFrom, ← ih]
      · rfl
      · exact hfeeds
      · exact hreturns

theorem splitEvent?_cons (b : UInt8) (bytes : List UInt8) :
    splitEvent? (b :: bytes) =
      match afterBoundary? (b :: bytes) with
      | some rest => some ([], rest)
      | none => (splitEvent? bytes).map fun found => (b :: found.1, found.2) := by
  rw [splitEvent?, splitEventFrom.eq_def]
  split
  · next h => cases h
  · next h =>
      rw [h]
      rfl
  · next h =>
      rw [h]
      rfl
  · next hfeeds hreturns h =>
      cases h
      have hnone : afterBoundary? (b :: bytes) = none := by
        unfold afterBoundary?
        split
        · next h =>
            cases h
            exact absurd rfl (hfeeds _ rfl)
        · next h =>
            cases h
            exact absurd rfl (hreturns _ rfl)
        · rfl
      rw [hnone]
      exact splitEventFrom_append [] [b] bytes

/-- An event in front of the first boundary of some bytes, and what is behind it. -/
structure IsFirst (event rest bytes : List UInt8) : Prop where
  boundary : ∃ boundary, IsBoundary boundary ∧ bytes = event ++ boundary ++ rest
  earlier : ∀ n < event.length, afterBoundary? (bytes.drop n) = none

theorem isFirst_nil {rest bytes : List UInt8} :
    IsFirst [] rest bytes ↔ afterBoundary? bytes = some rest := by
  rw [afterBoundary?_eq_some_iff]
  exact ⟨fun h => h.boundary, fun h => ⟨h, nofun⟩⟩

theorem isFirst_cons {b c : UInt8} {event rest bytes : List UInt8} :
    IsFirst (c :: event) rest (b :: bytes) ↔
      afterBoundary? (b :: bytes) = none ∧ b = c ∧ IsFirst event rest bytes := by
  constructor
  · rintro ⟨⟨boundary, hboundary, hbytes⟩, hearlier⟩
    cases hbytes
    have hahead := hearlier 0 (Nat.zero_lt_succ _)
    refine ⟨hahead, rfl, ⟨boundary, hboundary, rfl⟩, fun n hn => ?_⟩
    exact hearlier (n + 1) (Nat.succ_lt_succ hn)
  · rintro ⟨hahead, rfl, ⟨boundary, hboundary, hbytes⟩, hearlier⟩
    refine ⟨⟨boundary, hboundary, by rw [hbytes]; rfl⟩, fun n hn => ?_⟩
    cases n with
    | zero => exact hahead
    | succ n => exact hearlier n (Nat.lt_of_succ_lt_succ hn)

theorem not_isFirst_nil (event rest : List UInt8) : ¬ IsFirst event rest [] := by
  rintro ⟨⟨boundary, hboundary, h⟩, -⟩
  cases hboundary with
  | feeds => simp at h
  | returns => simp at h

/-- The event that is split off is the one in front of the first boundary. -/
theorem splitEvent?_eq_some_iff {bytes event rest : List UInt8} :
    splitEvent? bytes = some (event, rest) ↔ IsFirst event rest bytes := by
  induction bytes generalizing event with
  | nil => exact ⟨nofun, fun h => absurd h (not_isFirst_nil event rest)⟩
  | cons b bytes ih =>
      rw [splitEvent?_cons]
      cases hahead : afterBoundary? (b :: bytes) with
      | some after =>
          cases event with
          | nil => simp [isFirst_nil, hahead]
          | cons c event => simp [isFirst_cons, hahead]
      | none =>
          cases event with
          | nil => simp [isFirst_nil, hahead]
          | cons c event =>
              rw [isFirst_cons, ← ih]
              cases splitEvent? bytes with
              | none => simp
              | some found => simp [hahead, Prod.ext_iff, and_assoc]

/-- The beginning of a boundary, but for its first byte, holds no other one. -/
theorem splitEvent?_of_prefix_tail {boundary bytes : List UInt8} (hboundary : IsBoundary boundary)
    (hfront : bytes <+: boundary.tail) : splitEvent? bytes = none := by
  rw [List.prefix_iff_eq_take.mp hfront]
  generalize bytes.length = n
  cases hboundary with
  | feeds =>
      match n with
      | 0 => rfl
      | n + 1 => rw [List.take_of_length_le (by simp)]; rfl
  | returns =>
      match n with
      | 0 => rfl
      | 1 => rfl
      | 2 => rfl
      | n + 3 => rw [List.take_of_length_le (by simp)]; rfl

/-- What comes later cannot make a boundary of bytes that stand before a whole one. -/
theorem afterBoundary?_append_eq_none {b : UInt8} {bytes more : List UInt8}
    {found : List UInt8 × List UInt8} (hnone : afterBoundary? (b :: bytes) = none)
    (hfound : splitEvent? bytes = some found) :
    afterBoundary? (b :: bytes ++ more) = none := by
  rw [Option.eq_none_iff_forall_ne_some]
  intro rest h
  obtain ⟨boundary, hboundary, hbytes⟩ := afterBoundary?_eq_some_iff.mp h
  rcases List.append_eq_append_iff.mp hbytes with ⟨cut, hcut, -⟩ | ⟨rest', hrest, -⟩
  · have hfront : bytes <+: boundary.tail := ⟨cut, by rw [hcut]; rfl⟩
    rw [splitEvent?_of_prefix_tail hboundary hfront] at hfound
    cases hfound
  · have hsome := afterBoundary?_eq_some_iff.mpr ⟨boundary, hboundary, hrest⟩
    rw [hnone] at hsome
    cases hsome

/-- An event that is complete in part of a body is the first one of the body. -/
theorem splitEvent?_append {bytes event rest : List UInt8}
    (h : splitEvent? bytes = some (event, rest)) (more : List UInt8) :
    splitEvent? (bytes ++ more) = some (event, rest ++ more) := by
  induction bytes generalizing event with
  | nil => cases h
  | cons b bytes ih =>
      rw [splitEvent?_cons] at h
      rw [List.cons_append, splitEvent?_cons, ← List.cons_append]
      cases hahead : afterBoundary? (b :: bytes) with
      | some after =>
          rw [hahead] at h
          cases h
          obtain ⟨boundary, hboundary, hbytes⟩ := afterBoundary?_eq_some_iff.mp hahead
          have hmore : afterBoundary? (b :: bytes ++ more) = some (rest ++ more) :=
            afterBoundary?_eq_some_iff.mpr
              ⟨boundary, hboundary, by rw [hbytes, List.append_assoc]⟩
          rw [hmore]
      | none =>
          rw [hahead] at h
          obtain ⟨found, hfound, heq⟩ := Option.map_eq_some_iff.mp h
          cases heq
          rw [afterBoundary?_append_eq_none hahead hfound, ih hfound]
          rfl

theorem length_of_splitEvent? {bytes event rest : List UInt8}
    (h : splitEvent? bytes = some (event, rest)) : rest.length < bytes.length := by
  obtain ⟨boundary, hboundary, rfl⟩ := (splitEvent?_eq_some_iff.mp h).boundary
  cases hboundary with
  | feeds =>
      simp only [List.length_append, List.length_cons, List.length_nil]
      omega
  | returns =>
      simp only [List.length_append, List.length_cons, List.length_nil]
      omega

end EventStream

end Chat

end Marginalia
