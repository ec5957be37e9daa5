import Marginalia.Proofs.Json.Front
import Marginalia.Proofs.Record.Drain

/-!
# Decoding only behind a closing brace

An object ends in a closing brace, so a fragment without one completes nothing.  A decoder
that tries to decode after every fragment, whatever it holds, gives the same records at the
same fragments and keeps the same text.
-/

namespace Marginalia

namespace Record

open Json (Reads)

/-! ## Fragments without a closing brace -/

/-- An object of a text is one of its front already if no closing brace stands behind the front. -/
theorem exists_front_of_no_brace {kept fragment start rest : List Char}
    {ms : List (String × Json)} (hfragment : '\x7d' ∉ fragment)
    (hstart : start <:+ kept ++ fragment)
    (hreads : Reads Json.maxDepth start (.value (.object ms)) rest) :
    ∃ front left, start = front ++ fragment ∧ front <:+ kept ∧
      Reads Json.maxDepth front (.value (.object ms)) left := by
  have hcloser := hreads.closer_suffix.trans hstart
  have hcovers : fragment <:+ rest := by
    rcases List.suffix_or_suffix_of_suffix hcloser (List.suffix_append kept fragment) with
      hinside | hcovered
    · exact absurd (hinside.subset List.mem_cons_self) hfragment
    · rcases List.suffix_cons_iff.mp hcovered with rfl | hrest
      · exact absurd List.mem_cons_self hfragment
      · exact hrest
  obtain ⟨left, rfl⟩ := hcovers
  obtain ⟨front, rfl, hfront⟩ := hreads.exists_front nofun
  obtain ⟨used, hused⟩ := hstart
  rw [← List.append_assoc] at hused
  exact ⟨front, left, rfl, ⟨used, List.append_cancel_right hused⟩, hfront⟩

/-- A text without a closing brace makes nothing decodable. -/
theorem decodeNext?_append_of_no_brace {kept fragment : List Char}
    (h : decodeNext? kept = none) (hfragment : '\x7d' ∉ fragment) :
    decodeNext? (kept ++ fragment) = none := by
  obtain ⟨hfirst, hnone⟩ := decodeNext?_eq_none_iff.mp h
  refine decodeNext?_eq_none_iff.mpr
    ⟨fun ms rest hreads => ?_, fun start ms rest hstart hreads => ?_⟩
  · obtain ⟨front, left, heq, -, hfront⟩ :=
      exists_front_of_no_brace hfragment (List.suffix_refl _) hreads
    rw [← List.append_cancel_right heq] at hfront
    exact hfirst ms left hfront
  · obtain ⟨front, left, -, hsuffix, hfront⟩ := exists_front_of_no_brace hfragment hstart hreads
    exact hnone front ms left hsuffix hfront

/-! ## Decoding to exhaustion -/

theorem length_rest_lt {pending : List Char} {decoded : Decoded}
    (h : decodeNext? pending = some decoded) : decoded.rest.length < pending.length :=
  (brace_suffix_of_decodeNext? h).length_le

/-- Decodes as long as a decoding succeeds, whether or not a closing brace is left. -/
def exhaust (pending : List Char) : List Record × List Char :=
  match _h : decodeNext? pending with
  | none => ([], pending)
  | some decoded =>
      let (records, rest) := exhaust decoded.rest
      (decoded.record?.toList ++ records, rest)
termination_by pending.length
decreasing_by exact length_rest_lt _h

/-- The bounded loop that looks for closing braces first does as much. -/
theorem drained_eq_exhaust (pending : List Char) : drained pending = exhaust pending := by
  fun_induction exhaust pending with
  | case1 pending hnone => exact drained_of_none hnone
  | case2 pending decoded hsome records rest hrest ih =>
      rw [drained_of_some hsome, ih, hrest]

theorem decodeNext?_exhaust (pending : List Char) : decodeNext? (exhaust pending).2 = none := by
  fun_induction exhaust pending with
  | case1 pending hnone => exact hnone
  | case2 pending decoded hsome records rest hrest ih =>
      rw [hrest] at ih
      exact ih

theorem exhaust_of_none {pending : List Char} (h : decodeNext? pending = none) :
    exhaust pending = ([], pending) := by
  rw [← drained_eq_exhaust, drained_of_none h]

namespace Decoder

/-! ## Runs of a decoder -/

inductive Action where
  | push (fragment : String)
  | finish

def act (d : Decoder) : Action → List Record × Decoder
  | .push fragment => d.push fragment
  | .finish => ([], d.finish)

/-- Takes in a fragment and decodes as much as it can, whatever the fragment holds. -/
def pushEagerly (d : Decoder) (fragment : String) : List Record × Decoder :=
  let (records, rest) := exhaust (d.pending ++ fragment.toList)
  (records, ⟨cap rest⟩)

def actEagerly (d : Decoder) : Action → List Record × Decoder
  | .push fragment => d.pushEagerly fragment
  | .finish => ([], d.finish)

def answers (act : Decoder → Action → List Record × Decoder) (d : Decoder) :
    List Action → List (List Record × Decoder)
  | [] => []
  | action :: actions => act d action :: answers act (act d action).2 actions

def after (d : Decoder) (actions : List Action) : Decoder :=
  actions.foldl (fun d action => (d.act action).2) d

/-- A decoder that keeps nothing it could decode, and not too much. -/
structure Settled (d : Decoder) : Prop where
  undecodable : decodeNext? d.pending = none
  short : byteCount d.pending ≤ maxPendingBytes

theorem decodeNext?_nil : decodeNext? [] = none :=
  decodeNext?_eq_none_iff.mpr
    ⟨fun _ _ hreads => hreads.text_ne_nil rfl,
      fun _ _ _ hstart hreads => absurd (List.suffix_nil.mp hstart) hreads.text_ne_nil⟩

theorem settled_empty : Settled {} :=
  ⟨decodeNext?_nil, Nat.zero_le _⟩

theorem settled_cap {rest : List Char} (h : decodeNext? rest = none) : Settled ⟨cap rest⟩ := by
  by_cases hlong : byteCount rest > maxPendingBytes
  · rw [cap, if_pos hlong]
    exact settled_empty
  · rw [cap, if_neg hlong]
    exact ⟨h, Nat.le_of_not_lt hlong⟩

namespace Settled

variable {d : Decoder}

/-- What a fragment without a closing brace leaves undone, a decoding could not do either. -/
theorem push_eq (h : d.Settled) (fragment : String) : d.push fragment = d.pushEagerly fragment := by
  rw [pushEagerly]
  by_cases hmem : '\x7d' ∈ fragment.toList
  · rw [push_of_brace hmem, drained_eq_exhaust]
  · rw [push_of_no_brace hmem,
      exhaust_of_none (decodeNext?_append_of_no_brace h.undecodable hmem)]

theorem act_eq (h : d.Settled) (action : Action) : d.act action = d.actEagerly action := by
  cases action with
  | push fragment => exact h.push_eq fragment
  | finish => rfl

theorem act (h : d.Settled) (action : Action) : (d.act action).2.Settled := by
  rw [h.act_eq action]
  cases action with
  | push fragment => exact settled_cap (decodeNext?_exhaust _)
  | finish => exact settled_empty

theorem after (h : d.Settled) (actions : List Action) : (d.after actions).Settled := by
  induction actions generalizing d with
  | nil => exact h
  | cons action actions ih => exact ih (h.act action)

theorem answers_eq (h : d.Settled) (actions : List Action) :
    answers Decoder.act d actions = answers actEagerly d actions := by
  induction actions generalizing d with
  | nil => rfl
  | cons action actions ih =>
      have hrest := ih (h.act action)
      rw [h.act_eq action] at hrest
      rw [answers, answers, h.act_eq action, hrest]

end Settled

/--
Whatever fragments a decoder has taken in and however often it was finished, nothing of the
text it keeps can be decoded, and the text is not too long.  So it gives the same at each
fragment, and keeps the same, as a decoder that decodes to exhaustion after every fragment.
-/
theorem gate_loses_nothing (actions : List Action) :
    decodeNext? (after {} actions).pending = none ∧
      byteCount (after {} actions).pending ≤ maxPendingBytes ∧
        answers act {} actions = answers actEagerly {} actions := by
  have hsettled := settled_empty.after actions
  exact ⟨hsettled.undecodable, hsettled.short, settled_empty.answers_eq actions⟩

end Decoder

end Record

end Marginalia
