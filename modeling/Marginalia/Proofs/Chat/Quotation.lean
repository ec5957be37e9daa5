import Marginalia.Chat.Response
import Marginalia.Proofs.Text.Lossy

/-!
# What is quoted of a failure

The body of a failure is read chunk by chunk, until it ends or is longer than what is quoted.
How it is cut makes no difference: the bytes are put together before they are decoded, and when
they are too many, those of the chunks read so far begin with all that are quoted.
-/

namespace Marginalia

namespace Chat

namespace Response

open Text.Utf8 (lossy IsFront ReadsAs)

variable {ending : EventStream.Ending} {taken : List UInt8}

/-- A body that is not too long is quoted as if it had come in one piece. -/
theorem quoteFrom_of_le {chunks : List (List UInt8)}
    (h : (taken ++ chunks.flatten).length ≤ maxQuotedBytes) :
    quoteFrom ending taken chunks = quoteFrom ending (taken ++ chunks.flatten) [] := by
  induction chunks generalizing taken with
  | nil => rw [List.flatten_nil, List.append_nil]
  | cons chunk chunks ih =>
      rw [List.flatten_cons, ← List.append_assoc] at h ⊢
      have hread : ¬ (taken ++ chunk).length > maxQuotedBytes := by
        rw [List.length_append] at h
        omega
      rw [quoteFrom, if_neg hread]
      exact ih h

/-- Of a body that is too long the first bytes are quoted, whatever comes behind them. -/
theorem quoteFrom_of_lt {chunks : List (List UInt8)} (htaken : taken.length ≤ maxQuotedBytes)
    (h : maxQuotedBytes < (taken ++ chunks.flatten).length) :
    quoteFrom ending taken chunks =
      some (String.ofList (lossy ((taken ++ chunks.flatten).take maxQuotedBytes)) ++
        "...(truncated)") := by
  induction chunks generalizing taken with
  | nil =>
      rw [List.flatten_nil, List.append_nil] at h
      omega
  | cons chunk chunks ih =>
      rw [List.flatten_cons, ← List.append_assoc] at h ⊢
      rw [quoteFrom]
      by_cases hread : (taken ++ chunk).length > maxQuotedBytes
      · rw [if_pos hread, List.take_append_of_le_length (Nat.le_of_lt hread)]
      · rw [if_neg hread]
        exact ih (Nat.le_of_not_lt hread) h

/-- A body that comes to an end is quoted by its bytes. -/
theorem quoteFrom_flatten (chunks : List (List UInt8))
    (hending : ending = .closed ∨ ending = .broken) :
    quoteFrom ending [] chunks = some
      (if maxQuotedBytes < chunks.flatten.length then
        String.ofList (lossy (chunks.flatten.take maxQuotedBytes)) ++ "...(truncated)"
      else String.ofList (lossy chunks.flatten)) := by
  by_cases hlong : maxQuotedBytes < chunks.flatten.length
  · rw [if_pos hlong]
    exact quoteFrom_of_lt (Nat.zero_le _) hlong
  · have hshort : ([] ++ chunks.flatten).length ≤ maxQuotedBytes := Nat.le_of_not_lt hlong
    rw [if_neg hlong, quoteFrom_of_le hshort, List.nil_append]
    cases hending with
    | inl hclosed => rw [hclosed, quoteFrom]
    | inr hbroken => rw [hbroken, quoteFrom]

theorem read_of_quotedBody? {r : Response} {text : String} (hfailed : r.isSuccess = false)
    (h : r.quotedBody? = some text) : r.read = .error (.api r.status text) := by
  rw [read, if_neg (by simp [hfailed]), h]

/--
What is quoted of a body depends on its bytes alone, in whatever chunks they come and whether
the body ends or breaks off: it is the lossy decoding of all bytes, if these are at most 32768,
and that of the first 32768 and a mark otherwise.  A response that is no success fails with this
text.  Lossy decoding is the reading that replaces malformed sequences, among them what is left
of a character when quoting ends inside it.
-/
theorem quotes_bytes (bytes : List UInt8) :
    ∃ text : String,
      (∀ chunks ending, chunks.flatten = bytes → ending = .closed ∨ ending = .broken →
        quoteFrom ending [] chunks = some text ∧
        ∀ r : Response, r.isSuccess = false → r.body = chunks → r.bodyEnding = ending →
          r.read = .error (.api r.status text)) ∧
      (bytes.length ≤ 32768 → text = String.ofList (lossy bytes)) ∧
      (32768 < bytes.length →
        text = String.ofList (lossy (bytes.take 32768)) ++ "...(truncated)") ∧
      (∀ cs part rest, bytes = cs.flatMap String.utf8EncodeChar ++ part ++ rest → rest ≠ [] →
        IsFront part → (cs.flatMap String.utf8EncodeChar ++ part).length = 32768 →
          text = String.ofList (cs ++ [Text.Utf8.replacement]) ++ "...(truncated)") ∧
      ∀ part cs, ReadsAs part cs ↔ cs = lossy part := by
  refine ⟨if maxQuotedBytes < bytes.length then
      String.ofList (lossy (bytes.take maxQuotedBytes)) ++ "...(truncated)"
    else String.ofList (lossy bytes), ?_, fun hshort => if_neg (Nat.not_lt.mpr hshort),
    fun hlong => if_pos hlong, ?_, fun _ _ => Text.Utf8.readsAs_iff⟩
  · intro chunks ending hcut hending
    subst hcut
    have hquote := quoteFrom_flatten chunks hending
    refine ⟨hquote, fun r hfailed hbody hend => read_of_quotedBody? hfailed ?_⟩
    rw [quotedBody?, hbody, hend, hquote]
  · intro cs part rest hbytes hrest hpart hcut
    have hleft := List.length_pos_iff.mpr hrest
    have hlong : maxQuotedBytes < bytes.length := by
      rw [hbytes, List.length_append, hcut]
      exact Nat.lt_add_of_pos_right hleft
    have hquoted : bytes.take maxQuotedBytes = cs.flatMap String.utf8EncodeChar ++ part := by
      rw [hbytes]
      exact List.take_left' hcut
    rw [if_pos hlong, hquoted, Text.Utf8.lossy_append_front cs hpart]

/-- A body of 32770 bytes in two chunks; its character of two bytes is cut by the chunks, and
is where quoting ends. -/
def cutBody : List (List UInt8) :=
  [List.replicate 32767 0x65 ++ [0xC3], [0xA9, 0x66]]

/-- The first byte of that character is quoted as a replacement. -/
theorem quotes_bytes_cutBody :
    IsFront [0xC3] ∧
      quoteFrom .broken [] cutBody = some
        (String.ofList (List.replicate 32767 'e' ++ ['\uFFFD']) ++ "...(truncated)") ∧
      ({ status := 500, chunks := cutBody } : Response).read = .error (.api 500
        (String.ofList (List.replicate 32767 'e' ++ ['\uFFFD']) ++ "...(truncated)")) := by
  obtain ⟨text, hquotes, -, -, hcut, -⟩ := quotes_bytes cutBody.flatten
  have hfront : IsFront [0xC3] := ⟨by decide, 'é', [0xA9], by decide, by decide⟩
  have hchars : (List.replicate 32767 'e').flatMap String.utf8EncodeChar =
      List.replicate 32767 0x65 := by
    rw [List.flatMap_replicate]
    exact List.flatten_replicate_singleton
  have htext := hcut (List.replicate 32767 'e') [0xC3] [0xA9, 0x66] (by rw [hchars]; rfl)
    (by decide) hfront (by rw [hchars, List.length_append, List.length_replicate]; rfl)
  have hbroken := hquotes cutBody .broken rfl (.inr rfl)
  have hclosed := hquotes cutBody .closed rfl (.inl rfl)
  rw [htext] at hbroken hclosed
  exact ⟨hfront, hbroken.1, hclosed.2 { status := 500, chunks := cutBody } rfl rfl rfl⟩

end Response

end Chat

end Marginalia
