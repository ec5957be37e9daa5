import Marginalia.Proofs.Text.Utf8

/-!
# What lossy decoding gives

Bytes are read one character after the other.  Where they begin no character, one replacement
stands for a malformed sequence: for the longest front of a character, if more would have to
follow, and otherwise for a single byte.  Lossy decoding is the one reading of this kind, which
is said here by means of the encoding alone.
-/

namespace Marginalia

namespace Text

namespace Utf8

/-! ## Readings -/

/-- Whether bytes stand at the beginning of a character. -/
def Begins (part : List UInt8) : Prop :=
  ∃ c, part <+: String.utf8EncodeChar c

def IsFront (part : List UInt8) : Prop :=
  part ≠ [] ∧ ∃ c tail, tail ≠ [] ∧ part ++ tail = String.utf8EncodeChar c

/-- Which characters bytes are read as when malformed sequences are replaced. -/
inductive ReadsAs : List UInt8 → List Char → Prop where
  | nil : ReadsAs [] []
  | char (c : Char) {rest : List UInt8} {cs : List Char} (others : ReadsAs rest cs) :
      ReadsAs (String.utf8EncodeChar c ++ rest) (c :: cs)
  /-- A front that the next byte does not go on with. -/
  | front {part rest : List UInt8} {cs : List Char} (isFront : IsFront part)
      (longest : ∀ byte ∈ rest.head?, ¬ Begins (part ++ [byte])) (others : ReadsAs rest cs) :
      ReadsAs (part ++ rest) (replacement :: cs)
  | stray {byte : UInt8} {rest : List UInt8} {cs : List Char} (unknown : ¬ Begins [byte])
      (others : ReadsAs rest cs) : ReadsAs (byte :: rest) (replacement :: cs)

theorem ReadsAs.append_chars {rest : List UInt8} {ds : List Char} (h : ReadsAs rest ds)
    (cs : List Char) : ReadsAs (cs.flatMap String.utf8EncodeChar ++ rest) (cs ++ ds) := by
  induction cs with
  | nil => exact h
  | cons c cs ih =>
      rw [List.flatMap_cons, List.append_assoc]
      exact ih.char c

/-- What begins a character goes on as long as it can. -/
theorem exists_longest {part : List UInt8} (h : Begins part) (rest : List UInt8) :
    ∃ more others, rest = more ++ others ∧ Begins (part ++ more) ∧
      ∀ byte ∈ others.head?, ¬ Begins (part ++ more ++ [byte]) := by
  induction rest generalizing part with
  | nil => exact ⟨[], [], rfl, by rwa [List.append_nil], by simp⟩
  | cons byte rest ih =>
      by_cases hnext : Begins (part ++ [byte])
      · obtain ⟨more, others, hrest, hbegins, hlongest⟩ := ih hnext
        rw [List.append_assoc] at hbegins
        refine ⟨byte :: more, others, by rw [hrest, List.cons_append], hbegins, ?_⟩
        simpa using hlongest
      · refine ⟨[], byte :: rest, rfl, by rwa [List.append_nil], ?_⟩
        simpa using hnext

/-- Whatever the bytes are, they can be read. -/
theorem exists_readsAs (bytes : List UInt8) : ∃ cs, ReadsAs bytes cs := by
  cases bytes with
  | nil => exact ⟨[], .nil⟩
  | cons byte rest =>
      by_cases hbegins : Begins [byte]
      · obtain ⟨more, others, hrest, ⟨c, tail, hc⟩, hlongest⟩ := exists_longest hbegins rest
        have hshorter : others.length < (byte :: rest).length := by
          rw [hrest, List.length_cons, List.length_append]
          omega
        obtain ⟨cs, hcs⟩ := exists_readsAs others
        have hbytes : byte :: rest = [byte] ++ more ++ others := by
          rw [hrest, List.append_assoc, List.singleton_append]
        rw [hbytes]
        by_cases htail : tail = []
        · rw [htail, List.append_nil] at hc
          rw [hc]
          exact ⟨c :: cs, hcs.char c⟩
        · exact ⟨replacement :: cs, .front ⟨by simp, c, tail, htail, hc⟩ hlongest hcs⟩
      · obtain ⟨cs, hcs⟩ := exists_readsAs rest
        exact ⟨replacement :: cs, .stray hbegins hcs⟩
termination_by bytes.length

theorem Begins.of_append {part more : List UInt8} (h : Begins (part ++ more)) : Begins part :=
  h.imp fun _ hc => (List.prefix_append part more).trans hc

/-! ## Fronts as the decoding meets them -/

namespace Opened

variable {part : List UInt8} {b : Begun}

/-- Whatever byte of the range comes next, there is a character that begins so. -/
theorem begins_append {byte : UInt8} (h : Opened part b) (hlow : b.low ≤ byte.toNat)
    (hhigh : byte.toNat ≤ b.high) : Begins (part ++ [byte]) := by
  have hrange := h.range
  obtain ⟨left, hleft⟩ := Nat.exists_eq_add_one_of_ne_zero (Nat.ne_of_gt h.needed)
  obtain ⟨v, hv⟩ := exists_shifted left (b.bits * 64 + (byte.toNat - 128))
  have hdigit : shifted left v % 64 + 128 = byte.toNat := by omega
  obtain ⟨c, hc⟩ := h.completes left v ⟨hleft, by omega, by rwa [hdigit], by rwa [hdigit]⟩
  refine ⟨c, tailBytes left v, ?_⟩
  rw [hc, tailBytes, hdigit, UInt8.ofNat_toNat, List.append_assoc, List.singleton_append]

/-- What stands in front of the last bytes of a character keeps it open. -/
theorem front {left v : Nat} {ahead tail : List UInt8} (h : Opened part b)
    (hadmits : b.Admits left v) (htail : tail ≠ [])
    (hbytes : ahead ++ tail = tailBytes (left + 1) v) : ∃ b', Opened (part ++ ahead) b' := by
  induction ahead generalizing part b left with
  | nil => exact ⟨b, by rwa [List.append_nil]⟩
  | cons byte ahead ih =>
      rw [tailBytes, List.cons_append] at hbytes
      obtain ⟨rfl, hothers⟩ := List.cons.inj hbytes
      cases left with
      | zero =>
          -- The byte was the last one of the character, so nothing is behind it.
          exact absurd (List.append_eq_nil_iff.mp hothers).2 htail
      | succ left =>
          have hneeded : 1 < b.needed := by
            rw [hadmits.needed]
            omega
          have hnext := h.more (Nat.mod_lt _ (by decide)) hadmits.low hadmits.high hneeded
          obtain ⟨b', hb'⟩ := ih hnext hadmits.after hothers
          exact ⟨b', by rwa [List.append_assoc] at hb'⟩

end Opened

theorem IsFront.opened {part : List UInt8} (h : IsFront part) : ∃ b, Opened part b := by
  obtain ⟨hne, c, tail, htail, hc⟩ := h
  obtain ⟨byte, ahead, rfl⟩ := List.exists_cons_of_ne_nil hne
  have hv : 127 < c.val.toNat := by
    apply Nat.lt_of_not_le
    intro hone
    have hlength := congrArg List.length hc
    have hleft := List.length_pos_iff.mpr htail
    simp only [String.utf8EncodeChar, if_pos hone, List.length_append, List.length_cons,
      List.length_nil] at hlength
    omega
  obtain ⟨first, b, left, hopened, hadmits, hbytes⟩ := Opened.of_char rfl hv
  rw [hbytes, List.cons_append] at hc
  obtain ⟨rfl, hothers⟩ := List.cons.inj hc
  exact hopened.front hadmits htail hothers

/-- A byte that begins no character is malformed by itself. -/
theorem lead_of_not_begins {byte : UInt8} (h : ¬ Begins [byte]) : lead byte = .malformed := by
  have hbyte := byte.toNat_lt
  rw [← UInt8.ofNat_toNat (x := byte)] at h ⊢
  generalize byte.toNat = n at h hbyte ⊢
  have hclosed : ∀ b, ¬ Opened [UInt8.ofNat n] b := by
    intro b hb
    obtain ⟨-, hordered, hmost⟩ := hb.range
    have hlow : (UInt8.ofNat b.low).toNat = b.low := by simp; omega
    have hbegins := hb.begins_append (Nat.le_of_eq hlow.symm) (by rwa [hlow])
    exact h hbegins.of_append
  by_cases hone : n < 0x80
  · have hc : (Char.ofNat n).val.toNat = n := toNat_ofNat (.inl (by omega))
    have hbytes : String.utf8EncodeChar (Char.ofNat n) = [UInt8.ofNat n] := by
      simp only [String.utf8EncodeChar, hc, if_pos (Nat.le_of_lt_succ hone)]
    exact absurd ⟨Char.ofNat n, hbytes ▸ List.prefix_refl _⟩ h
  · by_cases htwo : 0xC2 ≤ n ∧ n < 0xE0
    · exact absurd (Opened.two htwo.1 htwo.2) (hclosed _)
    · by_cases hthree : 0xE0 ≤ n ∧ n < 0xF0
      · exact absurd (Opened.three hthree.1 hthree.2) (hclosed _)
      · by_cases hfour : 0xF0 ≤ n ∧ n ≤ 0xF4
        · exact absurd (Opened.four hfour.1 hfour.2) (hclosed _)
        · exact lead_malformed (by omega)

/-! ## The decoding -/

def Decoding.text (d : Decoding) : List Char :=
  d.finish.map fun c => c.getD replacement

/-- A byte that an open character does not go on with is read as if nothing were open. -/
theorem Opened.take {part : List UInt8} {b : Begun} (h : Opened part b) {byte : UInt8}
    (hbyte : ¬ Begins (part ++ [byte])) (read : List (Option Char)) :
    Decoding.take ⟨some b, read⟩ byte = Decoding.take ⟨none, none :: read⟩ byte := by
  have hrange : ¬ (b.low ≤ byte.toNat ∧ byte.toNat ≤ b.high) := by
    intro hbetween
    exact hbyte (h.begins_append hbetween.1 hbetween.2)
  simp only [Decoding.take, if_neg hrange]

/-- Bytes are decoded as they are read, behind what has been decoded before. -/
theorem ReadsAs.text {bytes : List UInt8} {cs : List Char} (h : ReadsAs bytes cs)
    (read : List (Option Char)) :
    (bytes.foldl Decoding.take ⟨none, read⟩).text =
      (read.reverse.map fun c => c.getD replacement) ++ cs := by
  induction h generalizing read with
  | nil => simp [Decoding.text, Decoding.finish]
  | char c _ ih =>
      rw [List.foldl_append, foldl_take_encodeChar, ih]
      simp
  | @front part rest cs isFront longest _ ih =>
      obtain ⟨b, hb⟩ := isFront.opened
      have hclosed : (rest.foldl Decoding.take ⟨some b, read⟩).text =
          (rest.foldl Decoding.take ⟨none, none :: read⟩).text := by
        cases rest with
        | nil => rfl
        | cons byte rest =>
            rw [List.foldl_cons, List.foldl_cons, hb.take (longest byte rfl)]
      rw [List.foldl_append, hb.reads, hclosed, ih]
      simp
  | @stray byte rest cs unknown _ ih =>
      have hstart : Decoding.take ⟨none, read⟩ byte = ⟨none, none :: read⟩ := by
        simp only [Decoding.take, Decoding.start, lead_of_not_begins unknown]
      rw [List.foldl_cons, hstart, ih]
      simp

/-- Lossy decoding gives the only reading there is. -/
theorem readsAs_iff {bytes : List UInt8} {cs : List Char} :
    ReadsAs bytes cs ↔ cs = lossy bytes := by
  have hread : ∀ ds, ReadsAs bytes ds → ds = lossy bytes := fun ds hds => (hds.text []).symm
  constructor
  · exact hread cs
  · intro hcs
    obtain ⟨ds, hds⟩ := exists_readsAs bytes
    rw [hcs, ← hread ds hds]
    exact hds

/-- Two bytes of a character of three are one malformed sequence; those of a surrogate are two. -/
example : lossy [0xE2, 0x82, 0x41, 0xED, 0xA0] =
    [replacement, 'A', replacement, replacement] := by decide

/-- Of a text that is cut inside a character, the characters in front of it are read as they
are, and one replacement stands for what there is of it. -/
theorem lossy_append_front (cs : List Char) {part : List UInt8} (h : IsFront part) :
    lossy (cs.flatMap String.utf8EncodeChar ++ part) = cs ++ [replacement] := by
  have hpart : ReadsAs part [replacement] := by
    simpa using ReadsAs.front h (by simp) .nil
  exact (readsAs_iff.mp (hpart.append_chars cs)).symm

end Utf8

end Text

end Marginalia
