import Marginalia.Text.Utf8

/-!
# UTF-8, there and back

The bytes of a character begin it, go on with it and complete it.  So decoding gives the
characters back that were encoded, and the bytes below 128 stand for characters of their own.
-/

namespace Marginalia

namespace Text

namespace Utf8

theorem toList_loop_eq (bytes : ByteArray) (i : Nat) (acc : List UInt8) :
    ByteArray.toList.loop bytes i acc = acc.reverse ++ bytes.data.toList.drop i := by
  fun_induction ByteArray.toList.loop bytes i acc with
  | case1 i acc h ih =>
      have hi : i < bytes.data.toList.length := by simpa using h
      rw [ih, List.drop_eq_getElem_cons hi]
      simp [ByteArray.get!, h]
  | case2 i acc h =>
      rw [List.drop_eq_nil_of_le (by simpa using Nat.le_of_not_lt h)]
      simp

theorem encode_ofList (cs : List Char) :
    encode (String.ofList cs) = cs.flatMap String.utf8EncodeChar := by
  rw [encode, String.toUTF8_eq_toByteArray, String.toByteArray_ofList, List.utf8Encode,
    ByteArray.toList, toList_loop_eq, List.toList_data_toByteArray]
  rfl

theorem fromUTF8?_eq_some_iff {bytes : List UInt8} {s : String} :
    String.fromUTF8? ⟨bytes.toArray⟩ = some s ↔ bytes = encode s := by
  have hencode : encode s = s.toByteArray.data.toList := by
    rw [encode, ByteArray.toList, toList_loop_eq]
    rfl
  rw [hencode]
  constructor
  · intro h
    unfold String.fromUTF8? at h
    split at h
    · cases h
      rfl
    · cases h
  · rintro rfl
    exact dif_pos s.isValidUTF8

/-! ## One byte -/

theorem lead_one {n : Nat} (h : n < 0x80) :
    lead (UInt8.ofNat n) = .whole (Char.ofNat n) := by
  have hn : (UInt8.ofNat n).toNat = n := by simp; omega
  simp only [lead, hn, if_pos h]

theorem lead_two {n : Nat} (hlow : 0xC2 ≤ n) (hhigh : n < 0xE0) :
    lead (UInt8.ofNat n) = .begun { bits := n - 0xC0, needed := 1 } := by
  have hn : (UInt8.ofNat n).toNat = n := by simp; omega
  simp only [lead, hn]
  rw [if_neg (by omega), if_neg (by omega), if_pos hhigh]

theorem lead_three {n : Nat} (hlow : 0xE0 ≤ n) (hhigh : n < 0xF0) :
    lead (UInt8.ofNat n) = .begun
      { bits := n - 0xE0
        needed := 2
        low := if n = 0xE0 then 0xA0 else 0x80
        high := if n = 0xED then 0x9F else 0xBF } := by
  have hn : (UInt8.ofNat n).toNat = n := by simp; omega
  simp only [lead, hn]
  rw [if_neg (by omega), if_neg (by omega), if_neg (by omega)]
  by_cases hfirst : n = 0xE0
  · subst hfirst
    rfl
  · by_cases hsurrogate : n = 0xED
    · subst hsurrogate
      rfl
    · rw [if_neg hfirst, if_neg hsurrogate, if_pos hhigh, if_neg hfirst, if_neg hsurrogate]

theorem lead_four {n : Nat} (hlow : 0xF0 ≤ n) (hhigh : n ≤ 0xF4) :
    lead (UInt8.ofNat n) = .begun
      { bits := n - 0xF0
        needed := 3
        low := if n = 0xF0 then 0x90 else 0x80
        high := if n = 0xF4 then 0x8F else 0xBF } := by
  have hn : (UInt8.ofNat n).toNat = n := by simp; omega
  simp only [lead, hn]
  rw [if_neg (by omega), if_neg (by omega), if_neg (by omega), if_neg (by omega),
    if_neg (by omega), if_neg (by omega)]
  by_cases hfirst : n = 0xF0
  · subst hfirst
    rfl
  · by_cases hlast : n = 0xF4
    · subst hlast
      rfl
    · rw [if_neg hfirst, if_pos (by omega), if_neg hfirst, if_neg hlast]

theorem lead_malformed {n : Nat} (h : 0x80 ≤ n ∧ n < 0xC2 ∨ 0xF4 < n ∧ n < 0x100) :
    lead (UInt8.ofNat n) = .malformed := by
  have hn : (UInt8.ofNat n).toNat = n := by simp; omega
  simp only [lead, hn]
  cases h with
  | inl h => rw [if_neg (by omega), if_pos h.2]
  | inr h =>
      rw [if_neg (by omega), if_neg (by omega), if_neg (by omega), if_neg (by omega),
        if_neg (by omega), if_neg (by omega), if_neg (by omega), if_neg (by omega),
        if_neg (by omega)]

/-- What is begun after a byte that goes on with it, by its number in the range. -/
def Begun.after (b : Begun) (n : Nat) : Begun :=
  { bits := b.bits * 64 + n, needed := b.needed - 1 }

variable {b : Begun} {read : List (Option Char)}

theorem take_begun {byte : UInt8} (h : lead byte = .begun b) :
    Decoding.take ⟨none, read⟩ byte = ⟨some b, read⟩ := by
  simp only [Decoding.take, Decoding.start, h]

theorem take_more {n : Nat} (hn : n < 64) (hlow : b.low ≤ n + 128) (hhigh : n + 128 ≤ b.high)
    (hneeded : 1 < b.needed) :
    Decoding.take ⟨some b, read⟩ (UInt8.ofNat (n + 128)) =
      ⟨some (b.after n), read⟩ := by
  have hbyte : (UInt8.ofNat (n + 128)).toNat = n + 128 := by simp; omega
  have hbits : n + 128 - 0x80 = n := by omega
  simp only [Decoding.take, hbyte, if_pos (And.intro hlow hhigh), hbits]
  rw [if_neg (by omega), Begun.after]

theorem take_last {n : Nat} (hn : n < 64) (hlow : b.low ≤ n + 128) (hhigh : n + 128 ≤ b.high)
    (hneeded : b.needed = 1) :
    Decoding.take ⟨some b, read⟩ (UInt8.ofNat (n + 128)) =
      ⟨none, some (Char.ofNat (b.bits * 64 + n)) :: read⟩ := by
  have hbyte : (UInt8.ofNat (n + 128)).toNat = n + 128 := by simp; omega
  have hbits : n + 128 - 0x80 = n := by omega
  simp only [Decoding.take, hbyte, if_pos (And.intro hlow hhigh), hbits, hneeded,
    if_pos (Nat.le_refl 1)]

/-! ## The bytes of a code -/

/-- A code without the bits of its last `n` bytes, of which each has six. -/
def shifted : Nat → Nat → Nat
  | 0, v => v
  | n + 1, v => shifted n v / 64

/-- The last `n` bytes of the character with a code, all of them behind its first. -/
def tailBytes : Nat → Nat → List UInt8
  | 0, _ => []
  | n + 1, v => UInt8.ofNat (shifted n v % 64 + 128) :: tailBytes n v

theorem exists_shifted (n bits : Nat) : ∃ v, shifted n v = bits := by
  induction n generalizing bits with
  | zero => exact ⟨bits, rfl⟩
  | succ n ih =>
      obtain ⟨v, hv⟩ := ih (bits * 64)
      exact ⟨v, by rw [shifted, hv, Nat.mul_div_cancel _ (by decide)]⟩

theorem toNat_ofNat {v : Nat} (h : v.isValidChar) : (Char.ofNat v).val.toNat = v := by
  rw [Char.ofNat, dif_pos h]
  rfl

section

variable {c : Char} {v : Nat}

theorem encodeChar_two (hc : c.val.toNat = v) (hlow : 127 < v) (hhigh : v ≤ 2047) :
    String.utf8EncodeChar c = UInt8.ofNat (v / 64 + 192) :: tailBytes 1 v := by
  have hfirst : v / 64 % 32 = v / 64 := by omega
  simp only [String.utf8EncodeChar, hc, tailBytes, shifted]
  rw [if_neg (by omega), if_pos hhigh, hfirst]

theorem encodeChar_three (hc : c.val.toNat = v) (hlow : 2047 < v) (hhigh : v ≤ 65535) :
    String.utf8EncodeChar c = UInt8.ofNat (v / 4096 + 224) :: tailBytes 2 v := by
  have hfirst : v / 4096 % 16 = v / 4096 := by omega
  simp only [String.utf8EncodeChar, hc, tailBytes, shifted]
  rw [if_neg (by omega), if_neg (by omega), if_pos hhigh, hfirst]

theorem encodeChar_four (hc : c.val.toNat = v) (hlow : 65535 < v) :
    String.utf8EncodeChar c = UInt8.ofNat (v / 262144 + 240) :: tailBytes 3 v := by
  have hvalid : v < 0xD800 ∨ 0xDFFF < v ∧ v < 0x110000 := hc ▸ c.valid
  have hfirst : v / 262144 % 8 = v / 262144 := by omega
  have hsecond : v / 64 / 64 = v / 4096 := by omega
  simp only [String.utf8EncodeChar, hc, tailBytes, shifted, hsecond]
  rw [if_neg (by omega), if_neg (by omega), if_neg (by omega), hfirst]

end

/-! ## Characters that are begun -/

/-- Whether a code has the bits that were read, and its next byte is in the range; `left` bytes
of it are behind that. -/
structure Begun.Admits (b : Begun) (left v : Nat) : Prop where
  needed : b.needed = left + 1
  bits : shifted left v / 64 = b.bits
  low : b.low ≤ shifted left v % 64 + 128
  high : shifted left v % 64 + 128 ≤ b.high

theorem Begun.Admits.after {left v : Nat} (h : b.Admits (left + 1) v) :
    (b.after (shifted (left + 1) v % 64)).Admits left v where
  needed := by rw [Begun.after, h.needed, Nat.add_sub_cancel]
  bits := by
    rw [Begun.after, ← h.bits]
    exact (Nat.div_add_mod' _ 64).symm
  low := by
    dsimp only [Begun.after]
    omega
  high := by
    dsimp only [Begun.after]
    omega

/-- The remaining bytes complete the character. -/
theorem Begun.Admits.foldl_take {left v : Nat} (h : b.Admits left v) :
    (tailBytes (left + 1) v).foldl Decoding.take ⟨some b, read⟩ =
      ⟨none, some (Char.ofNat v) :: read⟩ := by
  induction left generalizing b with
  | zero =>
      have hcode : b.bits * 64 + v % 64 = v := by
        rw [← h.bits]
        exact Nat.div_add_mod' v 64
      rw [tailBytes, tailBytes, List.foldl_cons, List.foldl_nil,
        take_last (Nat.mod_lt _ (by decide)) h.low h.high h.needed, shifted, hcode]
  | succ left ih =>
      have hneeded : 1 < b.needed := by
        rw [h.needed]
        omega
      rw [tailBytes, List.foldl_cons, take_more (Nat.mod_lt _ (by decide)) h.low h.high hneeded]
      exact ih h.after

/--
What bytes lead to when they are the front of a character: it is begun, and every code with the
bits read so far and a next byte in the range is that of a character with this front.
-/
structure Opened (part : List UInt8) (b : Begun) : Prop where
  needed : 0 < b.needed
  range : 0x80 ≤ b.low ∧ b.low ≤ b.high ∧ b.high ≤ 0xBF
  reads : ∀ read, part.foldl Decoding.take ⟨none, read⟩ = ⟨some b, read⟩
  completes : ∀ left v, b.Admits left v →
    ∃ c, String.utf8EncodeChar c = part ++ tailBytes (left + 1) v

namespace Opened

variable {part : List UInt8} {n : Nat}

theorem two (hlow : 0xC2 ≤ n) (hhigh : n < 0xE0) :
    Opened [UInt8.ofNat n] { bits := n - 0xC0, needed := 1 } where
  needed := Nat.zero_lt_one
  range := by simp
  reads read := take_begun (lead_two hlow hhigh)
  completes left v hv := by
    obtain rfl : 0 = left := Nat.succ.inj hv.needed
    have hbits := hv.bits
    simp only [shifted] at hbits
    have hn : v / 64 + 192 = n := by omega
    refine ⟨Char.ofNat v, ?_⟩
    rw [encodeChar_two (toNat_ofNat (.inl (by omega))) (by omega) (by omega), hn]
    rfl

theorem three (hlow : 0xE0 ≤ n) (hhigh : n < 0xF0) :
    Opened [UInt8.ofNat n]
      { bits := n - 0xE0
        needed := 2
        low := if n = 0xE0 then 0xA0 else 0x80
        high := if n = 0xED then 0x9F else 0xBF } where
  needed := Nat.zero_lt_two
  range := by
    dsimp only
    split
    · split <;> omega
    · split <;> omega
  reads read := take_begun (lead_three hlow hhigh)
  completes left v hv := by
    obtain rfl : 1 = left := Nat.succ.inj hv.needed
    have hbits := hv.bits
    have hdigit := hv.low
    have hdigit' := hv.high
    simp only [shifted] at hbits hdigit hdigit'
    have hn : v / 4096 + 224 = n := by omega
    have hsize : 2047 < v := by
      by_cases hfirst : n = 0xE0
      · rw [if_pos hfirst] at hdigit
        omega
      · omega
    have hchar : v.isValidChar := by
      by_cases hsurrogate : n = 0xED
      · rw [if_pos hsurrogate] at hdigit'
        exact .inl (by omega)
      · by_cases hbefore : n < 0xED
        · exact .inl (by omega)
        · exact .inr ⟨by omega, by omega⟩
    refine ⟨Char.ofNat v, ?_⟩
    rw [encodeChar_three (toNat_ofNat hchar) hsize (by omega), hn]
    rfl

theorem four (hlow : 0xF0 ≤ n) (hhigh : n ≤ 0xF4) :
    Opened [UInt8.ofNat n]
      { bits := n - 0xF0
        needed := 3
        low := if n = 0xF0 then 0x90 else 0x80
        high := if n = 0xF4 then 0x8F else 0xBF } where
  needed := Nat.zero_lt_succ 2
  range := by
    dsimp only
    split
    · split <;> omega
    · split <;> omega
  reads read := take_begun (lead_four hlow hhigh)
  completes left v hv := by
    obtain rfl : 2 = left := Nat.succ.inj hv.needed
    have hbits := hv.bits
    have hdigit := hv.low
    have hdigit' := hv.high
    simp only [shifted] at hbits hdigit hdigit'
    have hn : v / 262144 + 240 = n := by omega
    have hsize : 65535 < v := by
      by_cases hfirst : n = 0xF0
      · rw [if_pos hfirst] at hdigit
        omega
      · omega
    have hmost : v < 0x110000 := by
      by_cases hlast : n = 0xF4
      · rw [if_pos hlast] at hdigit'
        omega
      · omega
    refine ⟨Char.ofNat v, ?_⟩
    rw [encodeChar_four (toNat_ofNat (.inr ⟨by omega, hmost⟩)) hsize, hn]
    rfl

theorem of_char {c : Char} {v : Nat} (hc : c.val.toNat = v) (hv : 127 < v) :
    ∃ byte b left, Opened [byte] b ∧ b.Admits left v ∧
      String.utf8EncodeChar c = byte :: tailBytes (left + 1) v := by
  have hvalid : v < 0xD800 ∨ 0xDFFF < v ∧ v < 0x110000 := hc ▸ c.valid
  by_cases htwo : v ≤ 2047
  · refine ⟨_, _, 0, two (n := v / 64 + 192) (by omega) (by omega), ⟨rfl, ?_, ?_, ?_⟩,
      encodeChar_two hc hv htwo⟩
    · simp [shifted]
    · simp
    · simp only [shifted]
      omega
  · by_cases hthree : v ≤ 65535
    · refine ⟨_, _, 1, three (n := v / 4096 + 224) (by omega) (by omega), ⟨rfl, ?_, ?_, ?_⟩,
        encodeChar_three hc (by omega) hthree⟩
      · simp only [shifted]
        omega
      · simp only [shifted]
        split <;> omega
      · simp only [shifted]
        split <;> omega
    · refine ⟨_, _, 2, four (n := v / 262144 + 240) (by omega) (by omega), ⟨rfl, ?_, ?_, ?_⟩,
        encodeChar_four hc (by omega)⟩
      · simp only [shifted]
        omega
      · simp only [shifted]
        split <;> omega
      · simp only [shifted]
        split <;> omega

theorem le_toNat {byte : UInt8} (h : Opened [byte] b) : 0x80 ≤ byte.toNat := by
  apply Nat.le_of_not_lt
  intro hbyte
  have hlead := lead_one hbyte
  have hread := h.reads []
  rw [UInt8.ofNat_toNat] at hlead
  simp [Decoding.take, Decoding.start, hlead] at hread

/-- A byte in the range keeps a character open, unless it is the last one. -/
theorem more (h : Opened part b) (hn : n < 64) (hlow : b.low ≤ n + 128) (hhigh : n + 128 ≤ b.high)
    (hneeded : 1 < b.needed) : Opened (part ++ [UInt8.ofNat (n + 128)]) (b.after n) where
  needed := Nat.sub_pos_of_lt hneeded
  range := by simp [Begun.after]
  reads read := by
    rw [List.foldl_append, h.reads, List.foldl_cons, List.foldl_nil,
      take_more hn hlow hhigh hneeded]
  completes left v hv := by
    have hleft : b.needed = left + 1 + 1 := by
      have hnext : b.needed - 1 = left + 1 := hv.needed
      omega
    have hcode : shifted (left + 1) v = b.bits * 64 + n := hv.bits
    have hdigit : shifted (left + 1) v % 64 = n := by omega
    obtain ⟨c, hc⟩ := h.completes (left + 1) v
      ⟨hleft, by omega, by rwa [hdigit], by rwa [hdigit]⟩
    refine ⟨c, ?_⟩
    rw [hc, tailBytes, hdigit, List.append_assoc, List.singleton_append]

end Opened

theorem foldl_take_encodeChar (read : List (Option Char)) (c : Char) :
    (String.utf8EncodeChar c).foldl Decoding.take ⟨none, read⟩ = ⟨none, some c :: read⟩ := by
  have hc : Char.ofNat c.val.toNat = c := Char.ofNat_toNat c
  by_cases hone : c.val.toNat ≤ 127
  · simp only [String.utf8EncodeChar, if_pos hone, List.foldl_cons, List.foldl_nil, Decoding.take,
      Decoding.start, lead_one (Nat.lt_succ_of_le hone), hc]
  · obtain ⟨byte, b, left, hopened, hadmits, hbytes⟩ := Opened.of_char rfl (Nat.lt_of_not_le hone)
    have hfirst : Decoding.take ⟨none, read⟩ byte = ⟨some b, read⟩ := hopened.reads read
    rw [hbytes, List.foldl_cons, hfirst, hadmits.foldl_take, hc]

/-! ## Texts -/

theorem foldl_take_encode (read : List (Option Char)) (cs : List Char) :
    (cs.flatMap String.utf8EncodeChar).foldl Decoding.take ⟨none, read⟩ =
      ⟨none, (cs.map some).reverse ++ read⟩ := by
  induction cs generalizing read with
  | nil => rfl
  | cons c cs ih =>
      rw [List.flatMap_cons, List.foldl_append, foldl_take_encodeChar, ih, List.map_cons,
        List.reverse_cons, List.append_assoc]
      rfl

theorem decode?_encode (cs : List Char) :
    decode? (cs.flatMap String.utf8EncodeChar) = some cs := by
  have hscan : scan (cs.flatMap String.utf8EncodeChar) = cs.map some := by
    rw [scan, foldl_take_encode, Decoding.finish]
    simp
  have hall : (cs.map some).all Option.isSome = true := by simp
  have hread : (cs.map some).filterMap id = cs := by simp
  rw [decode?, hscan, if_pos hall, hread]

theorem le_of_mem_tailBytes {n v : Nat} {byte : UInt8} (h : byte ∈ tailBytes n v) :
    0x80 ≤ byte.toNat := by
  induction n with
  | zero => cases h
  | succ n ih =>
      rw [tailBytes, List.mem_cons] at h
      cases h with
      | inl heq =>
          rw [heq]
          simp
          omega
      | inr htail => exact ih htail

theorem le_of_mem_encodeChar {c : Char} {byte : UInt8} (h : byte ∈ String.utf8EncodeChar c)
    (hc : ¬ c.val.toNat ≤ 127) : 0x80 ≤ byte.toNat := by
  obtain ⟨first, b, left, hopened, -, hbytes⟩ := Opened.of_char rfl (Nat.lt_of_not_le hc)
  rw [hbytes, List.mem_cons] at h
  cases h with
  | inl heq =>
      rw [heq]
      exact hopened.le_toNat
  | inr htail => exact le_of_mem_tailBytes htail

/-- A byte below 128 is a character of its own. -/
theorem eq_of_mem_encodeChar {c : Char} {byte : UInt8} (h : byte ∈ String.utf8EncodeChar c)
    (hbyte : byte.toNat < 0x80) : c.toNat = byte.toNat := by
  by_cases hone : c.val.toNat ≤ 127
  · simp only [String.utf8EncodeChar, if_pos hone] at h
    have hn : (UInt8.ofNat c.val.toNat).toNat = c.val.toNat := by
      rw [UInt8.toNat_ofNat']
      omega
    rw [List.mem_singleton.mp h, hn]
    rfl
  · have hle := le_of_mem_encodeChar h hone
    omega

theorem encodeChar_ne_nil (c : Char) : String.utf8EncodeChar c ≠ [] := by
  simp only [String.utf8EncodeChar]
  split
  · simp
  · split
    · simp
    · split
      · simp
      · simp

end Utf8

end Text

end Marginalia
