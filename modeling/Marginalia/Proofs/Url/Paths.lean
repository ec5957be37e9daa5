import Marginalia.Proofs.Text.Parts
import Marginalia.Proofs.Text.Utf8
import Marginalia.Url.Path

/-!
# Paths in their usual form

A path of the web that has been read is in its usual form: it has only characters that may
stand in a path, and no segment of dots.  Reading it again leaves it as it is, also when a slash
or further segments have been put at its end.
-/

namespace Marginalia

namespace Url

/-! ## Encoding -/

section

variable {inSet : Char → Bool} {cs : List Char}

theorem percentEncode_eq_self (h : ∀ c ∈ cs, inSet c = false) : percentEncode inSet cs = cs := by
  induction cs with
  | nil => rfl
  | cons c cs ih =>
      have hrest := ih fun d hd => h d (List.mem_cons_of_mem c hd)
      simp only [percentEncode, List.flatMap_cons] at hrest ⊢
      rw [hrest, h c List.mem_cons_self]
      rfl

theorem exists_infix_percentEncode {c : Char} (hc : c ∈ cs) (h : inSet c = true) :
    ∃ b ∈ String.utf8EncodeChar c, percentByte b <:+: percentEncode inSet cs := by
  obtain ⟨front, back, rfl⟩ := List.append_of_mem hc
  obtain ⟨b, bytes, hbytes⟩ := List.exists_cons_of_ne_nil (Text.Utf8.encodeChar_ne_nil c)
  have hencode : Text.Utf8.encode (String.singleton c) = b :: bytes := by
    have hone : String.singleton c = String.ofList [c] := rfl
    rw [hone, Text.Utf8.encode_ofList, List.flatMap_singleton, hbytes]
  refine ⟨b, hbytes ▸ List.mem_cons_self, ?_⟩
  rw [percentEncode, List.flatMap_append, List.flatMap_cons, if_pos h, hencode,
    List.flatMap_cons, List.append_assoc]
  exact List.infix_append' _ _ _

end

theorem inPathSet_of_mem_percentByte {b : UInt8} {c : Char} (h : c ∈ percentByte b) :
    inPathSet c = false ∧ c ≠ '/' ∧ c ≠ '\\' := by
  have hdigit : ∀ n < 16, inPathSet (capitalHex n) = false ∧ capitalHex n ≠ '/' ∧
      capitalHex n ≠ '\\' := by
    decide
  have hb := b.toNat_lt
  simp only [percentByte, List.mem_cons, List.not_mem_nil, or_false] at h
  rcases h with rfl | rfl | rfl
  · decide
  · exact hdigit _ (by omega)
  · exact hdigit _ (by omega)

theorem inPathSet_of_mem_percentEncode {cs : List Char} (h : ∀ c ∈ cs, c ≠ '/' ∧ c ≠ '\\')
    {c : Char} (hc : c ∈ percentEncode inPathSet cs) :
    inPathSet c = false ∧ c ≠ '/' ∧ c ≠ '\\' := by
  obtain ⟨d, hd, hmem⟩ := List.mem_flatMap.mp hc
  split at hmem
  · obtain ⟨b, -, hb⟩ := List.mem_flatMap.mp hmem
    exact inPathSet_of_mem_percentByte hb
  · next hset =>
      rw [List.mem_singleton.mp hmem]
      exact ⟨Bool.eq_false_iff.mpr hset, h d hd⟩

/-! ## Segments of dots -/

def dots : List (List Char) :=
  [['.'], ['%', '2', 'e'], ['.', '.'], ['.', '%', '2', 'e'], ['%', '2', 'e', '.'],
    ['%', '2', 'e', '%', '2', 'e']]

theorem mem_dots_iff (segment : List Char) :
    segment.map Text.asciiLower ∈ dots ↔
      isSingleDot segment = true ∨ isDoubleDot segment = true := by
  simp only [dots, isSingleDot, isDoubleDot, List.mem_cons, List.not_mem_nil, or_false,
    Bool.or_eq_true, beq_iff_eq]
  tauto

/-- Of all bytes a segment of dots spells only the dot. -/
theorem not_infix_dots : ∀ n < 256, n ≠ 46 → ∀ segment ∈ dots,
    ¬ (percentByte (UInt8.ofNat n)).map Text.asciiLower <:+: segment := by
  decide +kernel

theorem toNat_ne_dot {c : Char} (h : inPathSet c = true) {b : UInt8}
    (hb : b ∈ String.utf8EncodeChar c) : b.toNat ≠ 46 := by
  intro hdot
  have hcode := Text.Utf8.eq_of_mem_encodeChar hb (by omega)
  have hc : c = '.' := Char.toNat_inj.mp (hcode.trans hdot)
  rw [hc] at h
  exact absurd h (by decide)

theorem mem_dots_of_percentEncode {segment : List Char}
    (h : (percentEncode inPathSet segment).map Text.asciiLower ∈ dots) :
    segment.map Text.asciiLower ∈ dots := by
  have hclear : ∀ c ∈ segment, inPathSet c = false := by
    intro c hc
    rw [← Bool.not_eq_true]
    intro hset
    obtain ⟨b, hb, hinfix⟩ := exists_infix_percentEncode hc hset
    refine not_infix_dots b.toNat b.toNat_lt (toNat_ne_dot hset hb) _ h ?_
    rw [UInt8.ofNat_toNat]
    exact hinfix.map _
  rwa [percentEncode_eq_self hclear] at h

/-! ## Segments that stay as they are -/

/-- A segment that reading leaves as it is. -/
structure Segment where
  chars : List Char
  allowed : ∀ c ∈ chars, inPathSet c = false ∧ c ≠ '/' ∧ c ≠ '\\'
  notDots : chars.map Text.asciiLower ∉ dots

namespace Segment

def ofChecked (chars : List Char)
    (hallowed : chars.all (fun c => !inPathSet c && c != '/' && c != '\\') = true)
    (hdots : dots.contains (chars.map Text.asciiLower) = false) : Segment where
  chars := chars
  allowed c hc := by simpa [and_assoc] using List.all_eq_true.mp hallowed c hc
  notDots hmem := by
    rw [List.contains_iff_mem.mpr hmem] at hdots
    cases hdots

def empty : Segment :=
  ofChecked [] rfl rfl

def encoded (text : List Char) (hchars : ∀ c ∈ text, c ≠ '/' ∧ c ≠ '\\')
    (hdots : text.map Text.asciiLower ∉ dots) : Segment where
  chars := percentEncode inPathSet text
  allowed _ hc := inPathSet_of_mem_percentEncode hchars hc
  notDots h := hdots (mem_dots_of_percentEncode h)

theorem not_mem (s : Segment) : '/' ∉ s.chars :=
  fun hmem => (s.allowed '/' hmem).2.1 rfl

theorem addSegment_eq (s : Segment) (back : List Char) (hasSlash : Bool) :
    addSegment false back s.chars hasSlash =
      (if hasSlash then ['/'] else []) ++ s.chars.reverse ++ back := by
  have htabs : s.chars.filter (· != '\t') = s.chars := by
    refine List.filter_eq_self.mpr fun c hc => bne_iff_ne.mpr ?_
    rintro rfl
    exact absurd (s.allowed '\t' hc).1 (by decide)
  have hnot := mt (mem_dots_iff s.chars).mpr s.notDots
  rw [not_or, Bool.not_eq_true, Bool.not_eq_true] at hnot
  have hencode := percentEncode_eq_self fun c hc => (s.allowed c hc).1
  simp only [addSegment, Bool.false_and, Bool.false_eq_true, if_false, htabs, hnot.1, hnot.2,
    hencode]
  cases hasSlash <;> rfl

def spell (segments : List Segment) (last : Segment) : List Char :=
  segments.flatMap (·.chars ++ ['/']) ++ last.chars

theorem partsAt_spell (segments : List Segment) (last : Segment) :
    Text.partsAt '/' (spell segments last) = segments.map chars ++ [last.chars] := by
  have hparts : ∀ part ∈ segments.map chars, '/' ∉ part :=
    List.forall_mem_map.mpr fun s _ => s.not_mem
  rw [spell, ← Text.partsAt_flatMap_append hparts last.not_mem, List.flatMap_map]

theorem not_mem_spell (segments : List Segment) (last : Segment) :
    '\\' ∉ spell segments last := by
  intro hmem
  rcases List.mem_append.mp hmem with hmem | hmem
  · obtain ⟨s, -, hmem⟩ := List.mem_flatMap.mp hmem
    rcases List.mem_append.mp hmem with hmem | hmem
    · exact (s.allowed _ hmem).2.2 rfl
    · exact absurd (List.mem_singleton.mp hmem) (by decide)
  · exact (last.allowed _ hmem).2.2 rfl

end Segment

/-! ## Paths with a slash at their ends -/

def dirs (segments : List Segment) : List Char :=
  '/' :: segments.flatMap (·.chars ++ ['/'])

theorem dirs_concat (segments : List Segment) (s : Segment) :
    dirs (segments ++ [s]) = dirs segments ++ s.chars ++ ['/'] := by
  simp [dirs]

theorem exists_dirs_eq_concat (segments : List Segment) :
    ∃ front, dirs segments = front ++ ['/'] := by
  rcases List.eq_nil_or_concat segments with rfl | ⟨front, last, rfl⟩
  · exact ⟨[], rfl⟩
  · rw [List.concat_eq_append, dirs_concat]
    exact ⟨dirs front ++ last.chars, rfl⟩

theorem exists_reverse_dirs_eq_cons (segments : List Segment) :
    ∃ back, (dirs segments).reverse = '/' :: back := by
  obtain ⟨front, hfront⟩ := exists_dirs_eq_concat segments
  exact ⟨front.reverse, by rw [hfront, List.reverse_concat]⟩

theorem withSlash_reverse_dirs (segments : List Segment) :
    withSlash (dirs segments).reverse = (dirs segments).reverse := by
  obtain ⟨back, hback⟩ := exists_reverse_dirs_eq_cons segments
  rw [hback]
  rfl

theorem withoutLast_append {segment : List Char} (h : '/' ∉ segment) (segments : List Segment) :
    withoutLast false (segment.reverse ++ (dirs segments).reverse) =
      (dirs segments).reverse := by
  obtain ⟨back, hback⟩ := exists_reverse_dirs_eq_cons segments
  have hsegment : ∀ c ∈ segment.reverse, (c != '/') = true := by
    intro c hc
    exact bne_iff_ne.mpr fun heq => h (heq ▸ List.mem_reverse.mp hc)
  simp only [withoutLast, Bool.false_and, Bool.false_eq_true, if_false]
  rw [hback, List.dropWhile_append_of_pos hsegment]
  rfl

theorem withoutLast_reverse_dirs (segments : List Segment) :
    withoutLast false (dirs segments).reverse = (dirs segments).reverse :=
  withoutLast_append List.not_mem_nil segments

/-- Going up takes away the last segment, or nothing: at the top, and behind a drive. -/
theorem exists_withoutLast_withoutSlash (segments : List Segment) :
    ∃ above, withoutLast false (withoutSlash (dirs segments).reverse) = (dirs above).reverse := by
  rcases List.eq_nil_or_concat segments with rfl | ⟨front, last, rfl⟩
  · exact ⟨[], rfl⟩
  · rw [List.concat_eq_append]
    have hback : (dirs (front ++ [last])).reverse =
        '/' :: (last.chars.reverse ++ (dirs front).reverse) := by
      simp [dirs_concat]
    rw [hback, withoutSlash]
    split
    · exact ⟨front, withoutLast_append last.not_mem front⟩
    · exact ⟨front ++ [last], by rw [← hback, withoutLast_reverse_dirs]⟩

/-! ## Reading -/

def IsUsual (path : List Char) : Prop :=
  ∃ segments last, path = dirs segments ++ Segment.chars last

theorem isUsual_dirs (segments : List Segment) : IsUsual (dirs segments) :=
  ⟨segments, .empty, (List.append_nil _).symm⟩

theorem exists_addSegment (segments : List Segment) {segment : List Char}
    (hchars : ∀ c ∈ segment, c ≠ '/' ∧ c ≠ '\\') (hasSlash : Bool) :
    ∃ segments' last, (hasSlash = true → last = Segment.empty) ∧
      addSegment false (dirs segments).reverse segment hasSlash =
        (dirs segments' ++ last.chars).reverse := by
  have hkept : ∀ c ∈ segment.filter (· != '\t'), c ≠ '/' ∧ c ≠ '\\' :=
    fun c hc => hchars c (List.mem_of_mem_filter hc)
  simp only [addSegment, Bool.false_and, Bool.false_eq_true, if_false]
  generalize segment.filter (· != '\t') = kept at hkept
  by_cases hdouble : isDoubleDot kept = true
  · obtain ⟨above, hup⟩ := exists_withoutLast_withoutSlash segments
    refine ⟨above, .empty, fun _ => rfl, ?_⟩
    rw [if_pos hdouble, hup, withSlash_reverse_dirs, ite_self]
    simp [Segment.empty, Segment.ofChecked]
  · by_cases hsingle : isSingleDot kept = true
    · refine ⟨segments, .empty, fun _ => rfl, ?_⟩
      rw [if_neg hdouble, if_pos hsingle, withSlash_reverse_dirs]
      simp [Segment.empty, Segment.ofChecked]
    · have hdots : kept.map Text.asciiLower ∉ dots := by
        rw [mem_dots_iff]
        exact not_or.mpr ⟨hsingle, hdouble⟩
      let added := Segment.encoded kept hkept hdots
      rw [if_neg hdouble, if_neg hsingle]
      cases hasSlash with
      | false =>
          exact ⟨segments, added, fun hslash => absurd hslash (by decide),
            (List.reverse_append ..).symm⟩
      | true =>
          refine ⟨segments ++ [added], .empty, fun _ => rfl, ?_⟩
          simp [dirs_concat, Segment.empty, Segment.ofChecked, added, Segment.encoded]

theorem exists_addSegments (segments : List Segment) {parts : List (List Char)}
    (hparts : ∀ part ∈ parts, ∀ c ∈ part, c ≠ '/' ∧ c ≠ '\\') :
    ∃ path, IsUsual path ∧ addSegments false (dirs segments).reverse parts = path.reverse := by
  induction parts generalizing segments with
  | nil => exact ⟨dirs segments, isUsual_dirs segments, rfl⟩
  | cons part parts ih =>
      have hpart := hparts part List.mem_cons_self
      cases parts with
      | nil =>
          obtain ⟨segments', last, -, hadd⟩ := exists_addSegment segments hpart false
          exact ⟨_, ⟨segments', last, rfl⟩, hadd⟩
      | cons next parts =>
          obtain ⟨segments', last, hend, hadd⟩ := exists_addSegment segments hpart true
          have hslash : dirs segments' ++ last.chars = dirs segments' := by
            rw [hend rfl]
            exact List.append_nil _
          rw [hslash] at hadd
          rw [addSegments, hadd]
          · exact ih segments' fun part' hpart' => hparts part' (List.mem_cons_of_mem part hpart')
          · exact List.cons_ne_nil _ _

theorem reverse_dirs_nil : (dirs []).reverse = ['/'] := rfl

theorem isUsual_readPath (text : List Char) : IsUsual (readPath false true ['/'] text) := by
  have hparts : ∀ part ∈ Text.partsAt '/' (text.map fun c => if isSlash true c then '/' else c),
      ∀ c ∈ part, c ≠ '/' ∧ c ≠ '\\' := by
    intro part hpart c hc
    obtain ⟨hslash, hmem⟩ := Text.ne_and_mem_of_mem_partsAt hpart hc
    refine ⟨hslash, ?_⟩
    obtain ⟨d, -, rfl⟩ := List.mem_map.mp hmem
    split
    · decide
    · next hd =>
        rintro rfl
        exact hd rfl
  obtain ⟨path, hpath, hadd⟩ := exists_addSegments [] hparts
  rw [reverse_dirs_nil] at hadd
  rw [readPath, hadd, List.reverse_reverse]
  exact hpath

theorem addSegments_append (before segments : List Segment) (last : Segment) :
    addSegments false (dirs before).reverse (segments.map Segment.chars ++ [last.chars]) =
      (dirs before ++ Segment.spell segments last).reverse := by
  induction segments generalizing before with
  | nil => simp [addSegments, last.addSegment_eq, Segment.spell]
  | cons s segments ih =>
      have hstep : addSegment false (dirs before).reverse s.chars true =
          (dirs (before ++ [s])).reverse := by
        simp [s.addSegment_eq, dirs_concat]
      have hspell : dirs (before ++ [s]) ++ Segment.spell segments last =
          dirs before ++ Segment.spell (s :: segments) last := by
        simp [dirs_concat, Segment.spell]
      rw [List.map_cons, List.cons_append, addSegments, hstep, ih, hspell]
      simp

theorem map_slash_eq_self {text : List Char} (h : '\\' ∉ text) :
    text.map (fun c => if isSlash true c then '/' else c) = text := by
  refine (List.map_congr_left fun c hc => ?_).trans (List.map_id _)
  by_cases hslash : c = '/'
  · rw [hslash]
    rfl
  · have hback : c ≠ '\\' := fun heq => h (heq ▸ hc)
    simp [isSlash, hslash, hback]

theorem IsUsual.readPath {path : List Char} (h : IsUsual path) :
    readPath false true ['/'] (path.drop 1) = path := by
  obtain ⟨segments, last, rfl⟩ := h
  have htail : (dirs segments ++ last.chars).drop 1 = Segment.spell segments last := rfl
  have hpath : dirs segments ++ last.chars = dirs [] ++ Segment.spell segments last := rfl
  rw [Url.readPath, htail, map_slash_eq_self (Segment.not_mem_spell segments last),
    Segment.partsAt_spell, ← reverse_dirs_nil, addSegments_append, List.reverse_reverse, hpath]

/-! ## A slash and more behind a path -/

def closed (path : List Char) : List Char :=
  if path.getLast? = some '/' then path else path ++ ['/']

theorem exists_closed_eq_concat (path : List Char) : ∃ front, closed path = front ++ ['/'] := by
  by_cases hslash : path.getLast? = some '/'
  · rw [closed, if_pos hslash]
    exact List.getLast?_eq_some_iff.mp hslash
  · rw [closed, if_neg hslash]
    exact ⟨path, rfl⟩

/-- A relative path goes on where a path with a slash at its end stops. -/
theorem follow_closed (path relative : List Char) :
    follow false (closed path) relative = closed path ++ relative := by
  obtain ⟨front, hfront⟩ := exists_closed_eq_concat path
  have hback : (closed path).reverse = '/' :: front.reverse := by
    rw [hfront, List.reverse_concat]
  have hplace : withSlash (withoutLast false (closed path).reverse) = (closed path).reverse := by
    rw [hback]
    rfl
  rw [follow, hplace, List.reverse_reverse]

theorem IsUsual.exists_closed_eq_dirs {path : List Char} (h : IsUsual path) :
    ∃ segments, closed path = dirs segments := by
  obtain ⟨segments, last, rfl⟩ := h
  by_cases hempty : last.chars = []
  · obtain ⟨front, hfront⟩ := exists_dirs_eq_concat segments
    refine ⟨segments, ?_⟩
    rw [hempty, List.append_nil, closed, if_pos]
    rw [hfront, List.getLast?_concat]
  · have hend : (dirs segments ++ last.chars).getLast? ≠ some '/' := by
      rw [List.getLast?_append_of_ne_nil _ hempty]
      exact fun heq => last.not_mem (List.mem_of_getLast? heq)
    refine ⟨segments ++ [last], ?_⟩
    rw [closed, if_neg hend, dirs_concat]

end Url

end Marginalia
