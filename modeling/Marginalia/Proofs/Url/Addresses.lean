import Marginalia.Proofs.Json.Digits
import Marginalia.Proofs.Url.Paths
import Marginalia.Url.Parser

/-!
# Addresses of the web that are read

The path of such an address is in its usual form.  Its host is a name, a number of the old
kind, or one of the new kind in brackets.
-/

namespace Marginalia

namespace Url

open Json (bind_eq_ok_iff)

/-! ## Hosts -/

theorem head?_renderOldNumber (n : Nat) : ∃ c, (renderOldNumber n).head? = some c ∧
    Text.isDigit c = true := by
  have hne : (toString (n / 16777216 % 256)).toList ≠ [] := by
    simp
  obtain ⟨c, cs, hcs⟩ := List.exists_cons_of_ne_nil hne
  have hdigits : (toString (n / 16777216 % 256)).toList = Nat.toDigits 10 (n / 16777216 % 256) := by
    simp
  refine ⟨c, ?_, ?_⟩
  · simp only [renderOldNumber, String.intercalate_cons_cons, String.toList_append, hcs,
      List.cons_append, List.head?_cons]
  · refine Json.isDigit_of_mem_toDigits (n := n / 16777216 % 256) ?_
    rw [← hdigits, hcs]
    exact List.mem_cons_self

theorem head?_bracketed {cs host : List Char} (h : bracketed cs = .ok host) :
    host.head? = some '[' := by
  unfold bracketed at h
  split at h
  · split at h
    · cases h
      rfl
    · cases h
  · cases h

namespace Name

/-- What a label is written as begins with a colon only if the label does. -/
theorem Label.head?_written {label : List Char} {l : Label} (h : Label.of? label = some l)
    (hcolon : l.written.head? = some ':') : label.head? = some ':' := by
  unfold Label.of? at h
  split at h
  · obtain ⟨meaning, -, rfl⟩ := Option.map_eq_some_iff.mp h
    exact hcolon
  · split at h
    · cases h
      exact hcolon
    · split at h
      · cases h
      · cases h
        exact absurd (Option.some.inj hcolon) (by decide)

theorem head?_ascii {cs name : List Char} (h : ascii? cs = some name) :
    name.head? ≠ some ':' := by
  simp only [ascii?, Option.bind_eq_bind, Option.bind_eq_some_iff] at h
  obtain ⟨settled, -, h⟩ := h
  split at h
  · cases h
  · next hforbidden =>
      obtain ⟨labels, hlabels, h⟩ := Option.bind_eq_some_iff.mp h
      split at h
      · cases h
        intro hcolon
        obtain ⟨part, parts, hparts⟩ :=
          List.exists_cons_of_ne_nil (Text.partsAt_ne_nil '.' settled)
        rw [hparts, List.mapM_cons] at hlabels
        obtain ⟨first, hfirst, hlabels⟩ := Option.bind_eq_some_iff.mp hlabels
        obtain ⟨others, -, hlabels⟩ := Option.bind_eq_some_iff.mp hlabels
        cases hlabels
        have hwritten := (Text.head?_joinWith hcolon).resolve_left (by decide)
        have hmem := List.mem_of_head? (Label.head?_written hfirst hwritten)
        have hpart := Text.ne_and_mem_of_mem_partsAt (hparts ▸ List.mem_cons_self) hmem
        exact hforbidden (List.any_eq_true.mpr ⟨':', hpart.2, by decide⟩)
      · cases h

end Name

/-- No host of an address of the web begins with a colon. -/
theorem head?_specialHost {cs host : List Char} (h : specialHost cs = .ok host) :
    host.head? ≠ some ':' := by
  unfold specialHost at h
  split at h
  · rw [head?_bracketed h]
    decide
  · split at h
    · cases h
    · cases h
    · next name hname =>
        obtain ⟨text, -, hascii⟩ := Option.bind_eq_some_iff.mp hname
        split at h
        · split at h
          · cases h
            obtain ⟨c, hc, hdigit⟩ := head?_renderOldNumber ‹_›
            rw [hc]
            rintro ⟨⟩
            exact absurd hdigit (by decide)
          · cases h
        · cases h
          exact Name.head?_ascii hascii

/-! ## Authorities and addresses -/

theorem exists_specialHost {scheme cs rest : List Char} {a : Authority}
    (hspecial : isSpecialScheme scheme = true)
    (h : readAuthority scheme cs = .ok (a, rest)) :
    ∃ text, specialHost text = .ok a.host := by
  unfold readAuthority at h
  simp only [hspecial, if_true, true_and] at h
  split at h
  · cases h
  · split at h
    · cases h
    · obtain ⟨host, hhost, h⟩ := bind_eq_ok_iff.mp h
      split at h
      · cases h
      · obtain ⟨port, -, h⟩ := bind_eq_ok_iff.mp h
        cases h
        exact ⟨_, hhost⟩

def IsOfWeb (u : Url) : Prop :=
  u.scheme = ['h', 't', 't', 'p'] ∨ u.scheme = ['h', 't', 't', 'p', 's']

structure IsSettled (u : Url) : Prop where
  authority : ∃ a, u.authority = some a ∧ a.host.head? ≠ some ':'
  path : ∃ p, u.path = .rooted p ∧ IsUsual p

theorem scheme_withAuthority {scheme cs : List Char} {u : Url}
    (h : withAuthority scheme cs = .ok u) : u.scheme = scheme := by
  obtain ⟨authority, -, h⟩ := bind_eq_ok_iff.mp h
  cases h
  rfl

theorem isSettled_withAuthority {scheme cs : List Char} {u : Url}
    (hspecial : isSpecialScheme scheme = true) (h : withAuthority scheme cs = .ok u) :
    u.IsSettled := by
  unfold withAuthority at h
  obtain ⟨⟨a, rest⟩, hauthority, h⟩ := bind_eq_ok_iff.mp h
  obtain ⟨text, hhost⟩ := exists_specialHost hspecial hauthority
  simp only [hspecial] at h
  cases h
  refine ⟨⟨a, rfl, head?_specialHost hhost⟩, _, rfl, ?_⟩
  split
  · exact isUsual_dirs []
  · split
    · exact isUsual_readPath _
    · exact isUsual_readPath _

theorem scheme_ofFile {scheme cs : List Char} {u : Url} (h : ofFile scheme cs = .ok u) :
    u.scheme = scheme := by
  unfold ofFile at h
  dsimp only at h
  split at h
  · cases h
    rfl
  · obtain ⟨named, -, h⟩ := bind_eq_ok_iff.mp h
    cases h
    rfl

namespace IsOfWeb

variable {u : Url}

theorem isFileScheme (h : u.IsOfWeb) : isFileScheme u.scheme = false := by
  rcases h with h | h
  · rw [h]
    decide
  · rw [h]
    decide

theorem isSpecialScheme (h : u.IsOfWeb) : isSpecialScheme u.scheme = true := by
  rcases h with h | h
  · rw [h]
    decide
  · rw [h]
    decide

theorem isSettled (hweb : u.IsOfWeb) {text : String} (h : parse text = .ok u) : u.IsSettled := by
  unfold parse at h
  split at h
  · cases h
  · next scheme rest _ =>
      split at h
      · next hfile =>
          rw [← scheme_ofFile h, hweb.isFileScheme] at hfile
          cases hfile
      · dsimp only at h
        split at h
        · next hspecial => exact isSettled_withAuthority hspecial h
        · next hplain =>
            have hscheme : u.scheme = scheme := by
              split at h
              · exact scheme_withAuthority h
              · cases h
                rfl
            rw [← hscheme] at hplain
            exact absurd hweb.isSpecialScheme hplain

end IsOfWeb

/-! ## Addresses below another one -/

/-- The address with another path, which is read from a text that begins with a slash. -/
def setPath (u : Url) (text : List Char) : Url :=
  { u with
    path := .rooted
      (readPath (Url.isFileScheme u.scheme) (Url.isSpecialScheme u.scheme) ['/'] (text.drop 1)) }

/--
The address that a relative path leads to: its segments are read behind the path of the address
without its last one.
-/
def resolve (u : Url) (relative : List Char) : Url :=
  let path (text : List Char) : List Char :=
    (addSegments (Url.isFileScheme u.scheme) (withoutLast (Url.isFileScheme u.scheme) text.reverse)
      (Text.partsAt '/' relative)).reverse
  match u.path with
  | .plain _ => u
  | .rooted text => { u with path := .rooted (path text), query := none, fragment := none }

section

variable {u : Url}

theorem withTrailingSlash_of_rooted {p : List Char} (hfile : Url.isFileScheme u.scheme = false)
    (hpath : u.path = .rooted p) :
    u.withTrailingSlash = { u with path := .rooted (closed p) } := by
  rw [withTrailingSlash, hpath, hfile]
  rfl

/-- When the path of an address of the web is read with a slash behind it, no more is changed. -/
theorem setPath_closed {p : List Char} (hweb : u.IsOfWeb) (hp : IsUsual p) :
    u.setPath (closed p) = { u with path := .rooted (closed p) } := by
  obtain ⟨segments, hclosed⟩ := hp.exists_closed_eq_dirs
  rw [hclosed, setPath, hweb.isFileScheme, hweb.isSpecialScheme, (isUsual_dirs segments).readPath]

/-- Segments that stay as they are go on behind a path with a slash at its end. -/
theorem resolve_spell {before : List Segment} (hweb : u.IsOfWeb)
    (hpath : u.path = .rooted (dirs before)) (segments : List Segment) (last : Segment) :
    u.resolve (Segment.spell segments last) =
      { u with
        path := .rooted (dirs before ++ Segment.spell segments last)
        query := none
        fragment := none } := by
  simp only [resolve, hpath, hweb.isFileScheme, withoutLast_reverse_dirs, Segment.partsAt_spell,
    addSegments_append, List.reverse_reverse]

end

end Url

end Marginalia
