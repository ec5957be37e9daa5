import Marginalia.Text.Blank

/-!
# Texts that are not blank

A text with at least one character that is not blank; the text itself is kept as
it was given, blanks at its ends included.
-/

namespace Marginalia

structure NonBlank where
  text : String
  notBlank : Text.isBlankText text = false
  deriving DecidableEq

namespace NonBlank

def ofString? (s : String) : Option NonBlank :=
  if h : Text.isBlankText s = false then some ⟨s, h⟩ else none

def refusal : String := "content must not be empty"

theorem text_ne_empty (t : NonBlank) : t.text ≠ "" := by
  intro h
  have := t.notBlank
  rw [h, Text.isBlankText_empty] at this
  cases this

theorem ofString?_text (t : NonBlank) : ofString? t.text = some t := by
  simp [ofString?, t.notBlank]

end NonBlank

end Marginalia
