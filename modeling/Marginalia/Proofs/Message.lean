import Marginalia.Message
import Marginalia.Proofs.Text.Chunks

/-!
# Messages of a text

A text that is sent in chunks makes one user message of each chunk.  None is left out, since no
chunk is empty, so the contents put together are the text.
-/

namespace Marginalia

namespace Message

theorem user?_eq {content : String} (h : content ≠ "") :
    user? content = some ⟨.user, content, h⟩ := by
  rw [user?, dif_pos h]

theorem map_content_filterMap {texts : List String} (h : ∀ text ∈ texts, text ≠ "") :
    (texts.filterMap user?).map (·.content) = texts := by
  induction texts with
  | nil => rfl
  | cons text texts ih =>
      have hothers := ih fun other hmem => h other (List.mem_cons_of_mem text hmem)
      rw [List.filterMap_cons_some (user?_eq (h text List.mem_cons_self)), List.map_cons, hothers]

theorem map_content_chunked (text : String) (budget : Text.Budget) :
    (chunked text budget).map (·.content) = Text.chunk text budget := by
  apply map_content_filterMap
  intro part hpart hempty
  have hlength := (Text.length_of_mem_chunk hpart).1
  rw [hempty] at hlength
  simp at hlength

/-- The messages of a text that is cut into chunks hold this text. -/
theorem flatMap_chunked (text : String) (budget : Text.Budget) :
    (chunked text budget).flatMap (·.content.toList) = text.toList := by
  rw [← Text.flatMap_chunk text budget, ← map_content_chunked, List.flatMap_map]

theorem length_content_of_mem_chunked {text : String} {budget : Text.Budget} {m : Message}
    (h : m ∈ chunked text budget) : 1 ≤ m.content.length ∧ m.content.length ≤ budget.chars := by
  apply Text.length_of_mem_chunk (s := text)
  rw [← map_content_chunked]
  exact List.mem_map_of_mem h

theorem role_of_mem_chunked {text : String} {budget : Text.Budget} {m : Message}
    (h : m ∈ chunked text budget) : m.role = .user := by
  obtain ⟨part, -, hpart⟩ := List.mem_filterMap.mp h
  unfold user? at hpart
  split at hpart
  · cases hpart
    rfl
  · cases hpart

end Message

end Marginalia
