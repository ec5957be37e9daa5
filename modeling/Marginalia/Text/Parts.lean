/-!
# Parts of a text

A text cut at each occurrence of a character.  There is always one part more than there
are cuts, and a part may be empty.
-/

namespace Marginalia

namespace Text

def partsAt (sep : Char) (cs : List Char) : List (List Char) :=
  cs.foldr
    (fun c parts =>
      if c = sep then [] :: parts
      else
        match parts with
        | [] => [[c]]
        | part :: parts => (c :: part) :: parts)
    [[]]

def joinWith (sep : Char) : List (List Char) → List Char
  | [] => []
  | [part] => part
  | part :: parts => part ++ sep :: joinWith sep parts

theorem partsAt_ne_nil (sep : Char) (cs : List Char) : partsAt sep cs ≠ [] := by
  cases cs with
  | nil => simp [partsAt]
  | cons c cs =>
      simp only [partsAt, List.foldr_cons]
      split
      · simp
      · split <;> simp

theorem joinWith_partsAt (sep : Char) (cs : List Char) : joinWith sep (partsAt sep cs) = cs := by
  induction cs with
  | nil => rfl
  | cons c cs ih =>
      have step : partsAt sep (c :: cs) =
          if c = sep then [] :: partsAt sep cs
          else
            match partsAt sep cs with
            | [] => [[c]]
            | part :: parts => (c :: part) :: parts := rfl
      rw [step]
      match h : partsAt sep cs with
      | [] => exact absurd h (partsAt_ne_nil sep cs)
      | [part] =>
          rw [h] at ih
          split
          · next hc => simp [joinWith, hc] at ih ⊢; exact ih
          · simp [joinWith] at ih ⊢; exact ih
      | part :: next :: parts =>
          rw [h] at ih
          split
          · next hc => simp [joinWith, hc] at ih ⊢; exact ih
          · simp [joinWith] at ih ⊢; exact ih

end Text

end Marginalia
