/-!
# Separators

Cutting texts at a separator: everywhere, or at the first place only.
-/

namespace SearchFilter.Text

/-- The parts of a text between the separators. -/
def split (separator : Char) : List Char → List (List Char)
  | [] => [[]]
  | c :: rest =>
    if c = separator then [] :: split separator rest
    else
      match split separator rest with
      | part :: parts => (c :: part) :: parts
      | [] => [[c]]

/-- What stands before the first separator, and what stands behind it if there is one. -/
def cutAt (separator : Char) : List Char → List Char × Option (List Char)
  | [] => ([], none)
  | c :: rest =>
    if c = separator then ([], some rest)
    else ((c :: (cutAt separator rest).1), (cutAt separator rest).2)

theorem split_ne_nil {separator : Char} {cs : List Char} : split separator cs ≠ [] := by
  cases cs with
  | nil => simp [split]
  | cons c rest =>
    unfold split
    split
    · simp
    · split <;> simp

/-- A separator ends the parts of what stands before it. -/
theorem split_append_cons (separator : Char) (front back : List Char) :
    split separator (front ++ separator :: back) =
      split separator front ++ split separator back := by
  induction front with
  | nil => simp [split]
  | cons c front ih =>
    simp only [List.cons_append, split]
    split
    · rw [ih, List.cons_append]
    · cases hs : split separator front with
      | nil => exact absurd hs split_ne_nil
      | cons part parts =>
        rw [ih, hs]
        rfl

end SearchFilter.Text
