/-!
# Pieces between separators

A list with separators is the list of what stands between them: one piece more
than there are separators, and each of them may be empty. Paths are taken apart
at their slashes in this way, and lists of directives at their commas.
-/

namespace FileDigest

variable {α : Type} [DecidableEq α]

def piecesBetween (separator : α) : List α → List (List α)
  | [] => [[]]
  | x :: rest =>
      if x = separator then [] :: piecesBetween separator rest
      else
        match piecesBetween separator rest with
        | [] => [[x]]
        | p :: ps => (x :: p) :: ps

@[simp] theorem piecesBetween_nil (separator : α) :
    piecesBetween separator [] = [[]] := rfl

theorem piecesBetween_ne_nil (separator : α) (xs : List α) :
    piecesBetween separator xs ≠ [] := by
  cases xs with
  | nil => simp
  | cons x rest =>
      rw [piecesBetween]
      split
      · simp
      · split <;> simp

theorem piecesBetween_separator_cons (separator : α) (xs : List α) :
    piecesBetween separator (separator :: xs) =
      [] :: piecesBetween separator xs := by
  simp [piecesBetween]

theorem piecesBetween_eq_singleton {separator : α} {xs : List α}
    (h : separator ∉ xs) : piecesBetween separator xs = [xs] := by
  induction xs with
  | nil => rfl
  | cons x rest ih =>
      simp only [List.mem_cons, not_or] at h
      simp [piecesBetween, Ne.symm h.1, ih h.2]

theorem piecesBetween_append_separator {separator : α} {xs : List α}
    (h : separator ∉ xs) (ys : List α) :
    piecesBetween separator (xs ++ separator :: ys) =
      xs :: piecesBetween separator ys := by
  induction xs with
  | nil => exact piecesBetween_separator_cons separator ys
  | cons x rest ih =>
      simp only [List.mem_cons, not_or] at h
      simp [piecesBetween, Ne.symm h.1, ih h.2]

end FileDigest
