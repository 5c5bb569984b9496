/-!
# Pieces between separators

Paths and standard input are cut at a separator into pieces, one more than there are separators.

## Main definitions

* `Text.pieces` — the pieces of a list between the separators in it.

## Main results

* `Text.pieces_ne_nil` — there is always a piece.
-/

namespace CurlyScript
namespace Text

variable {α : Type} [DecidableEq α]

/-- Puts an element in front of the first piece. -/
def extendFirst (a : α) : List (List α) → List (List α)
  | [] => [[a]]
  | piece :: rest => (a :: piece) :: rest

/-- The pieces of a list between the separators in it. -/
def pieces (separator : α) : List α → List (List α)
  | [] => [[]]
  | a :: as => if a = separator then [] :: pieces separator as
    else extendFirst a (pieces separator as)

theorem pieces_ne_nil (separator : α) (as : List α) : pieces separator as ≠ [] := by
  cases as with
  | nil => simp [pieces]
  | cons a as =>
    unfold pieces
    split
    · simp
    · cases pieces separator as <;> simp [extendFirst]

end Text
end CurlyScript
