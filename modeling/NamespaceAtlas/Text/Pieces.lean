-- Cutting a list at its marks. A list with `n` marks has `n + 1` pieces, and
-- the pieces hold everything but the marks.

namespace NamespaceAtlas

variable {α : Type}

/-- The pieces of a list between the elements that are marks. -/
def pieces (isMark : α → Bool) : List α → List (List α)
  | [] => [[]]
  | a :: rest =>
    if isMark a then [] :: pieces isMark rest
    else
      match pieces isMark rest with
      | [] => [[a]]
      | piece :: more => (a :: piece) :: more

/-- There is always a first piece. -/
theorem pieces_ne_nil (isMark : α → Bool) (l : List α) : pieces isMark l ≠ [] := by
  cases l with
  | nil => simp [pieces]
  | cons a rest =>
    simp only [pieces]
    split
    · simp
    · split <;> simp

/-- The pieces hold everything but the marks, in order. -/
theorem flatten_pieces (isMark : α → Bool) (l : List α) :
    (pieces isMark l).flatten = l.filter (!isMark ·) := by
  induction l with
  | nil => rfl
  | cons a rest ih =>
    simp only [pieces]
    split
    · rename_i h
      simp [h, ih]
    · rename_i h
      split
      · rename_i hnil
        exact absurd hnil (pieces_ne_nil isMark rest)
      · rename_i piece more hpieces
        rw [hpieces] at ih
        simp [h, ← ih]

/-- The part of a list before the first mark, and the part after it. -/
def cutAt (isMark : α → Bool) : List α → Option (List α × List α)
  | [] => none
  | a :: rest =>
    if isMark a then some ([], rest)
    else (cutAt isMark rest).map fun (before, after) => (a :: before, after)

/-- The part of a list before the last mark, and the part after it. -/
def cutAtLast (isMark : α → Bool) : List α → Option (List α × List α)
  | [] => none
  | a :: rest =>
    match cutAtLast isMark rest with
    | some (before, after) => some (a :: before, after)
    | none => if isMark a then some ([], rest) else none

/-- At most `limit` pieces: the last one keeps the marks that are left. -/
def piecesUpTo (isMark : α → Bool) : Nat → List α → List (List α)
  | 0, _ => []
  | 1, l => [l]
  | limit + 2, l =>
    match cutAt isMark l with
    | none => [l]
    | some (before, after) => before :: piecesUpTo isMark (limit + 1) after

/-- The lists joined, with a separator between each two. -/
def joined (separator : List α) : List (List α) → List α
  | [] => []
  | [l] => l
  | l :: more => l ++ separator ++ joined separator more

end NamespaceAtlas
