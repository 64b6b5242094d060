import BaudReel.Grid.Edit
/-!
# Rearrangements

Erasing, shifting and scrolling, named in screen terms, and spelled out as
edits for a grid of a given size.  Every operation clamps itself to the grid, so
that positions past the edge are harmless: `edits_within` says that no edit ever
leaves the grid.
-/

namespace BaudReel

/-- Which part an erasure covers. -/
inductive EraseMode where
  /-- From the cursor to the end. -/
  | toEnd
  /-- From the start up to the cursor, the cursor's own cell left alone. -/
  | toStart
  /-- Everything. -/
  | all
deriving DecidableEq, Inhabited

/-- The erasure that a number asks for. -/
def EraseMode.ofParam? : Nat → Option EraseMode
  | 0 => some .toEnd
  | 1 => some .toStart
  | 2 => some .all
  | _ => none

/-- An operation on whole stretches of the screen. -/
inductive Rearrangement where
  /-- Erase part of the display. -/
  | eraseInDisplay (mode : EraseMode) (col row : Nat)
  /-- Erase part of one row. -/
  | eraseInLine (mode : EraseMode) (col row : Nat)
  /-- Push rows from `row` on down and leave blank rows in their place. -/
  | insertLines (row count : Nat)
  /-- Drop rows from `row` on and pull up the rows below. -/
  | deleteLines (row count : Nat)
  /-- Drop cells from `col` on and pull in the rest of the row. -/
  | deleteChars (col row count : Nat)
  /-- Blank cells from `col` on, moving none. -/
  | eraseChars (col row count : Nat)
  /-- Move all rows up. -/
  | scrollUp (count : Nat)
  /-- Move all rows down. -/
  | scrollDown (count : Nat)
deriving DecidableEq, Inhabited

namespace Rearrangement

/-- The index of a position in a grid of `cols` columns, the column clamped to
the end of its row. -/
def offset (cols col row : Nat) : Nat :=
  row * cols + min col cols

/-- Erasing between a first and a last index, cut at the cursor's index. -/
def erasure (mode : EraseMode) (first cursor last : Nat) : List Edit :=
  match mode with
  | .toEnd => [.fill cursor last]
  | .toStart => [.fill first cursor]
  | .all => [.fill first last]

/-- Blank rows in front of row `row`. -/
def insertion (cols rows row count : Nat) : List Edit :=
  let count := min count (rows - row)
  [.move (row * cols) ((rows - count) * cols) ((row + count) * cols),
   .fill (row * cols) ((row + count) * cols)]

/-- Rows from `row` on pulled up, blank rows at the bottom. -/
def deletion (cols rows row count : Nat) : List Edit :=
  let count := min count (rows - row)
  [.move ((row + count) * cols) (rows * cols) (row * cols),
   .fill ((rows - count) * cols) (rows * cols)]

/-- What an operation does to the cells of a grid of `cols` times `rows`. -/
def edits (cols rows : Nat) : Rearrangement → List Edit
  | .eraseInDisplay mode col row => erasure mode 0 (offset cols col row) (cols * rows)
  | .eraseInLine mode col row =>
    if rows ≤ row then []
    else erasure mode (row * cols) (offset cols col row) (row * cols + cols)
  | .insertLines row count => if rows ≤ row then [] else insertion cols rows row count
  | .deleteLines row count => if rows ≤ row then [] else deletion cols rows row count
  | .deleteChars col row count =>
    if rows ≤ row ∨ cols ≤ col then []
    else
      let count := min count (cols - col)
      let start := row * cols + col
      let last := (row + 1) * cols
      [.move (start + count) last start, .fill (last - count) last]
  | .eraseChars col row count =>
    if rows ≤ row then []
    else
      let start := offset cols col row
      [.fill start (min (start + count) ((row + 1) * cols))]
  | .scrollUp count => deletion cols rows 0 count
  | .scrollDown count => insertion cols rows 0 count

/-- Rows moved down to make room stay inside the grid. -/
theorem insertion_within {cols rows row : Nat} (count : Nat) (hrow : row ≤ rows) :
    ∀ e ∈ insertion cols rows row count, e.Within (cols * rows) := by
  intro e he
  simp only [insertion, List.mem_cons, List.not_mem_nil, or_false] at he
  rcases he with rfl | rfl
  · obtain ⟨rest, hrest⟩ : ∃ rest, rows = row + min count (rows - row) + rest :=
      ⟨rows - row - min count (rows - row), by omega⟩
    generalize min count (rows - row) = n at hrest ⊢
    subst hrest
    have hleft : row + n + rest - n = row + rest := by omega
    simp only [Edit.Within, hleft, Nat.add_mul, Nat.mul_comm cols]
    omega
  · trivial

/-- Rows pulled up over dropped ones stay inside the grid. -/
theorem deletion_within {cols rows row : Nat} (count : Nat) (hrow : row ≤ rows) :
    ∀ e ∈ deletion cols rows row count, e.Within (cols * rows) := by
  intro e he
  simp only [deletion, List.mem_cons, List.not_mem_nil, or_false] at he
  rcases he with rfl | rfl
  · obtain ⟨rest, hrest⟩ : ∃ rest, rows = row + min count (rows - row) + rest :=
      ⟨rows - row - min count (rows - row), by omega⟩
    generalize min count (rows - row) = n at hrest ⊢
    subst hrest
    simp only [Edit.Within, Nat.add_mul, Nat.mul_comm cols]
    omega
  · trivial

/-- Cells pulled in from the right stay inside their row. -/
theorem deleteChars_within {cols rows col row : Nat} (count : Nat) (hcol : col < cols)
    (hrow : row < rows) :
    (Edit.move (row * cols + col + min count (cols - col)) ((row + 1) * cols)
      (row * cols + col)).Within (cols * rows) := by
  have hline : (row + 1) * cols ≤ rows * cols := Nat.mul_le_mul_right cols hrow
  simp only [Edit.Within, Nat.add_mul, Nat.one_mul, Nat.mul_comm cols] at hline ⊢
  omega

/-- Every operation works inside a grid of its size. -/
theorem edits_within (cols rows : Nat) (r : Rearrangement) :
    ∀ e ∈ r.edits cols rows, e.Within (cols * rows) := by
  have hfill : ∀ (mode : EraseMode) (first cursor last : Nat),
      ∀ e ∈ erasure mode first cursor last, e.Within (cols * rows) := by
    intro mode first cursor last e he
    cases mode <;> simp only [erasure, List.mem_singleton] at he <;> subst he <;> trivial
  intro e he
  cases r with
  | eraseInDisplay mode col row => exact hfill _ _ _ _ e he
  | eraseInLine mode col row =>
    rw [edits] at he
    split at he
    · exact absurd he List.not_mem_nil
    · exact hfill _ _ _ _ e he
  | insertLines row count =>
    rw [edits] at he
    split at he
    · exact absurd he List.not_mem_nil
    · exact insertion_within count (by omega) e he
  | deleteLines row count =>
    rw [edits] at he
    split at he
    · exact absurd he List.not_mem_nil
    · exact deletion_within count (by omega) e he
  | deleteChars col row count =>
    rw [edits] at he
    split at he
    · exact absurd he List.not_mem_nil
    · simp only [List.mem_cons, List.not_mem_nil, or_false] at he
      rcases he with rfl | rfl
      · exact deleteChars_within count (by omega) (by omega)
      · trivial
  | eraseChars col row count =>
    rw [edits] at he
    split at he
    · exact absurd he List.not_mem_nil
    · simp only [List.mem_singleton] at he
      subst he
      trivial
  | scrollUp count => exact deletion_within count (Nat.zero_le rows) e he
  | scrollDown count => exact insertion_within count (Nat.zero_le rows) e he

end Rearrangement

end BaudReel
