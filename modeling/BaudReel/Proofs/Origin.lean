import BaudReel.Grid

/-!
# Where each cell comes from

Erasing, shifting and scrolling are carried out as edits of one array of cells.
Seen from the screen, an operation does something simpler: each place of the
grid is either blanked or takes over the cell of some other place, and whatever
is drawn in from beyond the edge is blank.  `Rearrangement.origin` says which.
It never asks how large the grid is, so that screens of different sizes can be
compared operation by operation.

The lemmas `getElem?_…` follow the edits of an operation to one place of the
grid; those that end in `_eq` find there the cell of the place's origin.  The
main statements are `get?_rearrange`, which puts them together, and `get?_set`
for a single written cell.
-/

namespace BaudReel

/-- Whether an erasure covers a place, given whether the place lies in front of
the cursor. -/
def EraseMode.covers : EraseMode → Bool → Bool
  | .toEnd, inFront => !inFront
  | .toStart, inFront => inFront
  | .all, _ => true

namespace Rearrangement

/-- The place whose cell an operation brings to `(x, y)`; none if it blanks
that place. -/
def origin (r : Rearrangement) (x y : Nat) : Option (Nat × Nat) :=
  match r with
  | .eraseInDisplay mode col row =>
    if mode.covers (decide (y < row ∨ y = row ∧ x < col)) then none else some (x, y)
  | .eraseInLine mode col row =>
    if y = row ∧ mode.covers (decide (x < col)) then none else some (x, y)
  | .insertLines row count =>
    if y < row then some (x, y) else if y < row + count then none else some (x, y - count)
  | .deleteLines row count => if y < row then some (x, y) else some (x, y + count)
  | .deleteChars col row count =>
    if y = row ∧ col ≤ x then some (x + count, y) else some (x, y)
  | .eraseChars col row count =>
    if y = row ∧ col ≤ x ∧ x < col + count then none else some (x, y)
  | .scrollUp count => some (x, y + count)
  | .scrollDown count => if y < count then none else some (x, y - count)

/-- Row-major indices are ordered as the places are, row first. -/
theorem index_lt_iff {cols x b : Nat} (y a : Nat) (hx : x < cols) (hb : b ≤ cols) :
    y * cols + x < a * cols + b ↔ y < a ∨ y = a ∧ x < b := by
  rcases Nat.lt_trichotomy y a with hlt | heq | hgt
  · have hrow : (y + 1) * cols ≤ a * cols := Nat.mul_le_mul_right cols hlt
    rw [Nat.add_mul, Nat.one_mul] at hrow
    omega
  · subst heq
    omega
  · have hrow : (a + 1) * cols ≤ y * cols := Nat.mul_le_mul_right cols hgt
    rw [Nat.add_mul, Nat.one_mul] at hrow
    omega

/-- A place lies in front of a row if its own row does. -/
theorem index_lt_row_iff {cols x : Nat} (y a : Nat) (hx : x < cols) :
    y * cols + x < a * cols ↔ y < a := by
  have h := index_lt_iff y a hx (Nat.zero_le cols)
  omega

section Cells

variable {cols rows x y : Nat} {cells : Array Cell} (blank : Cell)

/-- Inserting rows: those above stay, the new ones are blank, those below come from further up. -/
theorem getElem?_insertion {row : Nat} (count : Nat) (hsize : cells.size = cols * rows)
    (hrow : row ≤ rows) (hx : x < cols) (hy : y < rows) :
    ((insertion cols rows row count).foldl (Edit.apply blank) cells)[y * cols + x]? =
      if y < row then cells[y * cols + x]?
      else if y < row + count then some blank
      else cells[(y - count) * cols + x]? := by
  have hindex := index_lt_row_iff y rows hx
  have hfront := index_lt_row_iff y row hx
  have hfreed := index_lt_row_iff y (row + min count (rows - row)) hx
  have hwithin : (Edit.move (row * cols) ((rows - min count (rows - row)) * cols)
      ((row + min count (rows - row)) * cols)).Within (cols * rows) :=
    insertion_within count hrow _ List.mem_cons_self
  obtain ⟨hle, hstop, hdest⟩ := hwithin
  rw [← hsize] at hstop hdest
  have hspan : (row + min count (rows - row)) * cols +
      ((rows - min count (rows - row)) * cols - row * cols) = rows * cols := by
    rw [← Nat.sub_mul, ← Nat.add_mul]
    congr 1
    omega
  simp only [insertion, List.foldl_cons, List.foldl_nil, Edit.apply]
  rw [Edit.getElem?_fillRange, Edit.size_moveRange cells hstop hdest,
    Edit.getElem?_moveRange cells hstop hdest, hspan, hsize, Nat.mul_comm cols rows]
  -- rows above the inserted ones, inserted rows, and rows that were pushed down
  by_cases hbefore : y < row
  · rw [if_neg (by omega), if_neg (by omega), if_pos hbefore]
  · by_cases hblank : y < row + count
    · rw [if_pos (by omega), if_neg hbefore, if_pos hblank]
    · rw [if_neg (by omega), if_pos (by omega), if_neg hbefore, if_neg hblank]
      -- the cut-off count matters only where every row below has gone
      have hcount : min count (rows - row) = count := by omega
      have hy' : y * cols = (y - count) * cols + count * cols := by
        rw [← Nat.add_mul]
        congr 1
        omega
      rw [hcount, Nat.add_mul] at hfreed
      rw [hcount, Nat.add_mul row count cols]
      congr 1
      omega

/-- Deleting rows: those above stay, those below come from further down, and the rest is blank. -/
theorem getElem?_deletion {row : Nat} (count : Nat) (hsize : cells.size = cols * rows)
    (hrow : row ≤ rows) (hx : x < cols) (hy : y < rows) :
    ((deletion cols rows row count).foldl (Edit.apply blank) cells)[y * cols + x]? =
      if y < row then cells[y * cols + x]?
      else if y + count < rows then cells[(y + count) * cols + x]?
      else some blank := by
  have hindex := index_lt_row_iff y rows hx
  have hfront := index_lt_row_iff y row hx
  have hkept := index_lt_row_iff y (rows - min count (rows - row)) hx
  have hwithin : (Edit.move ((row + min count (rows - row)) * cols) (rows * cols)
      (row * cols)).Within (cols * rows) :=
    deletion_within count hrow _ List.mem_cons_self
  obtain ⟨hle, hstop, hdest⟩ := hwithin
  rw [← hsize] at hstop hdest
  have hspan : row * cols + (rows * cols - (row + min count (rows - row)) * cols) =
      (rows - min count (rows - row)) * cols := by
    rw [← Nat.sub_mul, ← Nat.add_mul]
    congr 1
    omega
  simp only [deletion, List.foldl_cons, List.foldl_nil, Edit.apply]
  rw [Edit.getElem?_fillRange, Edit.size_moveRange cells hstop hdest,
    Edit.getElem?_moveRange cells hstop hdest, hspan, hsize, Nat.mul_comm cols rows]
  -- rows above the deleted ones, rows that were pulled up, and rows drawn in
  by_cases hbefore : y < row
  · rw [if_neg (by omega), if_neg (by omega), if_pos hbefore]
  · by_cases hmoved : y + count < rows
    · rw [if_neg (by omega), if_pos (by omega), if_neg hbefore, if_pos hmoved]
      have hcount : min count (rows - row) = count := by omega
      rw [hcount, Nat.add_mul, Nat.add_mul]
      congr 1
      omega
    · rw [if_pos (by omega), if_neg hbefore, if_neg hmoved]

/-- Erasing blanks the cells that the mode covers, between the first and the last place. -/
theorem getElem?_erasure (mode : EraseMode) {first cursor last i : Nat} (hi : i < cells.size)
    (hfirst : first ≤ cursor) (hlast : i < cursor → i < last) :
    ((erasure mode first cursor last).foldl (Edit.apply blank) cells)[i]? =
      if first ≤ i ∧ i < last ∧ mode.covers (decide (i < cursor)) then some blank
      else cells[i]? := by
  cases mode with
  | toEnd =>
    simp only [erasure, List.foldl_cons, List.foldl_nil, Edit.apply, Edit.getElem?_fillRange,
      EraseMode.covers, Bool.not_eq_true', decide_eq_false_iff_not]
    congr 1
    apply propext
    omega
  | toStart =>
    simp only [erasure, List.foldl_cons, List.foldl_nil, Edit.apply, Edit.getElem?_fillRange,
      EraseMode.covers, decide_eq_true_eq]
    congr 1
    apply propext
    omega
  | all =>
    simp only [erasure, List.foldl_cons, List.foldl_nil, Edit.apply, Edit.getElem?_fillRange,
      EraseMode.covers, and_true, hi]

/-- Deleting in a line: the cells behind the column come from further right, or are blank. -/
theorem getElem?_deleteChars {col row : Nat} (count : Nat) (hsize : cells.size = cols * rows)
    (hcol : col < cols) (hrow : row < rows) (hx : x < cols) (hy : y < rows) :
    (((Rearrangement.deleteChars col row count).edits cols rows).foldl
        (Edit.apply blank) cells)[y * cols + x]? =
      if y = row ∧ col ≤ x then
        if x + count < cols then cells[y * cols + (x + count)]? else some blank
      else cells[y * cols + x]? := by
  have hline := index_lt_row_iff y (row + 1) hx
  have hstart := index_lt_iff y row hx (Nat.le_of_lt hcol)
  have hindex := index_lt_row_iff y rows hx
  have hfilled := index_lt_iff y row hx (Nat.sub_le cols (min count (cols - col)))
  have hwithin := deleteChars_within count hcol hrow
  obtain ⟨hle, hstop, hdest⟩ := hwithin
  rw [← hsize] at hstop hdest
  rw [Nat.add_mul, Nat.one_mul] at hline hle hstop hdest
  have hspan : row * cols + col +
      (row * cols + cols - (row * cols + col + min count (cols - col))) =
        row * cols + (cols - min count (cols - col)) := by omega
  have hfill : row * cols + cols - min count (cols - col) =
      row * cols + (cols - min count (cols - col)) := by omega
  rw [edits, if_neg (by omega)]
  simp only [List.foldl_cons, List.foldl_nil, Edit.apply, Nat.add_mul, Nat.one_mul]
  rw [Edit.getElem?_fillRange, Edit.size_moveRange cells hstop hdest,
    Edit.getElem?_moveRange cells hstop hdest, hspan, hfill, hsize, Nat.mul_comm cols rows]
  by_cases hline' : y = row ∧ col ≤ x
  · by_cases hmoved : x + count < cols
    · rw [if_neg (by omega), if_pos (by omega), if_pos hline', if_pos hmoved]
      congr 1
      omega
    · rw [if_pos (by omega), if_pos hline', if_neg hmoved]
  · rw [if_neg (by omega), if_neg (by omega), if_neg hline']

end Cells

end Rearrangement

namespace Grid

variable {g : Grid} {x y : Nat}

/-- The cell at a place inside is the one at its index. -/
theorem get?_of_inside (h : g.Inside x y) : g.get? x y = g.cells[y * g.cols + x]? :=
  if_pos h

/-- There is no cell outside. -/
theorem get?_of_not_inside (h : ¬g.Inside x y) : g.get? x y = none :=
  if_neg h

/-- A place that has a cell is inside. -/
theorem inside_of_get? {c : Cell} (h : g.get? x y = some c) : g.Inside x y := by
  by_cases hin : g.Inside x y
  · exact hin
  · rw [get?_of_not_inside hin] at h
    exact absurd h.symm (Option.some_ne_none c)

/-- The index of a place inside is one of the cells. -/
theorem index_lt_size (hg : g.Full) (h : g.Inside x y) : y * g.cols + x < g.cells.size := by
  rw [hg, Nat.mul_comm g.cols g.rows]
  exact (Rearrangement.index_lt_row_iff y g.rows h.1).2 h.2

/-- Every place inside has a cell. -/
theorem exists_get? (hg : g.Full) (h : g.Inside x y) : ∃ c, g.get? x y = some c := by
  have hsize := index_lt_size hg h
  exact ⟨g.cells[y * g.cols + x], by rw [get?_of_inside h, Array.getElem?_eq_getElem hsize]⟩

/-- A written cell is read back at its place, and nothing else has changed. -/
theorem get?_set (hg : g.Full) (col row : Nat) (cell : Cell) (x y : Nat) :
    (g.set col row cell).get? x y =
      if x = col ∧ y = row ∧ g.Inside x y then some cell else g.get? x y := by
  by_cases hcell : g.Inside col row
  · by_cases hxy : g.Inside x y
    · -- distinct places have distinct indices: one is in front of the other
      have hfront := Rearrangement.index_lt_iff y row hxy.1 (Nat.le_of_lt hcell.1)
      have hbehind := Rearrangement.index_lt_iff row y hcell.1 (Nat.le_of_lt hxy.1)
      have hsize := index_lt_size hg hxy
      have hset : (g.set col row cell).get? x y =
          (g.cells.setIfInBounds (row * g.cols + col) cell)[y * g.cols + x]? := by
        simp only [set, if_pos hcell]
        exact if_pos hxy
      rw [hset, Array.getElem?_setIfInBounds, get?_of_inside hxy]
      by_cases hsame : x = col ∧ y = row
      · obtain ⟨rfl, rfl⟩ := hsame
        simp only [hsize, hxy, and_self, if_true]
      · rw [if_neg (by omega), if_neg fun h => hsame ⟨h.1, h.2.1⟩]
    · rw [if_neg fun h => hxy h.2.2, get?_of_not_inside hxy]
      refine get?_of_not_inside ?_
      rwa [Inside, cols_set, rows_set]
  · have hset : g.set col row cell = g := by
      rw [set, if_neg hcell]
    rw [hset, if_neg]
    rintro ⟨rfl, rfl, h⟩
    exact hcell h

/-- The cell that an operation leaves at `(x, y)`. -/
def cellBehind (g : Grid) (r : Rearrangement) (blank : Cell) (x y : Nat) : Cell :=
  ((r.origin x y).bind fun p => g.get? p.1 p.2).getD blank

/-- A place without an origin is blank. -/
theorem cellBehind_of_origin_eq_none {r : Rearrangement} {blank : Cell}
    (h : r.origin x y = none) : g.cellBehind r blank x y = blank := by
  rw [cellBehind, h]
  rfl

/-- A place whose origin is outside is blank. -/
theorem cellBehind_of_outside {r : Rearrangement} {blank : Cell} {x' y' : Nat}
    (h : r.origin x y = some (x', y')) (hout : ¬g.Inside x' y') :
    g.cellBehind r blank x y = blank := by
  rw [cellBehind, h, Option.bind_some, get?_of_not_inside hout]
  rfl

/-- A place whose origin is inside has the cell from there. -/
theorem cellBehind_of_inside (hg : g.Full) {r : Rearrangement} {blank : Cell} {x' y' : Nat}
    (h : r.origin x y = some (x', y')) (hin : g.Inside x' y') :
    some (g.cellBehind r blank x y) = g.cells[y' * g.cols + x']? := by
  obtain ⟨c, hc⟩ := exists_get? hg hin
  rw [cellBehind, h, Option.bind_some, hc, ← get?_of_inside hin, hc]
  rfl

/-- Inserting rows leaves the cells where their origins say. -/
theorem getElem?_insertion_eq (hg : g.Full) {row : Nat} (count : Nat) (blank : Cell)
    (hrow : row ≤ g.rows) (hxy : g.Inside x y) :
    ((Rearrangement.insertion g.cols g.rows row count).foldl
        (Edit.apply blank) g.cells)[y * g.cols + x]? =
      some (g.cellBehind (.insertLines row count) blank x y) := by
  rw [Rearrangement.getElem?_insertion blank count hg hrow hxy.1 hxy.2]
  by_cases hbefore : y < row
  · have horigin : (Rearrangement.insertLines row count).origin x y = some (x, y) :=
      if_pos hbefore
    rw [if_pos hbefore, cellBehind_of_inside hg horigin hxy]
  · by_cases hfreed : y < row + count
    · have horigin : (Rearrangement.insertLines row count).origin x y = none := by
        rw [Rearrangement.origin, if_neg hbefore, if_pos hfreed]
      rw [if_neg hbefore, if_pos hfreed, cellBehind_of_origin_eq_none horigin]
    · have horigin : (Rearrangement.insertLines row count).origin x y = some (x, y - count) := by
        rw [Rearrangement.origin, if_neg hbefore, if_neg hfreed]
      have hin : g.Inside x (y - count) := ⟨hxy.1, Nat.lt_of_le_of_lt (Nat.sub_le y count) hxy.2⟩
      rw [if_neg hbefore, if_neg hfreed, cellBehind_of_inside hg horigin hin]

theorem getElem?_deletion_eq (hg : g.Full) {row : Nat} (count : Nat) (blank : Cell)
    (hrow : row ≤ g.rows) (hxy : g.Inside x y) :
    ((Rearrangement.deletion g.cols g.rows row count).foldl
        (Edit.apply blank) g.cells)[y * g.cols + x]? =
      some (g.cellBehind (.deleteLines row count) blank x y) := by
  rw [Rearrangement.getElem?_deletion blank count hg hrow hxy.1 hxy.2]
  by_cases hbefore : y < row
  · have horigin : (Rearrangement.deleteLines row count).origin x y = some (x, y) :=
      if_pos hbefore
    rw [if_pos hbefore, cellBehind_of_inside hg horigin hxy]
  · have horigin : (Rearrangement.deleteLines row count).origin x y = some (x, y + count) :=
      if_neg hbefore
    by_cases hmoved : y + count < g.rows
    · rw [if_neg hbefore, if_pos hmoved, cellBehind_of_inside hg horigin ⟨hxy.1, hmoved⟩]
    · rw [if_neg hbefore, if_neg hmoved, cellBehind_of_outside horigin fun h => hmoved h.2]

/-- A place that is its own origin keeps its cell. -/
theorem getElem?_of_origin_eq_self (hg : g.Full) (hxy : g.Inside x y) {r : Rearrangement}
    {blank : Cell} (h : r.origin x y = some (x, y)) :
    g.cells[y * g.cols + x]? = some (g.cellBehind r blank x y) :=
  (cellBehind_of_inside hg h hxy).symm

/-- A place lies in front of the cursor exactly if it comes first in reading
order; a cursor past the right edge is in front of the next row. -/
theorem index_lt_offset_iff (hxy : g.Inside x y) (col row : Nat) :
    y * g.cols + x < Rearrangement.offset g.cols col row ↔ y < row ∨ y = row ∧ x < col := by
  have hx := hxy.1
  have hfront := Rearrangement.index_lt_iff y row hx (Nat.min_le_right col g.cols)
  rw [Rearrangement.offset, hfront]
  omega

theorem getElem?_eraseInDisplay_eq (hg : g.Full) (mode : EraseMode) (col row : Nat)
    (blank : Cell) (hxy : g.Inside x y) :
    (((Rearrangement.eraseInDisplay mode col row).edits g.cols g.rows).foldl
        (Edit.apply blank) g.cells)[y * g.cols + x]? =
      some (g.cellBehind (.eraseInDisplay mode col row) blank x y) := by
  have hindex := index_lt_size hg hxy
  have hbound : y * g.cols + x < g.cols * g.rows := hg ▸ hindex
  rw [Rearrangement.edits, Rearrangement.getElem?_erasure blank mode hindex (Nat.zero_le _)
    (fun _ => hbound), decide_eq_decide.2 (index_lt_offset_iff hxy col row)]
  by_cases hmode : mode.covers (decide (y < row ∨ y = row ∧ x < col))
  · have horigin : (Rearrangement.eraseInDisplay mode col row).origin x y = none :=
      if_pos hmode
    rw [if_pos ⟨Nat.zero_le _, hbound, hmode⟩, cellBehind_of_origin_eq_none horigin]
  · have horigin : (Rearrangement.eraseInDisplay mode col row).origin x y = some (x, y) :=
      if_neg hmode
    rw [if_neg fun h => hmode h.2.2, getElem?_of_origin_eq_self hg hxy horigin]

theorem getElem?_eraseInLine_eq (hg : g.Full) (mode : EraseMode) (col row : Nat)
    (blank : Cell) (hxy : g.Inside x y) :
    (((Rearrangement.eraseInLine mode col row).edits g.cols g.rows).foldl
        (Edit.apply blank) g.cells)[y * g.cols + x]? =
      some (g.cellBehind (.eraseInLine mode col row) blank x y) := by
  have hx := hxy.1
  have hy := hxy.2
  have hindex := index_lt_size hg hxy
  have hcursor := index_lt_offset_iff hxy col row
  have hline := Rearrangement.index_lt_row_iff y row hx
  have hnext := Rearrangement.index_lt_iff y row hx (Nat.le_refl g.cols)
  have hoffset : Rearrangement.offset g.cols col row = row * g.cols + min col g.cols := rfl
  have hother : y ≠ row →
      (Rearrangement.eraseInLine mode col row).origin x y = some (x, y) :=
    fun h => if_neg fun hcovered => h hcovered.1
  by_cases hrow : g.rows ≤ row
  · rw [Rearrangement.edits, if_pos hrow]
    exact getElem?_of_origin_eq_self hg hxy (hother (by omega))
  · rw [Rearrangement.edits, if_neg hrow, Rearrangement.getElem?_erasure blank mode hindex
      (by omega) (by omega)]
    by_cases hsame : y = row
    · have hfront : decide (y * g.cols + x < Rearrangement.offset g.cols col row) =
          decide (x < col) := by
        rw [decide_eq_decide, hcursor]
        omega
      rw [hfront]
      by_cases hmode : mode.covers (decide (x < col))
      · have horigin : (Rearrangement.eraseInLine mode col row).origin x y = none :=
          if_pos ⟨hsame, hmode⟩
        rw [if_pos ⟨by omega, by omega, hmode⟩, cellBehind_of_origin_eq_none horigin]
      · have horigin : (Rearrangement.eraseInLine mode col row).origin x y = some (x, y) :=
          if_neg fun h => hmode h.2
        rw [if_neg fun h => hmode h.2.2, getElem?_of_origin_eq_self hg hxy horigin]
    · rw [if_neg (by omega), getElem?_of_origin_eq_self hg hxy (hother hsame)]

theorem getElem?_deleteChars_eq (hg : g.Full) (col row count : Nat) (blank : Cell)
    (hxy : g.Inside x y) :
    (((Rearrangement.deleteChars col row count).edits g.cols g.rows).foldl
        (Edit.apply blank) g.cells)[y * g.cols + x]? =
      some (g.cellBehind (.deleteChars col row count) blank x y) := by
  have hx := hxy.1
  have hy := hxy.2
  have hother : ¬(y = row ∧ col ≤ x) →
      (Rearrangement.deleteChars col row count).origin x y = some (x, y) :=
    fun h => if_neg h
  by_cases hcell : g.rows ≤ row ∨ g.cols ≤ col
  · rw [Rearrangement.edits, if_pos hcell]
    exact getElem?_of_origin_eq_self hg hxy (hother (by omega))
  · rw [Rearrangement.getElem?_deleteChars blank count hg (by omega) (by omega) hx hy]
    by_cases hline : y = row ∧ col ≤ x
    · have horigin : (Rearrangement.deleteChars col row count).origin x y =
          some (x + count, y) := if_pos hline
      by_cases hmoved : x + count < g.cols
      · rw [if_pos hline, if_pos hmoved, cellBehind_of_inside hg horigin ⟨hmoved, hy⟩]
      · rw [if_pos hline, if_neg hmoved, cellBehind_of_outside horigin fun h => hmoved h.1]
    · rw [if_neg hline, getElem?_of_origin_eq_self hg hxy (hother hline)]

theorem getElem?_eraseChars_eq (hg : g.Full) (col row count : Nat) (blank : Cell)
    (hxy : g.Inside x y) :
    (((Rearrangement.eraseChars col row count).edits g.cols g.rows).foldl
        (Edit.apply blank) g.cells)[y * g.cols + x]? =
      some (g.cellBehind (.eraseChars col row count) blank x y) := by
  have hx := hxy.1
  have hy := hxy.2
  have hother : ¬(y = row ∧ col ≤ x ∧ x < col + count) →
      (Rearrangement.eraseChars col row count).origin x y = some (x, y) :=
    fun h => if_neg h
  by_cases hrow : g.rows ≤ row
  · rw [Rearrangement.edits, if_pos hrow]
    exact getElem?_of_origin_eq_self hg hxy (hother (by omega))
  · have hline := Rearrangement.index_lt_row_iff y row hx
    have hnext := Rearrangement.index_lt_row_iff y (row + 1) hx
    have hstart := index_lt_offset_iff hxy col row
    have hindex := index_lt_size hg hxy
    have hfilled : Rearrangement.offset g.cols col row ≤ y * g.cols + x ∧
        y * g.cols + x < min (Rearrangement.offset g.cols col row + count)
          ((row + 1) * g.cols) ∧ y * g.cols + x < g.cells.size ↔
        y = row ∧ col ≤ x ∧ x < col + count := by
      have hoffset : Rearrangement.offset g.cols col row = row * g.cols + min col g.cols := rfl
      by_cases hsame : y = row
      · subst hsame
        omega
      · omega
    rw [Rearrangement.edits, if_neg hrow]
    simp only [List.foldl_cons, List.foldl_nil, Edit.apply, Edit.getElem?_fillRange, hfilled]
    by_cases hcovered : y = row ∧ col ≤ x ∧ x < col + count
    · have horigin : (Rearrangement.eraseChars col row count).origin x y = none :=
        if_pos hcovered
      rw [if_pos hcovered, cellBehind_of_origin_eq_none horigin]
    · rw [if_neg hcovered, getElem?_of_origin_eq_self hg hxy (hother hcovered)]

/-- **Operations by origin.**  Behind an operation each place of the grid holds
the cell of its origin, and a blank where it has none on the grid. -/
theorem get?_rearrange (hg : g.Full) (r : Rearrangement) (blank : Cell) (hxy : g.Inside x y) :
    (g.rearrange r blank).get? x y = some (g.cellBehind r blank x y) := by
  have hget : (g.rearrange r blank).get? x y =
      ((r.edits g.cols g.rows).foldl (Edit.apply blank) g.cells)[y * g.cols + x]? :=
    if_pos hxy
  rw [hget]
  cases r with
  | eraseInDisplay mode col row => exact getElem?_eraseInDisplay_eq hg mode col row blank hxy
  | eraseInLine mode col row => exact getElem?_eraseInLine_eq hg mode col row blank hxy
  | insertLines row count =>
    by_cases hrow : g.rows ≤ row
    · have horigin : (Rearrangement.insertLines row count).origin x y = some (x, y) :=
        if_pos (Nat.lt_of_lt_of_le hxy.2 hrow)
      rw [Rearrangement.edits, if_pos hrow]
      exact getElem?_of_origin_eq_self hg hxy horigin
    · rw [Rearrangement.edits, if_neg hrow]
      exact getElem?_insertion_eq hg count blank (by omega) hxy
  | deleteLines row count =>
    by_cases hrow : g.rows ≤ row
    · have horigin : (Rearrangement.deleteLines row count).origin x y = some (x, y) :=
        if_pos (Nat.lt_of_lt_of_le hxy.2 hrow)
      rw [Rearrangement.edits, if_pos hrow]
      exact getElem?_of_origin_eq_self hg hxy horigin
    · rw [Rearrangement.edits, if_neg hrow]
      exact getElem?_deletion_eq hg count blank (by omega) hxy
  | deleteChars col row count => exact getElem?_deleteChars_eq hg col row count blank hxy
  | eraseChars col row count => exact getElem?_eraseChars_eq hg col row count blank hxy
  | scrollUp count => exact getElem?_deletion_eq hg count blank (Nat.zero_le _) hxy
  | scrollDown count =>
    -- scrolling down inserts rows at the top
    have horigin : (Rearrangement.scrollDown count).origin x y =
        (Rearrangement.insertLines 0 count).origin x y := by
      simp only [Rearrangement.origin, Nat.not_lt_zero, if_false, Nat.zero_add]
    rw [cellBehind, horigin]
    exact getElem?_insertion_eq hg count blank (Nat.zero_le _) hxy

end Grid

end BaudReel
