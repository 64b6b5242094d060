import BaudReel.Proofs.Words

/-!
# What the operations do, place by place

Every operation on a screen is a move and a fill of one long array of cells, or a fill
alone, and a step too far in it spills into the next row.  Seen place by place none does:
rows are pushed and pulled as a whole, and an erasure covers what its name says and not
one cell more.

There are two kinds of operations.  Those that move rows or cells are described by where
the cell of each place comes from, with the count cut to what is there
(`some_cellBehind_insertLines`, `some_cellBehind_deleteLines`,
`some_cellBehind_deleteChars`).  Those that only erase keep every cell in its place, and
all there is to say is which places they cover (`Rearrangement.Erases`); two of them, one
after the other, cover what either does (`rearrange_rearrange_of_erases`).

`Grid.RearrangesTo` says of an operation that it is carried out in machine words, within
the cells, and what it leaves at each place of the screen.  A screen is known when its
places are (`Full.ext`), so that this says all there is.  The main statements are
`line_operations_move_rows` and `erasures_keep_to_their_cells`.
-/

namespace BaudReel

section Modes

variable (p : Prop) [Decidable p]

theorem EraseMode.covers_toEnd : toEnd.covers (decide p) ↔ ¬p := by
  rw [covers, Bool.not_eq_true', decide_eq_false_iff_not]

theorem EraseMode.covers_toStart : toStart.covers (decide p) ↔ p :=
  decide_eq_true_iff

end Modes

namespace Rearrangement

/-- An operation that moves no cell and blanks the covered places. -/
structure Erases (r : Rearrangement) (covered : Nat → Nat → Prop) : Prop where
  origin_of_covered : ∀ {x y}, covered x y → r.origin x y = none
  origin_of_not_covered : ∀ {x y}, ¬covered x y → r.origin x y = some (x, y)

/-- Erasing in the display erases the places that its mode covers, in reading order. -/
theorem erases_eraseInDisplay (mode : EraseMode) (col row : Nat) :
    (eraseInDisplay mode col row).Erases fun x y =>
      mode.covers (decide (y < row ∨ y = row ∧ x < col)) :=
  ⟨fun h => if_pos h, fun h => if_neg h⟩

/-- Erasing in a line erases the places of the line that its mode covers. -/
theorem erases_eraseInLine (mode : EraseMode) (col row : Nat) :
    (eraseInLine mode col row).Erases fun x y => y = row ∧ mode.covers (decide (x < col)) :=
  ⟨fun h => if_pos h, fun h => if_neg h⟩

/-- Erasing from a column on erases as many places of the line as it is told. -/
theorem erases_eraseChars (col row count : Nat) :
    (eraseChars col row count).Erases fun x y => y = row ∧ col ≤ x ∧ x < col + count :=
  ⟨fun h => if_pos h, fun h => if_neg h⟩

/-- What is erased can be said in other words. -/
theorem Erases.congr {r : Rearrangement} {covered covered' : Nat → Nat → Prop}
    (hr : r.Erases covered) (h : ∀ x y, covered x y ↔ covered' x y) : r.Erases covered' :=
  ⟨fun hcovered => hr.origin_of_covered ((h _ _).2 hcovered),
    fun hkept => hr.origin_of_not_covered fun hcovered => hkept ((h _ _).1 hcovered)⟩

end Rearrangement

namespace Grid

/-- What an operation leads to, and leads to in machine words and within the cells too. -/
structure LeadsTo (g : Grid) (r : Rearrangement) (blank : Cell) (after : Grid) : Prop where
  rearrange_eq : g.rearrange r blank = after
  rearrange?_eq : g.rearrange? r blank = some after

/-- An operation leads to a grid of the same size with the given cell at each place. -/
def RearrangesTo (g : Grid) (r : Rearrangement) (blank : Cell) (cell : Nat → Nat → Option Cell) :
    Prop :=
  ∃ after, g.LeadsTo r blank after ∧ after.cols = g.cols ∧ after.rows = g.rows ∧
    ∀ x y, g.Inside x y → after.get? x y = cell x y

variable {g : Grid} {r : Rearrangement} {blank : Cell} {x y : Nat}

/-- **Places make the grid.** -/
theorem Full.ext {h : Grid} (hg : g.Full) (hh : h.Full) (hcols : g.cols = h.cols)
    (hrows : g.rows = h.rows) (hget : ∀ x y, g.Inside x y → g.get? x y = h.get? x y) : g = h := by
  have hsize : g.cells.size = g.cols * g.rows := hg
  have hsize' : h.cells.size = g.cols * g.rows := by rw [hcols, hrows]; exact hh
  have hcells : g.cells = h.cells := by
    refine Array.ext_getElem? fun i => ?_
    by_cases hi : i < g.cols * g.rows
    · -- the place of an index is its remainder and its quotient by the number of columns
      have hpos : 0 < g.cols := Nat.pos_of_mul_pos_right (Nat.zero_lt_of_lt hi)
      have hplace : i / g.cols * g.cols + i % g.cols = i := Nat.div_add_mod' i g.cols
      have hin : g.Inside (i % g.cols) (i / g.cols) :=
        ⟨Nat.mod_lt i hpos, Nat.div_lt_of_lt_mul hi⟩
      have hin' : h.Inside (i % g.cols) (i / g.cols) := by
        rw [Inside, ← hcols, ← hrows]
        exact hin
      have hsame := hget _ _ hin
      rw [get?_of_inside hin, get?_of_inside hin', ← hcols, hplace] at hsame
      exact hsame
    · rw [Array.getElem?_eq_none (by omega), Array.getElem?_eq_none (by omega)]
  cases g
  cases h
  cases hcols
  cases hrows
  cases hcells
  rfl

/-- A grid whose cells can be counted is led to what rearranging it gives. -/
theorem Countable.leadsTo (hg : g.Countable) (r : Rearrangement) (blank : Cell) :
    g.LeadsTo r blank (g.rearrange r blank) :=
  ⟨rfl, hg.rearrange?_eq r blank⟩

/-- An operation without edits changes nothing. -/
theorem Countable.leadsTo_of_edits_eq_nil (hg : g.Countable)
    (h : r.edits g.cols g.rows = []) : g.LeadsTo r blank g := by
  have hsame : g.rearrange r blank = g := by
    rw [Grid.rearrange, h]
    rfl
  have hleads := hg.leadsTo r blank
  rwa [hsame] at hleads

/-- Operations that leave the same cell at each place lead to the same. -/
theorem Countable.leadsTo_of_cellBehind (hg : g.Countable) {s : Rearrangement}
    (h : ∀ x y, g.Inside x y → g.cellBehind r blank x y = g.cellBehind s blank x y) :
    ∃ after, g.LeadsTo r blank after ∧ g.LeadsTo s blank after := by
  have hfull := hg.full
  have hsame : g.rearrange r blank = g.rearrange s blank := by
    refine (hfull.rearrange r blank).ext (hfull.rearrange s blank) rfl rfl fun x y hxy => ?_
    have hin : g.Inside x y := hxy
    rw [get?_rearrange hfull r blank hin, get?_rearrange hfull s blank hin, h x y hin]
  exact ⟨_, hg.leadsTo r blank, hsame ▸ hg.leadsTo s blank⟩

/-- To know where a rearrangement leads it is enough to know the cell behind each place. -/
theorem Countable.rearrangesTo (hg : g.Countable) {cell : Nat → Nat → Option Cell}
    (h : ∀ x y, g.Inside x y → some (g.cellBehind r blank x y) = cell x y) :
    g.RearrangesTo r blank cell :=
  ⟨g.rearrange r blank, hg.leadsTo r blank, rfl, rfl, fun x y hxy =>
    (get?_rearrange hg.full r blank hxy).trans (h x y hxy)⟩

/-- A place whose origin is inside gets the cell from there. -/
theorem some_cellBehind_of_inside (hg : g.Full) {x' y' : Nat} (h : r.origin x y = some (x', y'))
    (hin : g.Inside x' y') : some (g.cellBehind r blank x y) = g.get? x' y' :=
  (cellBehind_of_inside hg h hin).trans (get?_of_inside hin).symm

section Moves

variable (hg : g.Full) (hxy : g.Inside x y)
include hg hxy

/-- Where the cells are from behind an insertion of rows. -/
theorem some_cellBehind_insertLines (row count : Nat) (blank : Cell) :
    some (g.cellBehind (.insertLines row count) blank x y) =
      if y < row then g.get? x y
      else if y < row + min count (g.rows - row) then some blank
      else g.get? x (y - min count (g.rows - row)) := by
  obtain ⟨hx, hy⟩ := hxy
  by_cases hbefore : y < row
  · have horigin : (Rearrangement.insertLines row count).origin x y = some (x, y) :=
      if_pos hbefore
    rw [if_pos hbefore, some_cellBehind_of_inside hg horigin ⟨hx, hy⟩]
  · by_cases hfreed : y < row + count
    · have horigin : (Rearrangement.insertLines row count).origin x y = none := by
        rw [Rearrangement.origin, if_neg hbefore, if_pos hfreed]
      rw [if_neg hbefore, if_pos (by omega), cellBehind_of_origin_eq_none horigin]
    · have hcount : min count (g.rows - row) = count := by omega
      have horigin : (Rearrangement.insertLines row count).origin x y = some (x, y - count) := by
        rw [Rearrangement.origin, if_neg hbefore, if_neg hfreed]
      have hin : g.Inside x (y - count) := ⟨hx, Nat.lt_of_le_of_lt (Nat.sub_le y count) hy⟩
      rw [if_neg hbefore, hcount, if_neg hfreed, some_cellBehind_of_inside hg horigin hin]

/-- Where the cells are from behind a deletion of rows. -/
theorem some_cellBehind_deleteLines (row count : Nat) (blank : Cell) :
    some (g.cellBehind (.deleteLines row count) blank x y) =
      if y < row then g.get? x y
      else if y < g.rows - min count (g.rows - row) then g.get? x (y + min count (g.rows - row))
      else some blank := by
  obtain ⟨hx, hy⟩ := hxy
  by_cases hbefore : y < row
  · have horigin : (Rearrangement.deleteLines row count).origin x y = some (x, y) :=
      if_pos hbefore
    rw [if_pos hbefore, some_cellBehind_of_inside hg horigin ⟨hx, hy⟩]
  · have horigin : (Rearrangement.deleteLines row count).origin x y = some (x, y + count) :=
      if_neg hbefore
    by_cases hmoved : y + count < g.rows
    · have hcount : min count (g.rows - row) = count := by omega
      rw [if_neg hbefore, hcount, if_pos (by omega),
        some_cellBehind_of_inside hg horigin ⟨hx, hmoved⟩]
    · rw [if_neg hbefore, if_neg (by omega), cellBehind_of_outside horigin fun h => hmoved h.2]

/-- Where the cells are from behind a deletion in a line. -/
theorem some_cellBehind_deleteChars (col row count : Nat) (blank : Cell) :
    some (g.cellBehind (.deleteChars col row count) blank x y) =
      if y = row ∧ col ≤ x then
        if x < g.cols - min count (g.cols - col) then g.get? (x + min count (g.cols - col)) row
        else some blank
      else g.get? x y := by
  obtain ⟨hx, hy⟩ := hxy
  by_cases hbehind : y = row ∧ col ≤ x
  · have horigin : (Rearrangement.deleteChars col row count).origin x y = some (x + count, y) :=
      if_pos hbehind
    by_cases hmoved : x + count < g.cols
    · have hcount : min count (g.cols - col) = count := by omega
      rw [some_cellBehind_of_inside hg horigin ⟨hmoved, hy⟩, if_pos hbehind, hcount,
        if_pos (by omega), hbehind.1]
    · rw [if_pos hbehind, if_neg (by omega), cellBehind_of_outside horigin fun h => hmoved h.1]
  · have horigin : (Rearrangement.deleteChars col row count).origin x y = some (x, y) :=
      if_neg hbehind
    rw [if_neg hbehind, some_cellBehind_of_inside hg horigin ⟨hx, hy⟩]

end Moves

section Erasures

variable {covered : Nat → Nat → Prop}

/-- What is erased is blank, and the rest stays. -/
theorem some_cellBehind_of_erases (hg : g.Full) (hxy : g.Inside x y) (hr : r.Erases covered)
    [Decidable (covered x y)] :
    some (g.cellBehind r blank x y) = if covered x y then some blank else g.get? x y := by
  split
  case isTrue hcovered =>
    rw [cellBehind_of_origin_eq_none (hr.origin_of_covered hcovered)]
  case isFalse hkept =>
    exact some_cellBehind_of_inside hg (hr.origin_of_not_covered hkept) hxy

/-- Erasing twice is erasing what either erases. -/
theorem rearrange_rearrange_of_erases (hg : g.Full) {s both : Rearrangement}
    {covered' : Nat → Nat → Prop} (hr : r.Erases covered) (hs : s.Erases covered')
    (hboth : both.Erases fun x y => covered x y ∨ covered' x y) :
    (g.rearrange r blank).rearrange s blank = g.rearrange both blank := by
  classical
  have hfirst := hg.rearrange r blank
  refine (hfirst.rearrange s blank).ext (hg.rearrange both blank) rfl rfl fun x y hxy => ?_
  have hin : g.Inside x y := hxy
  rw [get?_rearrange hfirst s blank hxy, get?_rearrange hg both blank hin,
    some_cellBehind_of_erases hfirst hxy hs, some_cellBehind_of_erases hg hin hboth,
    get?_rearrange hg r blank hin, some_cellBehind_of_erases hg hin hr]
  by_cases hcovered : covered x y
  · simp only [hcovered, true_or, if_true, ite_self]
  · simp only [hcovered, false_or, if_false]

/-- What is erased is blank, and the rest stays, in words as well. -/
theorem Countable.rearrangesTo_of_erases (hg : g.Countable) (hr : r.Erases covered)
    [∀ x y, Decidable (covered x y)] :
    g.RearrangesTo r blank fun x y => if covered x y then some blank else g.get? x y :=
  hg.rearrangesTo fun _ _ hxy => some_cellBehind_of_erases hg.full hxy hr

/-- An operation in three modes: two of them cover parts that do not meet, and the third
one covers both parts. -/
structure ErasesInParts (g : Grid) (op : EraseMode → Rearrangement) (blank : Cell)
    (inFront behind : Nat → Nat → Prop) [∀ x y, Decidable (inFront x y)]
    [∀ x y, Decidable (behind x y)] : Prop where
  toStart : g.RearrangesTo (op .toStart) blank fun x y =>
    if inFront x y then some blank else g.get? x y
  toEnd : g.RearrangesTo (op .toEnd) blank fun x y =>
    if behind x y then some blank else g.get? x y
  all : g.RearrangesTo (op .all) blank fun x y =>
    if inFront x y ∨ behind x y then some blank else g.get? x y
  apart : ∀ x y, inFront x y → ¬behind x y
  toStart_toEnd : ∃ part whole, g.LeadsTo (op .toStart) blank part ∧
    part.LeadsTo (op .toEnd) blank whole ∧ g.LeadsTo (op .all) blank whole
  toEnd_toStart : ∃ part whole, g.LeadsTo (op .toEnd) blank part ∧
    part.LeadsTo (op .toStart) blank whole ∧ g.LeadsTo (op .all) blank whole

/-- **Two erasures**, one after the other, erase what either covers. -/
theorem Countable.leadsTo_leadsTo_of_erases (hg : g.Countable) {s both : Rearrangement}
    {covered' : Nat → Nat → Prop} (hr : r.Erases covered) (hs : s.Erases covered')
    (hboth : both.Erases fun x y => covered x y ∨ covered' x y) :
    ∃ part whole, g.LeadsTo r blank part ∧ part.LeadsTo s blank whole ∧
      g.LeadsTo both blank whole := by
  have hsecond := (hg.rearrange r blank).leadsTo s blank
  rw [rearrange_rearrange_of_erases hg.full hr hs hboth] at hsecond
  exact ⟨_, _, hg.leadsTo r blank, hsecond, hg.leadsTo both blank⟩

/-- Erasing all is erasing the part in front and the part behind, which are apart. -/
theorem Countable.erasesInParts (hg : g.Countable) {op : EraseMode → Rearrangement}
    {inFront behind : Nat → Nat → Prop} [∀ x y, Decidable (inFront x y)]
    [∀ x y, Decidable (behind x y)] (hstart : (op .toStart).Erases inFront)
    (hend : (op .toEnd).Erases behind)
    (hall : (op .all).Erases fun x y => inFront x y ∨ behind x y)
    (hapart : ∀ x y, inFront x y → ¬behind x y) :
    g.ErasesInParts op blank inFront behind := by
  have hall' := hall.congr fun x y => Or.comm
  exact ⟨hg.rearrangesTo_of_erases hstart, hg.rearrangesTo_of_erases hend,
    hg.rearrangesTo_of_erases hall, hapart, hg.leadsTo_leadsTo_of_erases hstart hend hall,
    hg.leadsTo_leadsTo_of_erases hend hstart hall'⟩

/-- Erasing the display up to the cursor, from the cursor on, or all of it. -/
theorem Countable.erasesInParts_display (hg : g.Countable) (col row : Nat) :
    g.ErasesInParts (fun mode => .eraseInDisplay mode col row) blank
      (fun x y => y < row ∨ y = row ∧ x < col) (fun x y => row < y ∨ y = row ∧ col ≤ x) := by
  refine hg.erasesInParts ?_ ?_ ?_ fun x y => by omega
  · exact (Rearrangement.erases_eraseInDisplay .toStart col row).congr
      fun x y => EraseMode.covers_toStart _
  · refine (Rearrangement.erases_eraseInDisplay .toEnd col row).congr fun x y => ?_
    rw [EraseMode.covers_toEnd]
    omega
  · exact (Rearrangement.erases_eraseInDisplay .all col row).congr
      fun x y => iff_of_true rfl (by omega)

/-- Erasing a line up to the cursor, from the cursor on, or all of it. -/
theorem Countable.erasesInParts_line (hg : g.Countable) (col row : Nat) :
    g.ErasesInParts (fun mode => .eraseInLine mode col row) blank
      (fun x y => y = row ∧ x < col) (fun x y => y = row ∧ col ≤ x) := by
  refine hg.erasesInParts ?_ ?_ ?_ fun x y => by omega
  · refine (Rearrangement.erases_eraseInLine .toStart col row).congr fun x y => ?_
    rw [EraseMode.covers_toStart]
  · refine (Rearrangement.erases_eraseInLine .toEnd col row).congr fun x y => ?_
    rw [EraseMode.covers_toEnd, Nat.not_lt]
  · refine (Rearrangement.erases_eraseInLine .all col row).congr fun x y => ?_
    have hall : EraseMode.all.covers (decide (x < col)) = true := rfl
    rw [and_iff_left hall]
    omega

end Erasures

/-- **Line operations move rows.**  For every screen, row, count and blank, with the count
cut to the rows from that one on:

* Inserted lines come before the row, and the rows from it on are pushed down by as many;
  deleted lines leave, and the rows below are pulled up, with blank rows behind them.
* Below the last row nothing happens.
* Scrolling is the deletion or insertion of lines at the top.
* Lines that are inserted and deleted again restore every row that was not pushed out, and
  the others are blank. -/
theorem line_operations_move_rows {g : Grid} (hg : g.Countable) (row count : Nat)
    (blank blank' : Cell) :
    let moved := min count (g.rows - row)
    (row < g.rows →
      (g.RearrangesTo (.insertLines row count) blank fun x y =>
        if y < row then g.get? x y
        else if y < row + moved then some blank
        else g.get? x (y - moved)) ∧
      (g.RearrangesTo (.deleteLines row count) blank fun x y =>
        if y < row then g.get? x y
        else if y < g.rows - moved then g.get? x (y + moved)
        else some blank)) ∧
    (g.rows ≤ row →
      g.LeadsTo (.insertLines row count) blank g ∧ g.LeadsTo (.deleteLines row count) blank g) ∧
    (∃ after, g.LeadsTo (.scrollUp count) blank after ∧
      g.LeadsTo (.deleteLines 0 count) blank after) ∧
    (∃ after, g.LeadsTo (.scrollDown count) blank after ∧
      g.LeadsTo (.insertLines 0 count) blank after) ∧
    (row < g.rows → ∃ pushed, g.LeadsTo (.insertLines row count) blank pushed ∧
      (pushed.cols = g.cols ∧ pushed.rows = g.rows) ∧
      pushed.RearrangesTo (.deleteLines row count) blank' fun x y =>
        if y < g.rows - moved then g.get? x y else some blank') := by
  intro moved
  have hfull := hg.full
  refine ⟨fun _ => ⟨?_, ?_⟩, fun hrow => ⟨?_, ?_⟩, ?_, ?_, fun hrow => ?_⟩
  · exact hg.rearrangesTo fun x y hxy => some_cellBehind_insertLines hfull hxy row count blank
  · exact hg.rearrangesTo fun x y hxy => some_cellBehind_deleteLines hfull hxy row count blank
  · exact hg.leadsTo_of_edits_eq_nil (if_pos hrow)
  · exact hg.leadsTo_of_edits_eq_nil (if_pos hrow)
  · exact hg.leadsTo_of_cellBehind fun x y _ => rfl
  · refine hg.leadsTo_of_cellBehind fun x y _ => ?_
    simp only [cellBehind, Rearrangement.origin, Nat.not_lt_zero, if_false, Nat.zero_add]
  · have hpushed := hg.rearrange (.insertLines row count) blank
    refine ⟨_, hg.leadsTo _ blank, ⟨rfl, rfl⟩, hpushed.rearrangesTo fun x y hxy => ?_⟩
    have hin : g.Inside x y := hxy
    -- a row that is kept was pushed down and is pulled back up
    rw [some_cellBehind_deleteLines hpushed.full hxy]
    show (if y < row then (g.rearrange _ blank).get? x y
      else if y < g.rows - moved then (g.rearrange _ blank).get? x (y + moved)
      else some blank') = _
    by_cases hkept : y < g.rows - moved
    · rw [if_pos hkept, if_pos hkept]
      by_cases hbefore : y < row
      · rw [if_pos hbefore, get?_rearrange hfull _ blank hin,
          some_cellBehind_insertLines hfull hin, if_pos hbefore]
      · have hbelow : g.Inside x (y + moved) := ⟨hin.1, by omega⟩
        have hback : y + moved - moved = y := Nat.add_sub_cancel y moved
        rw [if_neg hbefore, get?_rearrange hfull _ blank hbelow,
          some_cellBehind_insertLines hfull hbelow, if_neg (by omega), if_neg (by omega), hback]
    · rw [if_neg (by omega), if_neg hkept, if_neg hkept]

/-- Two rows of two cells. -/
def fourCells : Grid :=
  ⟨2, 2, #[.pack 0x61 7 0 false false, .pack 0x62 7 0 false false, .pack 0x63 7 0 false false,
    .pack 0x64 7 0 false false]⟩

theorem countable_fourCells : fourCells.Countable :=
  ⟨rfl, by decide, by decide⟩

/-- More lines than there are rows push out the last row only, and leave the first alone. -/
theorem line_operations_move_rows_pushedOut :
    (fourCells.Countable ∧ 1 < fourCells.rows) ∧
      ∃ pushed, fourCells.LeadsTo (.insertLines 1 9) .untouched pushed ∧
        ∀ x y, fourCells.Inside x y →
          pushed.get? x y = if y = 0 then fourCells.get? x y else some .untouched := by
  have hrow : 1 < fourCells.rows := by decide
  obtain ⟨hmoves, -⟩ := line_operations_move_rows countable_fourCells 1 9 .untouched .untouched
  obtain ⟨⟨pushed, hleads, -, -, hcells⟩, -⟩ := hmoves hrow
  refine ⟨⟨countable_fourCells, hrow⟩, pushed, hleads, fun x y hxy => ?_⟩
  have hlast : y < 2 := hxy.2
  have hmoved : min 9 (fourCells.rows - 1) = 1 := rfl
  rw [hcells x y hxy, hmoved]
  dsimp only
  by_cases hfirst : y = 0
  · rw [if_pos (by omega), if_pos hfirst]
  · rw [if_neg (by omega), if_pos (by omega), if_neg hfirst]

/-- **Erasures keep to their cells.**  For every screen, every cursor on it or off it, every
count and blank:

* The display is erased from the cursor on, up to the cursor, or as a whole; the first two
  share no place and leave out none, and both together are the third.
* The same holds of the cursor's line, and of no other place; below the last row nothing
  happens.
* Erased characters are those from the cursor on, as many as are asked for, in its line.
* Dropped characters are replaced by those behind them, in their line, and blanks come from
  the right; where the cursor is off the screen nothing happens. -/
theorem erasures_keep_to_their_cells {g : Grid} (hg : g.Countable) (col row count : Nat)
    (blank : Cell) :
    let dropped := min count (g.cols - col)
    (g.ErasesInParts (fun mode => .eraseInDisplay mode col row) blank
        (fun x y => y < row ∨ y = row ∧ x < col) (fun x y => row < y ∨ y = row ∧ col ≤ x) ∧
      (∀ x y, (y < row ∨ y = row ∧ x < col) ∨ (row < y ∨ y = row ∧ col ≤ x)) ∧
      g.RearrangesTo (.eraseInDisplay .all col row) blank fun _ _ => some blank) ∧
    (g.ErasesInParts (fun mode => .eraseInLine mode col row) blank
        (fun x y => y = row ∧ x < col) (fun x y => y = row ∧ col ≤ x) ∧
      (∀ x y, (y = row ∧ x < col) ∨ (y = row ∧ col ≤ x) ↔ y = row) ∧
      (g.rows ≤ row → ∀ mode, g.LeadsTo (.eraseInLine mode col row) blank g)) ∧
    (g.RearrangesTo (.eraseChars col row count) blank fun x y =>
      if y = row ∧ col ≤ x ∧ x < col + count then some blank else g.get? x y) ∧
    (col < g.cols ∧ row < g.rows →
      g.RearrangesTo (.deleteChars col row count) blank fun x y =>
        if y = row ∧ col ≤ x then
          if x < g.cols - dropped then g.get? (x + dropped) row else some blank
        else g.get? x y) ∧
    (¬(col < g.cols ∧ row < g.rows) → g.LeadsTo (.deleteChars col row count) blank g) := by
  intro dropped
  have hfull := hg.full
  refine ⟨⟨hg.erasesInParts_display col row, fun x y => by omega, ?_⟩,
    ⟨hg.erasesInParts_line col row, fun x y => by omega, fun hrow mode => ?_⟩, ?_, fun _ => ?_,
    fun hout => ?_⟩
  · exact hg.rearrangesTo fun x y _ => congrArg some (cellBehind_of_origin_eq_none rfl)
  · exact hg.leadsTo_of_edits_eq_nil (if_pos hrow)
  · exact hg.rearrangesTo_of_erases (Rearrangement.erases_eraseChars col row count)
  · exact hg.rearrangesTo fun x y hxy => some_cellBehind_deleteChars hfull hxy col row count blank
  · exact hg.leadsTo_of_edits_eq_nil (if_pos (by omega))

/-- From a cursor past the right edge on, the display is erased from the next row on. -/
theorem erasures_keep_to_their_cells_pastEdge :
    fourCells.Countable ∧
      fourCells.RearrangesTo (.eraseInDisplay .toEnd 7 0) .untouched fun x y =>
        if y = 0 then fourCells.get? x y else some .untouched := by
  obtain ⟨⟨hdisplay, -⟩, -⟩ := erasures_keep_to_their_cells countable_fourCells 7 0 0 .untouched
  obtain ⟨after, hleads, hcols, hrows, hcells⟩ := hdisplay.toEnd
  refine ⟨countable_fourCells, after, hleads, hcols, hrows, fun x y hxy => ?_⟩
  have hedge : x < 2 := hxy.1
  rw [hcells x y hxy]
  dsimp only
  by_cases hfirst : y = 0
  · rw [if_neg (by omega), if_pos hfirst]
  · rw [if_pos (by omega), if_neg hfirst]

end Grid

end BaudReel
