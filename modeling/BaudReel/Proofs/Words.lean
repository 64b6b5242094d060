import BaudReel.Checked
import BaudReel.Proofs.Sizing
import Mathlib.Algebra.Group.Nat.Defs

/-!
# A terminal never leaves its words

A terminal that computes in words and keeps to its arrays never comes to a step that has
no result.  Two things make this so.  Every rearrangement cuts its counts to the grid
before it computes with them, so that its indices are no larger than the number of cells
(`Rearrangement.edits?_eq`); and the one index that may be larger, that of a cursor far
below the screen, saturates and is cut off with the fill.  And no action carries a
cursor, a measured place or the count of bells further than a stride
(`Terminal.Within.applied?_eq`), of which a word holds many.

The parts are those of the terminal: `Grid.Countable` is kept by every operation on the
cells, `Head.Within` grows with the cursor, and `Canvas.Within` with what is noted of the
strokes.  `words_suffice` takes them together over a run of actions.
-/

namespace BaudReel

namespace Word

variable {a b : Nat}

/-- A sum that fits a word is the exact one. -/
theorem add?_eq (h : a + b ≤ max64) : add? a b = some (a + b) :=
  if_pos h

theorem sub?_eq (h : b ≤ a) : sub? a b = some (a - b) :=
  if_pos h

theorem mul?_eq (h : a * b ≤ max64) : mul? a b = some (a * b) :=
  if_pos h

end Word

namespace Edit

/-- The edit cut to an array of `size` cells, which only a fill needs. -/
def cut (size : Nat) : Edit → Edit
  | .fill start stop => .fill (min start size) (min stop size)
  | .move start stop dest => .move start stop dest

/-- Filling nothing changes nothing. -/
theorem fillRange_of_le {cells : Array Cell} {start stop : Nat} (cell : Cell)
    (h : min stop cells.size ≤ start) : fillRange cells start stop cell = cells := by
  rw [fillRange, Nat.sub_eq_zero_of_le h, fillCells]

/-- A fill that is cut first fills the same. -/
theorem fillRange_cut (cells : Array Cell) (start stop : Nat) (cell : Cell) :
    fillRange cells (min start cells.size) (min stop cells.size) cell =
      fillRange cells start stop cell := by
  by_cases h : start ≤ cells.size
  · rw [Nat.min_eq_left h, fillRange, fillRange, Nat.min_assoc, Nat.min_self]
  · rw [fillRange_of_le cell (by omega), fillRange_of_le cell (by omega)]

/-- **One edit.**  Two edits that are the same once they are cut do the same, and what is
within the array is done. -/
theorem applied?_eq (blank : Cell) {cells : Array Cell} {e edit : Edit}
    (hcut : e.cut cells.size = edit.cut cells.size) (hwithin : edit.Within cells.size) :
    applied? blank cells e = some (apply blank cells edit) := by
  cases e with
  | fill start stop =>
    cases edit with
    | move => exact absurd hcut Edit.noConfusion
    | fill start' stop' =>
      obtain ⟨hstart, hstop⟩ := Edit.fill.inj hcut
      have hsame : fillRange cells (min start cells.size) (min stop cells.size) blank =
          fillRange cells start' stop' blank := by
        rw [hstart, hstop, fillRange_cut]
      rw [applied?, apply]
      split
      case isTrue hlt =>
        have hslice : Sliceable cells.size (min start cells.size) (min stop cells.size) :=
          ⟨Nat.le_of_lt hlt, Nat.min_le_right _ _⟩
        rw [if_pos hslice, hsame]
      case isFalse hle =>
        rw [← hsame, fillRange_of_le blank (by omega)]
  | move start stop dest =>
    cases edit with
    | fill => exact absurd hcut Edit.noConfusion
    | move start' stop' dest' =>
      obtain ⟨rfl, rfl, rfl⟩ := Edit.move.inj hcut
      obtain ⟨hle, hstop, hdest⟩ := hwithin
      have hallowed : Sliceable cells.size start stop ∧ dest ≤ cells.size - (stop - start) :=
        ⟨⟨hle, hstop⟩, by omega⟩
      rw [applied?, apply, if_pos hallowed]

/-- **A run of edits.** -/
theorem foldlM_applied?_eq (blank : Cell) {cells : Array Cell} {es edits : List Edit}
    (hcut : es.map (cut cells.size) = edits.map (cut cells.size))
    (hwithin : ∀ e ∈ edits, e.Within cells.size) :
    es.foldlM (applied? blank) cells = some (edits.foldl (apply blank) cells) := by
  induction es generalizing cells edits with
  | nil =>
    obtain rfl : edits = [] := List.map_eq_nil_iff.1 hcut.symm
    rfl
  | cons e es ih =>
    cases edits with
    | nil => exact absurd hcut (List.cons_ne_nil _ _)
    | cons edit edits =>
      obtain ⟨hfirst, hrest⟩ := List.cons.inj hcut
      have hedit : edit.Within cells.size := hwithin edit List.mem_cons_self
      have hsize : (apply blank cells edit).size = cells.size := size_apply blank hedit
      rw [List.foldlM_cons, applied?_eq blank hfirst hedit]
      refine ih ?_ ?_
      · rw [hsize]
        exact hrest
      · rw [hsize]
        exact fun e he => hwithin e (List.mem_cons_of_mem _ he)

end Edit

namespace Rearrangement

variable {cols rows : Nat} (hroom : cols * rows ≤ Word.max64)
include hroom

/-- The index of a row fits a word. -/
theorem mul?_of_le {row : Nat} (h : row ≤ rows) : Word.mul? row cols = some (row * cols) := by
  refine Word.mul?_eq (Nat.le_trans ?_ hroom)
  rw [Nat.mul_comm cols rows]
  exact Nat.mul_le_mul_right cols h

/-- Behind the last cell it does not matter where an offset was cut. -/
theorem min_offsetUpTo (col row : Nat) :
    min (offsetUpTo cols col row) (cols * rows) = min (offset cols col row) (cols * rows) := by
  unfold offsetUpTo offset Word.addUpTo Word.mulUpTo
  omega

/-- The places of a row are those of a grid. -/
theorem line_le {row : Nat} (hrow : row < rows) :
    (row + 1) * cols = row * cols + cols ∧ row * cols + cols ≤ Word.max64 := by
  have hline := Nat.mul_le_mul_right cols hrow
  rw [Nat.mul_comm rows cols, Nat.succ_mul] at hline
  exact ⟨Nat.succ_mul row cols, Nat.le_trans hline hroom⟩

/-- Scrolling up stays within words. -/
theorem scrollUp?_eq (count : Nat) :
    edits? cols rows (cols * rows) (.scrollUp count) =
      some (edits cols rows (.scrollUp count)) := by
  have hcount : min count rows ≤ rows := Nat.min_le_right _ _
  have hstart := mul?_of_le hroom hcount
  have hfirst := mul?_of_le hroom (Nat.sub_le rows (min count rows))
  have hstop := mul?_of_le hroom (Nat.le_refl rows)
  simp only [edits?, edits, deletion, hstart, Word.sub?_eq hcount, hfirst, hstop, Nat.zero_add,
    Nat.sub_zero, Nat.zero_mul, Nat.mul_comm cols rows, Option.bind_eq_bind, Option.bind_some]

theorem scrollDown?_eq (count : Nat) :
    edits? cols rows (cols * rows) (.scrollDown count) =
      some (edits cols rows (.scrollDown count)) := by
  have hcount : min count rows ≤ rows := Nat.min_le_right _ _
  have hdest := mul?_of_le hroom hcount
  have hstop := mul?_of_le hroom (Nat.sub_le rows (min count rows))
  simp only [edits?, edits, insertion, Word.sub?_eq hcount, hstop, hdest, Nat.zero_add,
    Nat.sub_zero, Nat.zero_mul, Option.bind_eq_bind, Option.bind_some]

variable (hcols : 0 < cols)
include hcols

theorem rows_le : rows ≤ Word.max64 :=
  Nat.le_trans (Nat.le_mul_of_pos_left rows hcols) hroom

/-- Inserting rows stays within words. -/
theorem insertion?_eq {row : Nat} (count : Nat) (hrow : row ≤ rows) :
    insertion? cols rows row count = some (insertion cols rows row count) := by
  have hrows := rows_le hroom hcols
  have hstart := mul?_of_le hroom hrow
  have hstop := mul?_of_le hroom (Nat.sub_le rows (min count (rows - row)))
  have hnext : row + min count (rows - row) ≤ rows := by omega
  have hdest := mul?_of_le hroom hnext
  have hkept : min count (rows - row) ≤ rows := by omega
  simp only [insertion?, insertion, Word.sub?_eq hrow, Word.sub?_eq hkept, hstart, hstop,
    Word.add?_eq (Nat.le_trans hnext hrows), hdest, Option.bind_eq_bind, Option.bind_some]

theorem deletion?_eq {row : Nat} (count : Nat) (hrow : row ≤ rows) :
    deletion? cols rows row count = some (deletion cols rows row count) := by
  have hrows := rows_le hroom hcols
  have hdest := mul?_of_le hroom hrow
  have hstop := mul?_of_le hroom (Nat.le_refl rows)
  have hfirst := mul?_of_le hroom (Nat.sub_le rows (min count (rows - row)))
  have hnext : row + min count (rows - row) ≤ rows := by omega
  have hstart := mul?_of_le hroom hnext
  have hkept : min count (rows - row) ≤ rows := by omega
  simp only [deletion?, deletion, Word.sub?_eq hrow, Word.sub?_eq hkept, hstart, hstop,
    Word.add?_eq (Nat.le_trans hnext hrows), hdest, hfirst, Option.bind_eq_bind, Option.bind_some]

theorem deleteChars?_eq {col row : Nat} (count : Nat) (hrow : row < rows) (hcol : col < cols) :
    edits? cols rows (cols * rows) (.deleteChars col row count) =
      some (edits cols rows (.deleteChars col row count)) := by
  obtain ⟨hsucc, hline⟩ := line_le hroom hrow
  have hrows := rows_le hroom hcols
  have hinside : ¬(rows ≤ row ∨ cols ≤ col) := by omega
  have hfirst := mul?_of_le hroom (Nat.le_of_lt hrow)
  have hlast := mul?_of_le hroom hrow
  have hstart : row * cols + col ≤ Word.max64 := by omega
  have hnext : row + 1 ≤ Word.max64 := Nat.le_trans hrow hrows
  have hrest : row * cols + col + min count (cols - col) ≤ Word.max64 := by omega
  have hkept : min count (cols - col) ≤ (row + 1) * cols := by omega
  simp only [edits?, edits, if_neg hinside, Word.sub?_eq (Nat.le_of_lt hcol), hfirst,
    Word.add?_eq hstart, Word.add?_eq hnext, hlast, Word.add?_eq hrest, Word.sub?_eq hkept,
    Option.bind_eq_bind, Option.bind_some]

theorem eraseChars?_eq {row : Nat} (col count : Nat) (hrow : row < rows) :
    edits? cols rows (cols * rows) (.eraseChars col row count) =
      some (edits cols rows (.eraseChars col row count)) := by
  obtain ⟨hsucc, hline⟩ := line_le hroom hrow
  have hinside : ¬rows ≤ row := Nat.not_le_of_lt hrow
  have hlast := mul?_of_le hroom hrow
  have hnext : row + 1 ≤ Word.max64 := Nat.le_trans hrow (rows_le hroom hcols)
  have hstart : offsetUpTo cols col row = offset cols col row := by
    unfold offsetUpTo offset Word.addUpTo Word.mulUpTo
    omega
  have hstop : min (Word.addUpTo (offset cols col row) count) ((row + 1) * cols) =
      min (offset cols col row + count) ((row + 1) * cols) := by
    unfold Word.addUpTo
    omega
  simp only [edits?, edits, if_neg hinside, hstart, Word.add?_eq hnext, hlast, hstop,
    Option.bind_eq_bind, Option.bind_some]

theorem eraseInLine?_eq {row : Nat} (mode : EraseMode) (col : Nat) (hrow : row < rows) :
    edits? cols rows (cols * rows) (.eraseInLine mode col row) =
      some (edits cols rows (.eraseInLine mode col row)) := by
  obtain ⟨-, hline⟩ := line_le hroom hrow
  have hinside : ¬rows ≤ row := Nat.not_le_of_lt hrow
  have hfirst := mul?_of_le hroom (Nat.le_of_lt hrow)
  have hcursor : offsetUpTo cols col row = offset cols col row := by
    unfold offsetUpTo offset Word.addUpTo Word.mulUpTo
    omega
  simp only [edits?, edits, if_neg hinside, hfirst, Word.add?_eq hline, hcursor,
    Option.bind_eq_bind, Option.bind_some]

/-- **Every operation** computes its edits in words.  Only the place that an erasure of
the display begins or ends at may be too large for one, and is cut off with the fill. -/
theorem edits?_eq (r : Rearrangement) :
    ∃ es, r.edits? cols rows (cols * rows) = some es ∧
      es.map (Edit.cut (cols * rows)) = (r.edits cols rows).map (Edit.cut (cols * rows)) := by
  cases r with
  | eraseInDisplay mode col row =>
    refine ⟨_, rfl, ?_⟩
    have hcursor := min_offsetUpTo hroom col row
    cases mode with
    | all => rfl
    | toEnd => simp only [edits, erasure, List.map_cons, List.map_nil, Edit.cut, hcursor]
    | toStart => simp only [edits, erasure, List.map_cons, List.map_nil, Edit.cut, hcursor]
  | eraseInLine mode col row =>
    by_cases hrow : rows ≤ row
    · exact ⟨[], if_pos hrow, by rw [edits, if_pos hrow]⟩
    · exact ⟨_, eraseInLine?_eq hroom hcols mode col (Nat.lt_of_not_le hrow), rfl⟩
  | insertLines row count =>
    by_cases hrow : rows ≤ row
    · exact ⟨[], if_pos hrow, by rw [edits, if_pos hrow]⟩
    · refine ⟨_, (if_neg hrow).trans (insertion?_eq hroom hcols count (by omega)), ?_⟩
      rw [edits, if_neg hrow]
  | deleteLines row count =>
    by_cases hrow : rows ≤ row
    · exact ⟨[], if_pos hrow, by rw [edits, if_pos hrow]⟩
    · refine ⟨_, (if_neg hrow).trans (deletion?_eq hroom hcols count (by omega)), ?_⟩
      rw [edits, if_neg hrow]
  | deleteChars col row count =>
    by_cases hout : rows ≤ row ∨ cols ≤ col
    · exact ⟨[], if_pos hout, by rw [edits, if_pos hout]⟩
    · exact ⟨_, deleteChars?_eq hroom hcols count (by omega) (by omega), rfl⟩
  | eraseChars col row count =>
    by_cases hrow : rows ≤ row
    · exact ⟨[], if_pos hrow, by rw [edits, if_pos hrow]⟩
    · exact ⟨_, eraseChars?_eq hroom hcols col count (Nat.lt_of_not_le hrow), rfl⟩
  | scrollUp count => exact ⟨_, scrollUp?_eq hroom count, rfl⟩
  | scrollDown count => exact ⟨_, scrollDown?_eq hroom count, rfl⟩

end Rearrangement

/-- A full grid with a column, whose cells can be counted by a word. -/
structure Grid.Countable (g : Grid) : Prop where
  full : g.Full
  cols_pos : 0 < g.cols
  size_le : g.cols * g.rows ≤ Word.max64

namespace Grid

/-- A new grid can be made if its cells can be counted in a word. -/
theorem countable_fresh {cols rows : Nat} (hroom : max cols 1 * max rows 1 ≤ Word.max64) :
    (fresh cols rows).Countable ∧ fresh? cols rows = some (fresh cols rows) := by
  refine ⟨⟨full_fresh cols rows, Nat.le_max_right cols 1, hroom⟩, ?_⟩
  simp only [fresh?, Word.mul?_eq hroom, Option.bind_eq_bind, Option.bind_some]
  rfl

section Places

variable {g : Grid} (hg : g.Countable)
include hg

/-- The index of a place inside fits a word. -/
theorem Countable.index?_eq {col row : Nat} (hin : g.Inside col row) :
    g.index? col row = some (row * g.cols + col) := by
  obtain ⟨hcol, hrow⟩ := hin
  obtain ⟨-, hline⟩ := Rearrangement.line_le hg.size_le hrow
  have hfirst := Rearrangement.mul?_of_le hg.size_le (Nat.le_of_lt hrow)
  have hindex : row * g.cols + col ≤ Word.max64 := by omega
  have hcell : row * g.cols + col < g.cells.size := by
    have hrows := Nat.mul_le_mul_right g.cols hrow
    rw [Nat.succ_mul, Nat.mul_comm g.rows g.cols, ← hg.full] at hrows
    omega
  simp only [index?, hfirst, Word.add?_eq hindex, if_pos hcell, Option.bind_eq_bind,
    Option.bind_some]

/-- Every cell can be read. -/
theorem Countable.read?_eq (col row : Nat) : g.read? col row = some (g.get? col row) := by
  unfold read? get?
  by_cases hin : g.Inside col row
  · simp only [if_pos hin, hg.index?_eq hin, Option.bind_eq_bind, Option.bind_some]
  · rw [if_neg hin, if_neg hin]

/-- Every row can be read. -/
theorem Countable.readRow?_eq (row : Nat) : g.readRow? row = some (g.row? row) := by
  unfold readRow? row?
  by_cases hrow : row < g.rows
  · obtain ⟨-, hline⟩ := Rearrangement.line_le hg.size_le hrow
    have hstart := Rearrangement.mul?_of_le hg.size_le (Nat.le_of_lt hrow)
    have hslice : Edit.Sliceable g.cells.size (row * g.cols) (row * g.cols + g.cols) := by
      have hrows := Nat.mul_le_mul_right g.cols hrow
      rw [Nat.succ_mul, Nat.mul_comm g.rows g.cols, ← hg.full] at hrows
      exact ⟨Nat.le_add_right _ _, hrows⟩
    simp only [if_pos hrow, hstart, Word.add?_eq hline, if_pos hslice, Option.bind_eq_bind,
      Option.bind_some]
  · rw [if_neg hrow, if_neg hrow]

/-- Setting a cell stays within words. -/
theorem Countable.set?_eq (col row : Nat) (cell : Cell) :
    g.set? col row cell = some (g.set col row cell) := by
  unfold set? set
  by_cases hin : g.Inside col row
  · simp only [if_pos hin, hg.index?_eq hin, Option.bind_eq_bind, Option.bind_some]
  · rw [if_neg hin, if_neg hin]

theorem Countable.rearrange?_eq (r : Rearrangement) (blank : Cell) :
    g.rearrange? r blank = some (g.rearrange r blank) := by
  have hsize : g.cells.size = g.cols * g.rows := hg.full
  obtain ⟨es, hes, hcut⟩ := Rearrangement.edits?_eq hg.size_le hg.cols_pos r
  rw [← hsize] at hes hcut
  have hwithin : ∀ e ∈ r.edits g.cols g.rows, e.Within g.cells.size := by
    rw [hsize]
    exact r.edits_within g.cols g.rows
  have hcells := Edit.foldlM_applied?_eq blank hcut hwithin
  simp only [rearrange?, hes, hcells, Option.bind_eq_bind, Option.bind_some]
  rfl

theorem Countable.set (col row : Nat) (cell : Cell) : (g.set col row cell).Countable := by
  refine ⟨hg.full.set col row cell, ?_, ?_⟩
  · rw [cols_set]
    exact hg.cols_pos
  · rw [cols_set, rows_set]
    exact hg.size_le

theorem Countable.rearrange (r : Rearrangement) (blank : Cell) :
    (g.rearrange r blank).Countable :=
  ⟨hg.full.rearrange r blank, hg.cols_pos, hg.size_le⟩

end Places

end Grid

/-- Numbers of a control sequence are 16-bit words. -/
def ControlSequence.Sized (s : ControlSequence) : Prop :=
  ∀ number, some number ∈ s.params → number ≤ maxParam

instance (s : ControlSequence) : Decidable s.Sized :=
  decidable_of_iff (∀ p ∈ s.params, ∀ number ∈ p, number ≤ ControlSequence.maxParam)
    ⟨fun h number hnumber => h _ hnumber number rfl,
      fun h _ hp number hnumber => h number (hnumber ▸ hp)⟩

/-- A number of a sequence, or the default for it, is within the limit of numbers. -/
theorem ControlSequence.Sized.param_le {s : ControlSequence} (h : s.Sized) (index : Nat)
    {default : Nat} (hdefault : default ≤ maxParam) : s.param index default ≤ maxParam := by
  unfold param
  cases hparam : s.params[index]? with
  | none => exact hdefault
  | some number =>
    cases number with
    | none => exact hdefault
    | some number => exact h number (List.mem_of_getElem? hparam)

/-- An action whose numbers, if it carries any, are 16-bit words. -/
def Action.Sized : Action → Prop
  | .sequence s => s.Sized
  | _ => True

instance : (a : Action) → Decidable a.Sized
  | .sequence s => inferInstanceAs (Decidable s.Sized)
  | .print _ | .control _ | .endOfText | .metadata _ => isTrue trivial

/-- A stroke at a place within a limit; a row count is a number of a control sequence. -/
def Stroke.Within (limit : Nat) : Stroke → Prop
  | .put col row _ _ => col ≤ limit ∧ row ≤ limit
  | .rearrange (.insertLines _ count) _ => count ≤ ControlSequence.maxParam
  | .rearrange _ _ => True

theorem Stroke.Within.mono {limit : Nat} {stroke : Stroke} (h : stroke.Within limit) {wider : Nat}
    (hle : limit ≤ wider) : stroke.Within wider := by
  cases stroke with
  | put col row codepoint pen => exact ⟨Nat.le_trans h.1 hle, Nat.le_trans h.2 hle⟩
  | rearrange r pen => cases r <;> exact h

/-- A canvas in words: what was noted is within a limit, what is drawn can be counted. -/
def Canvas.Within (limit : Nat) : Canvas → Prop
  | .gauge farCol farRow => farCol ≤ limit ∧ farRow ≤ limit
  | .screen grid _ => grid.Countable

/-- A head whose places are within a limit. -/
structure Head.Within (limit : Nat) (h : Head) : Prop where
  cols_pos : 0 < h.maxCols
  rows_pos : 0 < h.maxRows
  col_le : h.cursor.col ≤ limit
  row_le : h.cursor.row ≤ limit
  savedCol_le : h.cursor.savedCol ≤ limit
  savedRow_le : h.cursor.savedRow ≤ limit

/-- A terminal within a limit. -/
structure Terminal.Within (limit : Nat) (t : Terminal) : Prop where
  head : t.head.Within limit
  canvas : t.canvas.Within limit
  bells_le : t.bells ≤ limit

/-- How far one action may carry a terminal: a sequence moves by one of its numbers at
most, and there are up to two strokes. -/
def stride : Nat := 2 * ControlSequence.maxParam

namespace Canvas

variable {limit : Nat} {c : Canvas}

/-- **One stroke** grows what was noted by a row count at most. -/
theorem Within.draw?_eq (h : c.Within limit) {stroke : Stroke} (hstroke : stroke.Within limit)
    (hroom : limit + ControlSequence.maxParam ≤ Word.max64) :
    c.draw? stroke = some (c.draw stroke) ∧
      (c.draw stroke).Within (limit + ControlSequence.maxParam) := by
  cases c with
  | gauge farCol farRow =>
    obtain ⟨hcol, hrow⟩ := h
    cases stroke with
    | put col row codepoint pen =>
      obtain ⟨hcol', hrow'⟩ := hstroke
      exact ⟨rfl, Nat.le_add_right_of_le (Nat.max_le.2 ⟨hcol, hcol'⟩),
        Nat.le_add_right_of_le (Nat.max_le.2 ⟨hrow, hrow'⟩)⟩
    | rearrange r pen =>
      have hkept : (Canvas.gauge farCol farRow).Within (limit + ControlSequence.maxParam) :=
        ⟨Nat.le_add_right_of_le hcol, Nat.le_add_right_of_le hrow⟩
      cases r with
      | insertLines row count =>
        have hcount : count ≤ ControlSequence.maxParam := hstroke
        have hsum : farRow + count ≤ Word.max64 := by omega
        by_cases habove : row ≤ farRow
        · simp only [draw?, Canvas.draw, if_pos habove, Word.add?_eq hsum, Option.bind_eq_bind,
            Option.bind_some, true_and]
          exact ⟨hkept.1, Nat.add_le_add hrow hcount⟩
        · simp only [draw?, Canvas.draw, if_neg habove, true_and]
          exact hkept
      | _ => exact ⟨rfl, hkept⟩
  | screen grid transparency =>
    have hgrid : grid.Countable := h
    cases stroke with
    | put col row codepoint pen =>
      simp only [draw?, Canvas.draw, hgrid.set?_eq, Option.bind_eq_bind, Option.bind_some,
        true_and]
      exact hgrid.set col row _
    | rearrange r pen =>
      simp only [draw?, Canvas.draw, hgrid.rearrange?_eq, Option.bind_eq_bind, Option.bind_some,
        true_and]
      exact hgrid.rearrange r _

/-- **The strokes of an action**, one after the other. -/
theorem Within.foldlM_draw?_eq (h : c.Within limit) {strokes : List Stroke}
    (hstrokes : ∀ stroke ∈ strokes, stroke.Within limit)
    (hroom : limit + strokes.length * ControlSequence.maxParam ≤ Word.max64) :
    strokes.foldlM draw? c = some (strokes.foldl Canvas.draw c) ∧
      (strokes.foldl Canvas.draw c).Within
        (limit + strokes.length * ControlSequence.maxParam) := by
  induction strokes generalizing c limit with
  | nil =>
    rw [List.length_nil, Nat.zero_mul]
    exact ⟨rfl, h⟩
  | cons stroke strokes ih =>
    have hlength : limit + (stroke :: strokes).length * ControlSequence.maxParam =
        limit + ControlSequence.maxParam + strokes.length * ControlSequence.maxParam := by
      rw [List.length_cons, Nat.succ_mul]
      omega
    rw [hlength] at hroom ⊢
    obtain ⟨hdraw, hdrawn⟩ := h.draw?_eq (hstrokes stroke List.mem_cons_self) (by omega)
    rw [List.foldlM_cons, hdraw]
    refine ih hdrawn (fun stroke hstroke => ?_) hroom
    exact (hstrokes stroke (List.mem_cons_of_mem _ hstroke)).mono (Nat.le_add_right _ _)

/-- The cells of a canvas within a limit can be counted. -/
theorem Within.countable (h : c.Within limit) {g : Grid} (hgrid : c.grid? = some g) :
    g.Countable := by
  cases c with
  | gauge farCol farRow => exact absurd hgrid.symm (Option.some_ne_none g)
  | screen grid transparency =>
    obtain rfl := Option.some.inj hgrid
    exact h

/-- The extent of a canvas stays within words if there is room for one more. -/
theorem Within.extent?_eq (h : c.Within limit) (hroom : limit + 1 ≤ Word.max64) :
    c.extent? = some c.extent := by
  cases c with
  | gauge farCol farRow =>
    obtain ⟨hcol, hrow⟩ := h
    have hcols : farCol + 1 ≤ Word.max64 := by omega
    have hrows : farRow + 1 ≤ Word.max64 := by omega
    simp only [extent?, extent, Word.add?_eq hcols, Word.add?_eq hrows, Option.bind_eq_bind,
      Option.bind_some]
  | screen grid transparency => rfl

theorem Within.mono (h : c.Within limit) {wider : Nat} (hle : limit ≤ wider) :
    c.Within wider := by
  cases c with
  | gauge farCol farRow => exact ⟨Nat.le_trans h.1 hle, Nat.le_trans h.2 hle⟩
  | screen grid transparency => exact h

end Canvas

namespace Head

variable {limit : Nat} {h : Head}

/-- A head that is moved within a limit is within it. -/
theorem Within.moveTo (hin : h.Within limit) {wider col row : Nat} (hle : limit ≤ wider)
    (hcol : col ≤ wider) (hrow : row ≤ wider) : (h.moveTo col row).Within wider :=
  ⟨hin.cols_pos, hin.rows_pos, hcol, hrow, Nat.le_trans hin.savedCol_le hle,
    Nat.le_trans hin.savedRow_le hle⟩

theorem Within.mono (hin : h.Within limit) {wider : Nat} (hle : limit ≤ wider) :
    h.Within wider :=
  hin.moveTo hle (Nat.le_trans hin.col_le hle) (Nat.le_trans hin.row_le hle)

/-- A new head is at the beginning. -/
theorem within_fresh (maxCols maxRows : Nat) : (fresh maxCols maxRows).Within 0 :=
  ⟨Nat.le_max_right maxCols 1, Nat.le_max_right maxRows 1, Nat.le_refl 0, Nat.le_refl 0,
    Nat.le_refl 0, Nat.le_refl 0⟩

/-- What an action does to a head within a limit, in words. -/
structure Steps (limit : Nat) (made : Head × List Stroke) : Prop where
  head : made.1.Within (limit + ControlSequence.maxParam)
  strokes : ∀ stroke ∈ made.2, stroke.Within limit
  few : made.2.length ≤ 2

/-- A step without strokes only has to leave the head within the limit. -/
theorem Steps.of_moved {k : Head} (h : k.Within (limit + ControlSequence.maxParam)) :
    Steps limit (k, []) :=
  ⟨h, fun _ hstroke => absurd hstroke List.not_mem_nil, Nat.zero_le 2⟩

/-- A step that stays and rearranges is within the limit if its stroke is. -/
theorem Within.steps_rearrange (hin : h.Within limit) {r : Rearrangement}
    (hr : (Stroke.rearrange r h.pen).Within limit) : Steps limit (h, [.rearrange r h.pen]) := by
  refine ⟨hin.mono (Nat.le_add_right _ _), ?_, Nat.le_succ 1⟩
  intro stroke hstroke
  obtain rfl := List.mem_singleton.1 hstroke
  exact hr

/-- Erasing in the display is a step within the limit. -/
theorem Within.steps_eraseInDisplay (hin : h.Within limit) (mode : EraseMode) :
    Steps limit (h.eraseInDisplay mode) := by
  have hstroke : (Stroke.rearrange (.eraseInDisplay mode h.cursor.col h.cursor.row) h.pen).Within
      limit := trivial
  obtain ⟨hhead, hstrokes, hfew⟩ := hin.steps_rearrange hstroke
  cases mode with
  | all => exact ⟨hhead.moveTo (Nat.le_refl _) (Nat.zero_le _) (Nat.zero_le _), hstrokes, hfew⟩
  | toEnd => exact ⟨hhead, hstrokes, hfew⟩
  | toStart => exact ⟨hhead, hstrokes, hfew⟩

/-- A sequence moves by its numbers. -/
theorem Within.steps_sequence (hin : h.Within limit) {s : ControlSequence} (hs : s.Sized) :
    Steps limit (h.sequence s) := by
  have hone : 1 ≤ ControlSequence.maxParam := by decide
  have hcount : s.param 0 1 ≤ ControlSequence.maxParam := hs.param_le 0 hone
  have hcount' : s.param 1 1 ≤ ControlSequence.maxParam := hs.param_le 1 hone
  have hcol := hin.col_le
  have hrow := hin.row_le
  have hwider := Nat.le_add_right limit ControlSequence.maxParam
  have hmono := hin.mono hwider
  have hkept : Steps limit (h, []) := .of_moved hmono
  unfold Head.sequence
  dsimp only
  split
  case h_1 => exact .of_moved (hin.moveTo hwider (by omega) (by omega))
  case h_2 => exact .of_moved (hin.moveTo hwider (by omega) (by omega))
  case h_3 => exact .of_moved (hin.moveTo hwider (by omega) (by omega))
  case h_4 => exact .of_moved (hin.moveTo hwider (by omega) (by omega))
  case h_5 => exact .of_moved (hin.moveTo hwider (by omega) (by omega))
  case h_6 => exact .of_moved (hin.moveTo hwider (by omega) (by omega))
  case h_7 =>
    split
    · exact hin.steps_eraseInDisplay _
    · exact hkept
  case h_8 =>
    split
    · exact hin.steps_rearrange trivial
    · exact hkept
  -- inserted rows are the one rearrangement that a gauge takes note of
  case h_9 => exact hin.steps_rearrange hcount
  case h_10 => exact hin.steps_rearrange trivial
  case h_11 => exact hin.steps_rearrange trivial
  case h_12 => exact hin.steps_rearrange trivial
  case h_13 => exact hin.steps_rearrange trivial
  case h_14 => exact hin.steps_rearrange trivial
  -- a rendition, and the two exchanges with the remembered place
  case h_15 =>
    exact .of_moved ⟨hin.cols_pos, hin.rows_pos, hmono.col_le, hmono.row_le, hmono.savedCol_le,
      hmono.savedRow_le⟩
  case h_16 =>
    exact .of_moved ⟨hin.cols_pos, hin.rows_pos, hmono.col_le, hmono.row_le, hmono.col_le,
      hmono.row_le⟩
  case h_17 =>
    exact .of_moved ⟨hin.cols_pos, hin.rows_pos, hmono.savedCol_le, hmono.savedRow_le,
      hmono.savedCol_le, hmono.savedRow_le⟩
  case h_18 => exact hkept

section Room

variable (hroom : limit + ControlSequence.maxParam ≤ Word.max64)
include hroom

/-- Going on to another row stays within words. -/
theorem Within.advance?_eq (hin : h.Within limit) {row : Nat} (hrow : row ≤ limit) :
    h.advance? row = some (h.advance row) ∧
      (h.advance row).Within (limit + ControlSequence.maxParam) := by
  have hparam : 1 ≤ ControlSequence.maxParam := by decide
  have hcol := hin.col_le
  have hnext : h.cursor.col + 1 ≤ Word.max64 := by omega
  have hbelow : row + 1 ≤ Word.max64 := by omega
  unfold advance? Head.advance
  simp only [Word.add?_eq hnext, Word.add?_eq hbelow, Option.bind_eq_bind, Option.bind_some]
  split
  · exact ⟨rfl, hin.moveTo (by omega) (by omega) (by omega)⟩
  · exact ⟨rfl, hin.moveTo (by omega) (by omega) (by omega)⟩

/-- Printing stays within words. -/
theorem Within.print?_eq (hin : h.Within limit) (codepoint : UInt8) :
    h.print? codepoint = some (h.print codepoint) ∧ Steps limit (h.print codepoint) := by
  have hparam : 1 ≤ ControlSequence.maxParam := by decide
  have hcol := hin.col_le
  have hrow := hin.row_le
  have hrows := hin.rows_pos
  unfold print? Head.print
  by_cases hpast : h.maxRows ≤ h.cursor.row
  · have hover : h.cursor.row - h.maxRows + 1 ≤ Word.max64 := by omega
    have hlast : h.maxRows - 1 ≤ limit := by omega
    obtain ⟨hadvance, hnext⟩ := hin.advance?_eq hroom hlast
    simp only [if_pos hpast, Word.sub?_eq hpast, Word.add?_eq hover, Word.sub?_eq hrows, hadvance,
      Option.bind_eq_bind, Option.bind_some, true_and]
    refine ⟨hnext, ?_, Nat.le_refl 2⟩
    intro stroke hstroke
    rcases List.mem_cons.1 hstroke with rfl | hput
    · trivial
    · obtain rfl := List.mem_singleton.1 hput
      exact ⟨hcol, hlast⟩
  · obtain ⟨hadvance, hnext⟩ := hin.advance?_eq hroom hrow
    simp only [if_neg hpast, hadvance, Option.bind_eq_bind, Option.bind_some, true_and]
    refine ⟨hnext, ?_, Nat.le_succ 1⟩
    intro stroke hstroke
    obtain rfl := List.mem_singleton.1 hstroke
    exact ⟨hcol, hrow⟩

/-- Control codes stay within words. -/
theorem Within.control?_eq (hin : h.Within limit) (code : ControlCode) :
    h.control? code = some (h.control code) ∧ Steps limit (h.control code) := by
  have hone : 1 ≤ ControlSequence.maxParam := by decide
  have htab : tabWidth ≤ ControlSequence.maxParam := by decide
  have hcol := hin.col_le
  have hrow := hin.row_le
  have hwider := Nat.le_add_right limit ControlSequence.maxParam
  cases code with
  | bell => exact ⟨rfl, .of_moved (hin.mono hwider)⟩
  | backspace =>
    exact ⟨rfl, .of_moved (hin.moveTo hwider (by omega) (Nat.le_trans hrow hwider))⟩
  | tab =>
    have hstop : (h.cursor.col / tabWidth + 1) * tabWidth ≤ h.cursor.col + tabWidth := by
      rw [Nat.succ_mul]
      exact Nat.add_le_add_right (Nat.div_mul_le_self _ _) _
    have hnext : h.cursor.col / tabWidth + 1 ≤ Word.max64 := by
      have hdiv := Nat.div_le_self h.cursor.col tabWidth
      omega
    have hproduct : (h.cursor.col / tabWidth + 1) * tabWidth ≤ Word.max64 := by omega
    simp only [control?, Word.add?_eq hnext, Word.mul?_eq hproduct, Word.sub?_eq hin.cols_pos,
      Option.bind_eq_bind, Option.bind_some]
    exact ⟨rfl, .of_moved (hin.moveTo hwider (by omega) (Nat.le_trans hrow hwider))⟩
  | lineFeed =>
    have hnext : h.cursor.row + 1 ≤ Word.max64 := by omega
    simp only [control?, Word.add?_eq hnext, Option.bind_eq_bind, Option.bind_some]
    exact ⟨rfl, .of_moved (hin.moveTo hwider (Nat.le_trans hcol hwider) (by omega))⟩
  | formFeed => exact ⟨rfl, hin.steps_eraseInDisplay .all⟩
  | carriageReturn =>
    exact ⟨rfl, .of_moved (hin.moveTo hwider (Nat.zero_le _) (Nat.le_trans hrow hwider))⟩

/-- Control sequences stay within words if their numbers do. -/
theorem Within.sequence?_eq (hin : h.Within limit) {s : ControlSequence} (hs : s.Sized) :
    h.sequence? s = some (h.sequence s) := by
  have hone : 1 ≤ ControlSequence.maxParam := by decide
  have hcount : s.param 0 1 ≤ ControlSequence.maxParam := hs.param_le 0 hone
  have hcol := hin.col_le
  have hrow := hin.row_le
  unfold sequence?
  dsimp only
  split
  case h_1 hletter =>
    have hsum : h.cursor.row + s.param 0 1 ≤ Word.max64 := by omega
    simp only [Head.sequence, hletter, Word.add?_eq hsum, Word.sub?_eq hin.rows_pos,
      Option.bind_eq_bind, Option.bind_some]
  case h_2 hletter =>
    have hsum : h.cursor.col + s.param 0 1 ≤ Word.max64 := by omega
    simp only [Head.sequence, hletter, Word.add?_eq hsum, Word.sub?_eq hin.cols_pos,
      Option.bind_eq_bind, Option.bind_some]
  case h_3 => rfl

/-- **One action** of the head. -/
theorem Within.applied?_eq (hin : h.Within limit) {a : Action} (ha : a.Sized) :
    h.applied? a = some (h.apply a) ∧ Steps limit (h.apply a) := by
  have hkept : Steps limit (h, []) := .of_moved (hin.mono (Nat.le_add_right _ _))
  cases a with
  | print codepoint => exact hin.print?_eq hroom codepoint
  | control code => exact hin.control?_eq hroom code
  | sequence s => exact ⟨hin.sequence?_eq hroom ha, hin.steps_sequence ha⟩
  | endOfText => exact ⟨rfl, hkept⟩
  | metadata text => exact ⟨rfl, hkept⟩

end Room

end Head

namespace Terminal

variable {limit : Nat} {t : Terminal}

/-- **One action** carries a terminal no further than its stride. -/
theorem Within.applied?_eq (h : t.Within limit) {a : Action} (ha : a.Sized)
    (hroom : limit + stride ≤ Word.max64) :
    t.applied? a = some (t.apply a) ∧ (t.apply a).Within (limit + stride) := by
  have hone : 1 ≤ ControlSequence.maxParam := by decide
  have hstride : stride = ControlSequence.maxParam + ControlSequence.maxParam := Nat.two_mul _
  obtain ⟨hhead, hmoved, hstrokes, hfew⟩ := h.head.applied?_eq (by omega) ha
  have hlength : (t.head.apply a).2.length * ControlSequence.maxParam ≤ stride :=
    Nat.mul_le_mul_right _ hfew
  obtain ⟨hcanvas, hdrawn⟩ := h.canvas.foldlM_draw?_eq hstrokes (by omega)
  have hrung : bellsOf a ≤ 1 := by
    cases a with
    | control code => cases code <;> decide
    | _ => exact Nat.zero_le 1
  have hbells : t.bells + bellsOf a ≤ Word.max64 := by
    have hle := h.bells_le
    omega
  obtain ⟨parser, head, canvas, endOfText, metadata, bells⟩ := t
  refine ⟨?_, ?_, ?_, ?_⟩
  · have hwords : head.applied? a = some (head.apply a) := hhead
    have hstrokes : (head.apply a).2.foldlM Canvas.draw? canvas = some _ := hcanvas
    have hsum : Word.add? bells (bellsOf a) = some _ := Word.add?_eq hbells
    cases hgauge : canvas.isGauge with
    | true =>
      simp only [applied?, apply, hwords, hstrokes, hgauge, Option.bind_eq_bind, Option.bind_some,
        Bool.not_true, Bool.false_eq_true, if_false]
    | false =>
      simp only [applied?, apply, hwords, hstrokes, hgauge, hsum, Option.bind_eq_bind,
        Option.bind_some, Bool.not_false, if_true]
  · exact hmoved.mono (by omega)
  · exact hdrawn.mono (by omega)
  · show (if !canvas.isGauge then bells + bellsOf a else bells) ≤ _
    have hle : bells ≤ limit := h.bells_le
    split <;> omega

/-- **A run of actions** stays within as many strides. -/
theorem Within.foldlM_applied?_eq (h : t.Within limit) {actions : List Action}
    (hsized : ∀ a ∈ actions, a.Sized) (hroom : limit + actions.length * stride ≤ Word.max64) :
    actions.foldlM applied? t = some (actions.foldl apply t) ∧
      (actions.foldl apply t).Within (limit + actions.length * stride) := by
  induction actions generalizing t limit with
  | nil =>
    rw [List.length_nil, Nat.zero_mul]
    exact ⟨rfl, h⟩
  | cons a actions ih =>
    have hlength : limit + (a :: actions).length * stride =
        limit + stride + actions.length * stride := by
      rw [List.length_cons, Nat.succ_mul]
      omega
    rw [hlength] at hroom ⊢
    obtain ⟨hstep, hnext⟩ := h.applied?_eq (hsized a List.mem_cons_self) (by omega)
    rw [List.foldlM_cons, hstep]
    exact ih hnext (fun a ha => hsized a (List.mem_cons_of_mem _ ha)) hroom

theorem within_rendering {cols rows : Nat} (maxCols maxRows : Nat) (transparency : Bool)
    (hroom : max cols 1 * max rows 1 ≤ Word.max64) :
    (rendering cols rows maxCols maxRows transparency).Within 0 :=
  ⟨Head.within_fresh maxCols maxRows, (Grid.countable_fresh hroom).1, Nat.le_refl 0⟩

theorem within_measuring (maxCols maxRows : Nat) : (measuring maxCols maxRows).Within 0 :=
  ⟨Head.within_fresh maxCols maxRows, ⟨Nat.le_refl 0, Nat.le_refl 0⟩, Nat.le_refl 0⟩

/-- **Words suffice.**  For every size whose cells can be counted, all limits, and up to
2⁴⁰ actions of any kind, as long as their numbers are 16-bit words:

* The grid is there, as large as it was at first, with as many cells as its size says.
* A drawing terminal that computes in words, and keeps to its arrays, comes to the same
  end as one that does not.  So there is no sum, difference or product that is no word,
  and no range or index outside the cells.
* Every cell and every row of its grid can be read, at every place asked for.
* A measuring terminal comes to the same end in words as well, and so does the size that
  it measures. -/
theorem words_suffice {cols rows : Nat} (maxCols maxRows : Nat) (transparency : Bool)
    (hroom : max cols 1 * max rows 1 ≤ Word.max64) {actions : List Action}
    (hsized : ∀ a ∈ actions, a.Sized) (hcount : actions.length ≤ 2 ^ 40) :
    let fresh := rendering cols rows maxCols maxRows transparency
    let drawn := actions.foldl apply fresh
    let measured := actions.foldl apply (measuring maxCols maxRows)
    (∃ g, drawn.grid? = some g ∧ g.cols = max cols 1 ∧ g.rows = max rows 1 ∧
      g.cells.size = g.cols * g.rows ∧
      ∀ col row, g.read? col row = some (g.get? col row) ∧
        g.readRow? row = some (g.row? row)) ∧
    Grid.fresh? cols rows = some (Grid.fresh cols rows) ∧
    actions.foldlM applied? fresh = some drawn ∧
    actions.foldlM applied? (measuring maxCols maxRows) = some measured ∧
    measured.canvas.extent? = some measured.extent := by
  intro fresh drawn measured
  have hstrides : actions.length * stride ≤ 2 ^ 40 * stride := Nat.mul_le_mul_right _ hcount
  have hlast : 2 ^ 40 * stride + 1 ≤ Word.max64 := by decide
  obtain ⟨hdraws, hdrawn⟩ :=
    (within_rendering maxCols maxRows transparency hroom).foldlM_applied?_eq hsized (by omega)
  obtain ⟨hmeasures, hmeasured⟩ :=
    (within_measuring maxCols maxRows).foldlM_applied?_eq hsized (by omega)
  have hgrid := grid?_foldl_apply_rendering cols rows maxCols maxRows transparency actions
  obtain ⟨hcols, hrows⟩ := Stroke.size_foldl_drawOn (.fresh cols rows) transparency
    ((Head.fresh maxCols maxRows).strokes actions)
  have hcountable := hdrawn.canvas.countable hgrid
  refine ⟨⟨_, hgrid, hcols, hrows, hcountable.full, fun col row => ?_⟩,
    (Grid.countable_fresh hroom).2, hdraws, hmeasures, ?_⟩
  · exact ⟨hcountable.read?_eq col row, hcountable.readRow?_eq row⟩
  · exact hmeasured.canvas.extent?_eq (by omega)

/-- A glyph below the last row of a screen that is smaller than its limits, and commands
with the largest numbers there are. -/
theorem words_suffice_beyond :
    let most := ControlSequence.maxParam
    let actions : List Action :=
      [.control .lineFeed, .control .lineFeed, .control .lineFeed, .print 0x41,
        .sequence ⟨0x42, [some most]⟩, .sequence ⟨0x4C, [some most]⟩,
        .sequence ⟨0x58, [some most]⟩, .sequence ⟨0x4A, [none]⟩, .control .bell]
    (max 2 1 * max 1 1 ≤ Word.max64 ∧ (∀ a ∈ actions, a.Sized) ∧ actions.length ≤ 2 ^ 40) ∧
      actions.foldlM applied? (rendering 2 1 9 3 true) =
        some (actions.foldl apply (rendering 2 1 9 3 true)) := by
  intro most actions
  have hroom : max 2 1 * max 1 1 ≤ Word.max64 := by decide
  have hsized : ∀ a ∈ actions, a.Sized := by decide
  have hcount : actions.length ≤ 2 ^ 40 := by decide
  obtain ⟨-, -, hdraws, -⟩ := words_suffice 9 3 true hroom hsized hcount
  exact ⟨⟨hroom, hsized, hcount⟩, hdraws⟩

end Terminal

end BaudReel
