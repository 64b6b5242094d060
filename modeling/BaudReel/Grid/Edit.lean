import BaudReel.Cell
/-!
# Edits of an array of cells

A screen keeps its cells in one array, row after row, and every operation on it
comes down to two kinds of edits of that array: fill a range of cells, or move
a range to another place.  The main statements say what an edit does to each
single place (`getElem?_fillRange`, `getElem?_moveRange`), and that edits inside
the array never resize it (`size_foldl_apply`).
-/

namespace BaudReel

/-- One change of a row-major array of cells. -/
inductive Edit where
  /-- Blank the cells from `start` up to but not including `stop`. -/
  | fill (start stop : Nat)
  /-- Copy the cells from `start` up to but not including `stop` to `dest` and
  the places behind it. -/
  | move (start stop dest : Nat)
deriving DecidableEq, Inhabited

namespace Edit

/-- Overwrites `count` cells from `start` on; places outside the array are
passed over. -/
def fillCells (cell : Cell) (start : Nat) : Nat → Array Cell → Array Cell
  | 0, cells => cells
  | count + 1, cells => fillCells cell start count (cells.setIfInBounds (start + count) cell)

/-- Overwrites the range `start ≤ i < stop`, clamped to the array. -/
def fillRange (cells : Array Cell) (start stop : Nat) (cell : Cell) : Array Cell :=
  fillCells cell start (min stop cells.size - start) cells

/-- Copies the range `start ≤ i < stop` to `dest`, as it was before. -/
def moveRange (cells : Array Cell) (start stop dest : Nat) : Array Cell :=
  cells.extract 0 dest ++ cells.extract start stop
    ++ cells.extract (dest + (stop - start)) cells.size

/-- Filling puts no cells in. -/
@[simp]
theorem size_fillCells (cell : Cell) (start count : Nat) (cells : Array Cell) :
    (fillCells cell start count cells).size = cells.size := by
  induction count generalizing cells with
  | zero => rfl
  | succ count ih => rw [fillCells, ih, Array.size_setIfInBounds]

/-- Filling changes the cells of its stretch, as far as there are cells, and no others. -/
theorem getElem?_fillCells (cell : Cell) (start count : Nat) (cells : Array Cell) (i : Nat) :
    (fillCells cell start count cells)[i]? =
      if start ≤ i ∧ i < start + count ∧ i < cells.size then some cell else cells[i]? := by
  induction count generalizing cells with
  | zero =>
    rw [fillCells, if_neg (by omega)]
  | succ count ih =>
    rw [fillCells, ih, Array.size_setIfInBounds, Array.getElem?_setIfInBounds]
    by_cases hold : start ≤ i ∧ i < start + count ∧ i < cells.size
    · rw [if_pos hold, if_pos (by omega)]
    · rw [if_neg hold]
      by_cases hlast : start + count = i
      · subst hlast
        by_cases hsize : start + count < cells.size
        · rw [if_pos rfl, if_pos hsize, if_pos (by omega)]
        · rw [if_pos rfl, if_neg hsize, if_neg (by omega), Array.getElem?_eq_none (by omega)]
      · rw [if_neg hlast, if_neg (by omega)]

@[simp]
theorem size_fillRange (cells : Array Cell) (start stop : Nat) (cell : Cell) :
    (fillRange cells start stop cell).size = cells.size := by
  rw [fillRange, size_fillCells]

/-- A filled range holds the new cell, and nothing else has changed. -/
theorem getElem?_fillRange (cells : Array Cell) (start stop : Nat) (cell : Cell) (i : Nat) :
    (fillRange cells start stop cell)[i]? =
      if start ≤ i ∧ i < stop ∧ i < cells.size then some cell else cells[i]? := by
  rw [fillRange, getElem?_fillCells]
  by_cases h : start ≤ i ∧ i < stop ∧ i < cells.size
  · rw [if_pos h, if_pos (by omega)]
  · rw [if_neg h, if_neg (by omega)]

/-- A move within the array keeps its size. -/
theorem size_moveRange (cells : Array Cell) {start stop dest : Nat}
    (hstop : stop ≤ cells.size) (hdest : dest + (stop - start) ≤ cells.size) :
    (moveRange cells start stop dest).size = cells.size := by
  simp only [moveRange, Array.size_append, Array.size_extract]
  omega

/-- A move within the array copies the old cells of its range, and nothing else
has changed. -/
theorem getElem?_moveRange (cells : Array Cell) {start stop dest : Nat}
    (hstop : stop ≤ cells.size) (hdest : dest + (stop - start) ≤ cells.size) (i : Nat) :
    (moveRange cells start stop dest)[i]? =
      if dest ≤ i ∧ i < dest + (stop - start) then cells[start + (i - dest)]? else cells[i]? := by
  have hfront : min dest cells.size = dest := by omega
  have hrun : min stop cells.size = stop := Nat.min_eq_left hstop
  simp only [moveRange, Array.getElem?_append, Array.size_append, Array.size_extract,
    Array.getElem?_extract, hfront, hrun, Nat.min_self, Nat.sub_zero, Nat.zero_add]
  by_cases hbefore : i < dest
  · have hfirst : i < dest + (stop - start) := by omega
    have hout : ¬(dest ≤ i ∧ i < dest + (stop - start)) := by omega
    simp only [if_pos hfirst, if_pos hbefore, if_neg hout]
  · by_cases hinside : i < dest + (stop - start)
    · have hrange : i - dest < stop - start := by omega
      have hin : dest ≤ i ∧ i < dest + (stop - start) := by omega
      simp only [if_pos hinside, if_neg hbefore, if_pos hrange, if_pos hin]
    · have hout : ¬(dest ≤ i ∧ i < dest + (stop - start)) := by omega
      simp only [if_neg hinside, if_neg hout]
      by_cases hsize : i < cells.size
      · rw [if_pos (by omega)]
        congr 1
        omega
      · rw [if_neg (by omega), Array.getElem?_eq_none (by omega)]

/-- Carries out one edit. -/
def apply (blank : Cell) (cells : Array Cell) : Edit → Array Cell
  | .fill start stop => fillRange cells start stop blank
  | .move start stop dest => moveRange cells start stop dest

/-- Whether a move reads and writes inside an array of `size` cells.  A fill
clamps itself. -/
def Within (size : Nat) : Edit → Prop
  | .fill _ _ => True
  | .move start stop dest => start ≤ stop ∧ stop ≤ size ∧ dest + (stop - start) ≤ size

/-- An edit inside the array keeps its size. -/
theorem size_apply (blank : Cell) {cells : Array Cell} {e : Edit} (h : e.Within cells.size) :
    (apply blank cells e).size = cells.size := by
  cases e with
  | fill start stop => exact size_fillRange cells start stop blank
  | move start stop dest => exact size_moveRange cells h.2.1 h.2.2

/-- Edits inside the array keep its size. -/
theorem size_foldl_apply (blank : Cell) {cells : Array Cell} {es : List Edit}
    (h : ∀ e ∈ es, e.Within cells.size) : (es.foldl (apply blank) cells).size = cells.size := by
  induction es generalizing cells with
  | nil => rfl
  | cons e es ih =>
    have hsize : (apply blank cells e).size = cells.size := size_apply blank (h e (by simp))
    rw [List.foldl_cons, ih, hsize]
    intro e' he'
    rw [hsize]
    exact h e' (by simp [he'])

end Edit

end BaudReel
