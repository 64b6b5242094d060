import BaudReel.Action
import BaudReel.Cursor
import BaudReel.Grid
import BaudReel.Pen
/-!
# The writing head

What an action does splits into two parts that do not depend on each other.
The *head*, which is the cursor, the pen and the limits the cursor moves in,
changes in a way that no screen content has a say in; and the action leaves
*strokes*, the things to be done to the screen at the places the head was at.

A screen that is only being measured and one that is being drawn therefore
share every movement of the head by construction: they differ in what they do
with the strokes.
-/

namespace BaudReel

/-- Something to be done to the screen, with the pen then in force. -/
inductive Stroke where
  /-- Print a code point at a position. -/
  | put (col row : Nat) (codepoint : UInt8) (pen : Pen)
  /-- Rearrange the screen, blanking in the pen's colours. -/
  | rearrange (r : Rearrangement) (pen : Pen)
deriving DecidableEq, Inhabited

/-- The cursor, the pen, and the column and row the cursor wraps and scrolls
at. -/
structure Head where
  maxCols : Nat
  maxRows : Nat
  pen : Pen := {}
  cursor : Cursor := {}
deriving DecidableEq, Inhabited

namespace Head

/-- A head at the top left with the default pen.  Limits are at least one. -/
def fresh (maxCols maxRows : Nat) : Head where
  maxCols := max maxCols 1
  maxRows := max maxRows 1

/-- Distance between tab stops. -/
def tabWidth : Nat := 8

/-- Moves the cursor, keeping the remembered position. -/
def moveTo (h : Head) (col row : Nat) : Head :=
  { h with cursor := { h.cursor with col := col, row := row } }

/-- Where the cursor stands after stepping over a printed glyph in `row`: past
the last column it wraps to the next row. -/
def advance (h : Head) (row : Nat) : Head :=
  if h.maxCols ≤ h.cursor.col + 1 then h.moveTo 0 (row + 1)
  else h.moveTo (h.cursor.col + 1) row

/-- Prints at the cursor.  A cursor that has run past the last row first
scrolls the screen by as many rows as it is too low. -/
def print (h : Head) (codepoint : UInt8) : Head × List Stroke :=
  if h.maxRows ≤ h.cursor.row then
    (h.advance (h.maxRows - 1),
      [.rearrange (.scrollUp (h.cursor.row - h.maxRows + 1)) h.pen,
       .put h.cursor.col (h.maxRows - 1) codepoint h.pen])
  else
    (h.advance h.cursor.row, [.put h.cursor.col h.cursor.row codepoint h.pen])

/-- Erases part of the display; erasing all of it also sends the cursor
home. -/
def eraseInDisplay (h : Head) (mode : EraseMode) : Head × List Stroke :=
  let stroke := .rearrange (.eraseInDisplay mode h.cursor.col h.cursor.row) h.pen
  match mode with
  | .all => ({ h with cursor := h.cursor.home }, [stroke])
  | _ => (h, [stroke])

/-- Obeys a control code.  A line feed may run past the last row; the scrolling
that this calls for waits for the next glyph. -/
def control (h : Head) : ControlCode → Head × List Stroke
  | .bell => (h, [])
  | .backspace => (h.moveTo (h.cursor.col - 1) h.cursor.row, [])
  | .tab =>
    let stop := (h.cursor.col / tabWidth + 1) * tabWidth
    (h.moveTo (min stop (h.maxCols - 1)) h.cursor.row, [])
  | .lineFeed => (h.moveTo h.cursor.col (h.cursor.row + 1), [])
  | .formFeed => h.eraseInDisplay .all
  | .carriageReturn => (h.moveTo 0 h.cursor.row, [])

/-- Runs a control sequence.  Final bytes without a meaning here change
nothing. -/
def sequence (h : Head) (s : ControlSequence) : Head × List Stroke :=
  let count := s.param 0 1
  let col := h.cursor.col
  let row := h.cursor.row
  match Char.ofNat s.finalByte.toNat with
  | 'A' => (h.moveTo col (row - count), [])
  | 'B' => (h.moveTo col (min (row + count) (h.maxRows - 1)), [])
  | 'C' => (h.moveTo (min (col + count) (h.maxCols - 1)) row, [])
  | 'D' => (h.moveTo (col - count) row, [])
  | 'H' | 'f' =>
    (h.moveTo (min (s.param 1 1) h.maxCols - 1) (min (s.param 0 1) h.maxRows - 1), [])
  | 'J' =>
    match EraseMode.ofParam? (s.param 0 0) with
    | some mode => h.eraseInDisplay mode
    | none => (h, [])
  | 'K' =>
    match EraseMode.ofParam? (s.param 0 0) with
    | some mode => (h, [.rearrange (.eraseInLine mode col row) h.pen])
    | none => (h, [])
  | 'L' => (h, [.rearrange (.insertLines row count) h.pen])
  | 'M' => (h, [.rearrange (.deleteLines row count) h.pen])
  | 'P' => (h, [.rearrange (.deleteChars col row count) h.pen])
  | 'X' => (h, [.rearrange (.eraseChars col row count) h.pen])
  | 'S' => (h, [.rearrange (.scrollUp count) h.pen])
  | 'T' => (h, [.rearrange (.scrollDown count) h.pen])
  | 'm' => ({ h with pen := h.pen.selectAll (s.paramsOr 0) }, [])
  | 's' => ({ h with cursor := h.cursor.save }, [])
  | 'u' => ({ h with cursor := h.cursor.restore }, [])
  | _ => (h, [])

/-- The effect of an action on the head, and the strokes it leaves. -/
def apply (h : Head) : Action → Head × List Stroke
  | .print codepoint => h.print codepoint
  | .control code => h.control code
  | .sequence s => h.sequence s
  | .endOfText => (h, [])
  | .metadata _ => (h, [])

/-- Two heads wrap and scroll at the same places. -/
def SameLimits (h k : Head) : Prop :=
  h.maxCols = k.maxCols ∧ h.maxRows = k.maxRows

/-- Going on to another row does not move the limits. -/
theorem sameLimits_advance (h : Head) (row : Nat) : (h.advance row).SameLimits h := by
  rw [advance]
  split <;> exact ⟨rfl, rfl⟩

theorem sameLimits_print (h : Head) (codepoint : UInt8) :
    (h.print codepoint).1.SameLimits h := by
  rw [print]
  split <;> exact sameLimits_advance h _

theorem sameLimits_eraseInDisplay (h : Head) (mode : EraseMode) :
    (h.eraseInDisplay mode).1.SameLimits h := by
  cases mode <;> exact ⟨rfl, rfl⟩

theorem sameLimits_control (h : Head) (code : ControlCode) :
    (h.control code).1.SameLimits h := by
  cases code <;> exact ⟨rfl, rfl⟩

/-- Control sequences do not move the limits. -/
theorem sameLimits_sequence (h : Head) (s : ControlSequence) :
    (h.sequence s).1.SameLimits h := by
  rw [sequence]
  split
  case h_7 =>
    split
    · exact sameLimits_eraseInDisplay h _
    · exact ⟨rfl, rfl⟩
  case h_8 => split <;> exact ⟨rfl, rfl⟩
  all_goals exact ⟨rfl, rfl⟩

/-- No action moves the limits. -/
theorem sameLimits_apply (h : Head) (a : Action) : (h.apply a).1.SameLimits h := by
  cases a with
  | print codepoint => exact sameLimits_print h codepoint
  | control code => exact sameLimits_control h code
  | sequence s => exact sameLimits_sequence h s
  | endOfText => exact ⟨rfl, rfl⟩
  | metadata text => exact ⟨rfl, rfl⟩

end Head

end BaudReel
