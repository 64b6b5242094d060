import BaudReel.Proofs.Strokes

/-!
# Where the cursor goes

The commands that move the cursor by steps keep to one of its coordinates, and in the
other they go one way, as many steps as they are told or to the edge (`GoesBack`,
`GoesOn`).  For columns this rests on an invariant: behind every run of actions the
column lies in front of the wrap column (`Head.Inbound`), so that cutting a column to
the last one never takes it back.

Nothing of the kind holds of rows.  Line feeds and wraps leave the cursor below the last
row until the next glyph is printed, and a position remembered there comes back.  The
command `B` stops at the last row wherever it starts, so from below it brings the cursor
up, and this is the one motion against its direction (`Terminal.Steers.down_of_past`).
The main statement is `cursor_goes_as_told`.
-/

namespace BaudReel

/-- A command that moves the cursor from where it is. -/
inductive Motion where
  | up
  | down
  | right
  | left
  | tab
  | backspace
deriving DecidableEq, Inhabited

namespace Motion

/-- The action of a motion.  Those by steps are control sequences, which carry numbers;
the first one counts the steps. -/
def action (params : List (Option Nat)) : Motion → Action
  | up => .sequence ⟨0x41, params⟩
  | down => .sequence ⟨0x42, params⟩
  | right => .sequence ⟨0x43, params⟩
  | left => .sequence ⟨0x44, params⟩
  | tab => .control .tab
  | backspace => .control .backspace

/-- The number of steps that a motion is told to go: its first number, or one. -/
def steps (params : List (Option Nat)) : Nat :=
  (params[0]?.getD none).getD 1

/-- Whether a motion changes the row; the others change the column. -/
def isVertical : Motion → Bool
  | up => true
  | down => true
  | _ => false

end Motion

/-- The cursor behind a motion. -/
def Terminal.moved (t : Terminal) (m : Motion) (params : List (Option Nat)) : Cursor :=
  (t.apply (m.action params)).head.cursor

/-- A coordinate goes back by a count of steps, or to the start if that is nearer. -/
def GoesBack (count old new : Nat) : Prop :=
  new ≤ old ∧ (new + count = old ∨ new = 0 ∧ old ≤ count)

/-- A coordinate goes on by a count of steps, or to the last place in front of a limit if
that is nearer, and stays in front of the limit. -/
def GoesOn (count limit old new : Nat) : Prop :=
  (old ≤ new ∧ new < limit) ∧ (new = old + count ∨ new + 1 = limit ∧ limit ≤ old + count)

/-- Subtracting steps goes back. -/
theorem goesBack_sub (old count : Nat) : GoesBack count old (old - count) := by
  rw [GoesBack]
  omega

/-- Adding steps and cutting to the last place goes on. -/
theorem goesOn_min {old limit : Nat} (count : Nat) (h : old < limit) :
    GoesOn count limit old (min (old + count) (limit - 1)) := by
  rw [GoesOn]
  omega

/-- The cursor goes as it is told, on a screen that wraps and scrolls at the given column
and row. -/
structure Terminal.Steers (t : Terminal) (cols rows : Nat) : Prop where
  /-- The cursor is in front of the wrap column and stays there. -/
  col_lt : t.head.cursor.col < cols
  moved_col_lt : ∀ m params, (t.moved m params).col < cols
  /-- The other coordinate stays. -/
  col_eq : ∀ m params, m.isVertical = true → (t.moved m params).col = t.head.cursor.col
  row_eq : ∀ m params, m.isVertical = false → (t.moved m params).row = t.head.cursor.row
  up : ∀ params, GoesBack (Motion.steps params) t.head.cursor.row (t.moved .up params).row
  left : ∀ params, GoesBack (Motion.steps params) t.head.cursor.col (t.moved .left params).col
  backspace : ∀ params, GoesBack 1 t.head.cursor.col (t.moved .backspace params).col
  right : ∀ params,
    GoesOn (Motion.steps params) cols t.head.cursor.col (t.moved .right params).col
  /-- Down to the last row at most, and from below it up to it. -/
  down : ∀ params, t.head.cursor.row < rows →
    GoesOn (Motion.steps params) rows t.head.cursor.row (t.moved .down params).row
  down_of_past : ∀ params, rows ≤ t.head.cursor.row → (t.moved .down params).row + 1 = rows
  /-- A tab goes on, to a tab stop or to the last column, and skips no stop. -/
  tab : ∀ params, t.head.cursor.col + 1 < cols →
    t.head.cursor.col < (t.moved .tab params).col
  tab_of_last : ∀ params, t.head.cursor.col + 1 = cols →
    (t.moved .tab params).col = t.head.cursor.col
  tab_stop : ∀ params, Head.tabWidth ∣ (t.moved .tab params).col ∨
    (t.moved .tab params).col + 1 = cols
  tab_first : ∀ params stop, Head.tabWidth ∣ stop → t.head.cursor.col < stop →
    (t.moved .tab params).col ≤ stop

namespace Head

/-- The tab stop behind a column. -/
def nextStop (col : Nat) : Nat :=
  (col / tabWidth + 1) * tabWidth

/-- The next stop is further on. -/
theorem lt_nextStop (col : Nat) : col < nextStop col := by
  rw [nextStop, tabWidth]
  omega

theorem dvd_nextStop (col : Nat) : tabWidth ∣ nextStop col :=
  Nat.dvd_mul_left _ _

/-- No stop lies between a column and the next stop. -/
theorem nextStop_le {col stop : Nat} (hstop : tabWidth ∣ stop) (hlt : col < stop) :
    nextStop col ≤ stop := by
  obtain ⟨k, rfl⟩ := hstop
  have hk : col / tabWidth < k := Nat.div_lt_of_lt_mul hlt
  rw [nextStop, Nat.mul_comm tabWidth k]
  exact Nat.mul_le_mul_right tabWidth hk

end Head

namespace Terminal

variable {t : Terminal}

/-- Where a motion leads. -/
theorem moved_eq (t : Terminal) (m : Motion) (params : List (Option Nat)) :
    t.moved m params =
      let count := Motion.steps params
      let cursor := t.head.cursor
      match m with
      | .up => { cursor with row := cursor.row - count }
      | .down => { cursor with row := min (cursor.row + count) (t.head.maxRows - 1) }
      | .right => { cursor with col := min (cursor.col + count) (t.head.maxCols - 1) }
      | .left => { cursor with col := cursor.col - count }
      | .tab => { cursor with col := min (Head.nextStop cursor.col) (t.head.maxCols - 1) }
      | .backspace => { cursor with col := cursor.col - 1 } := by
  cases m <;> rfl

/-- **One motion.**  A cursor in front of the wrap column goes as it is told. -/
theorem steers_of_inbound (hin : t.head.Inbound) : t.Steers t.head.maxCols t.head.maxRows := by
  have hcol := hin.col_lt
  have hrows := hin.rows_pos
  have hstop := Head.lt_nextStop t.head.cursor.col
  constructor
  case col_lt => exact hcol
  case moved_col_lt =>
    intro m params
    rw [moved_eq]
    cases m <;> simp only <;> omega
  case col_eq =>
    intro m params hvertical
    rw [moved_eq]
    cases m <;> first | rfl | exact absurd hvertical Bool.false_ne_true
  case row_eq =>
    intro m params hvertical
    rw [moved_eq]
    cases m <;> first | rfl | exact absurd hvertical.symm Bool.false_ne_true
  case up =>
    intro params
    rw [moved_eq]
    exact goesBack_sub _ _
  case left =>
    intro params
    rw [moved_eq]
    exact goesBack_sub _ _
  case backspace =>
    intro params
    rw [moved_eq]
    exact goesBack_sub _ _
  case right =>
    intro params
    rw [moved_eq]
    exact goesOn_min _ hcol
  case down =>
    intro params hon
    rw [moved_eq]
    exact goesOn_min _ hon
  case down_of_past =>
    intro params hpast
    rw [moved_eq]
    simp only
    omega
  case tab =>
    intro params hmore
    rw [moved_eq]
    simp only
    omega
  case tab_of_last =>
    intro params hlast
    rw [moved_eq]
    simp only
    omega
  case tab_stop =>
    intro params
    rw [moved_eq]
    rcases Nat.le_total (Head.nextStop t.head.cursor.col) (t.head.maxCols - 1) with hle | hle
    · simp only [Nat.min_eq_left hle]
      exact .inl (Head.dvd_nextStop _)
    · simp only [Nat.min_eq_right hle]
      exact .inr (by omega)
  case tab_first =>
    intro params stop hdvd hlt
    rw [moved_eq]
    exact Nat.le_trans (Nat.min_le_left _ _) (Head.nextStop_le hdvd hlt)

/-- **Every motion of a run.**  Whatever a terminal draws on, its cursor goes as it is
told behind every stretch of a stream. -/
theorem steers_process (maxCols maxRows : Nat) (canvas : Canvas) (bytes : List UInt8) :
    (process { head := .fresh maxCols maxRows, canvas } bytes).Steers
      (max maxCols 1) (max maxRows 1) := by
  obtain ⟨hcols, hrows⟩ := (Head.fresh maxCols maxRows).sameLimits_after
    (Parser.initial.parse bytes).2
  have hin := (Head.inbound_fresh maxCols maxRows).after (Parser.initial.parse bytes).2
  have hhead := head_process { head := .fresh maxCols maxRows, canvas } bytes
  rw [← hhead] at hcols hrows hin
  have hsteers := steers_of_inbound hin
  rwa [hcols, hrows] at hsteers

end Terminal

/-- **The cursor goes as it is told.**  In both passes, behind every stretch of a stream
and for all limits, the commands that move the cursor keep to their coordinate and their
direction and go as far as they are told or to the edge, with one exception: the command
`B` brings a cursor from below the last row up to it.  A limit of zero counts as one. -/
theorem cursor_goes_as_told (maxCols maxRows : Nat) (bytes : List UInt8) :
    ((Terminal.measuring maxCols maxRows).process bytes).Steers
        (max maxCols 1) (max maxRows 1) ∧
      ∀ cols rows transparency,
        ((Terminal.rendering cols rows maxCols maxRows transparency).process bytes).Steers
          (max maxCols 1) (max maxRows 1) :=
  ⟨Terminal.steers_process maxCols maxRows _ bytes,
    fun _ _ _ => Terminal.steers_process maxCols maxRows _ bytes⟩

/-- **Down may be up.**  Three line feeds lead below the two rows of a screen; one step
down from there ends in the last row, two rows further up. -/
theorem down_goes_up :
    let t := (Terminal.measuring 3 2).process [0x0A, 0x0A, 0x0A]
    t.head.cursor.row = 3 ∧ (t.moved .down []).row = 1 ∧
      ¬t.head.cursor.row ≤ (t.moved .down []).row ∧
      (t.process [0x1B, 0x5B, 0x42]).head.cursor.row = 1 := by
  decide +kernel

end BaudReel
