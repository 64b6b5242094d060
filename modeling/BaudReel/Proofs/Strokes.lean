import BaudReel.Terminal

/-!
# Runs of the head

What a terminal shows depends on its canvas only in the last step: the head
turns the actions of a stream into one list of strokes, and the canvas takes
them in order.  Measuring and rendering are two readings of the same list.

* `canvas_process`, `head_process` — a processed stretch as a run of the head;
* `foldl_draw_gauge`, `foldl_draw_screen` — the two readings;
* `Head.Inbound.after` — the column and the remembered column stay in front of
  the wrap column;
* `Head.Inbound.below_strokes` — nothing is ever printed at or past the limits;
* `Head.Inbound.exists_scrollDown` — only one command scrolls down.
-/

namespace BaudReel

/-- Whether a stroke prints, if it prints at all, in front of the given column
and row. -/
def Stroke.Below (cols rows : Nat) : Stroke → Prop
  | .put col row _ _ => col < cols ∧ row < rows
  | .rearrange _ _ => True

namespace Head

/-- The head behind a run of actions. -/
def after (h : Head) (actions : List Action) : Head :=
  actions.foldl (fun h a => (h.apply a).1) h

/-- All strokes of a run of actions. -/
def strokes (h : Head) : List Action → List Stroke
  | [] => []
  | a :: rest => (h.apply a).2 ++ (h.apply a).1.strokes rest

/-- The strokes of two runs of actions, one behind the other. -/
theorem strokes_append (h : Head) (front rest : List Action) :
    h.strokes (front ++ rest) = h.strokes front ++ (h.after front).strokes rest := by
  induction front generalizing h with
  | nil => rfl
  | cons a front ih =>
    rw [List.cons_append, strokes, ih, strokes, List.append_assoc]
    rfl

/-- No run of actions moves the limits. -/
theorem sameLimits_after (h : Head) (actions : List Action) :
    (h.after actions).SameLimits h := by
  induction actions generalizing h with
  | nil => exact ⟨rfl, rfl⟩
  | cons a actions ih =>
    obtain ⟨hcols, hrows⟩ := ih (h.apply a).1
    obtain ⟨hcols', hrows'⟩ := sameLimits_apply h a
    exact ⟨hcols.trans hcols', hrows.trans hrows'⟩

/-- The cursor's column and the remembered one lie in front of the wrap column.
Of rows nothing is said: a line feed may leave the screen. -/
structure Inbound (h : Head) : Prop where
  col_lt : h.cursor.col < h.maxCols
  savedCol_lt : h.cursor.savedCol < h.maxCols
  rows_pos : 0 < h.maxRows

/-- A new head is within its limits. -/
theorem inbound_fresh (maxCols maxRows : Nat) : (fresh maxCols maxRows).Inbound where
  col_lt := Nat.le_max_right maxCols 1
  savedCol_lt := Nat.le_max_right maxCols 1
  rows_pos := Nat.le_max_right maxRows 1

section Steps

variable {h : Head}

/-- A head stays within its limits where it is moved in front of the wrap column. -/
theorem Inbound.moveTo (hin : h.Inbound) {col : Nat} (hcol : col < h.maxCols) (row : Nat) :
    (h.moveTo col row).Inbound :=
  ⟨hcol, hin.savedCol_lt, hin.rows_pos⟩

/-- A head stays within its limits when it goes on to another row. -/
theorem Inbound.advance (hin : h.Inbound) (row : Nat) : (h.advance row).Inbound := by
  unfold Head.advance
  split
  · exact hin.moveTo (Nat.zero_lt_of_lt hin.col_lt) _
  · exact hin.moveTo (by omega) _

/-- A head stays within its limits when it prints, since it wraps first. -/
theorem Inbound.print (hin : h.Inbound) (codepoint : UInt8) :
    (h.print codepoint).1.Inbound := by
  unfold Head.print
  split <;> exact hin.advance _

theorem Inbound.eraseInDisplay (hin : h.Inbound) (mode : EraseMode) :
    (h.eraseInDisplay mode).1.Inbound := by
  cases mode with
  | all => exact ⟨Nat.zero_lt_of_lt hin.col_lt, hin.savedCol_lt, hin.rows_pos⟩
  | toEnd => exact hin
  | toStart => exact hin

theorem Inbound.control (hin : h.Inbound) (code : ControlCode) :
    (h.control code).1.Inbound := by
  have hcol := hin.col_lt
  cases code with
  | bell => exact hin
  | backspace => exact hin.moveTo (by omega) _
  | tab => exact hin.moveTo (by omega) _
  | lineFeed => exact hin.moveTo hcol _
  | formFeed => exact hin.eraseInDisplay .all
  | carriageReturn => exact hin.moveTo (by omega) _

theorem Inbound.sequence (hin : h.Inbound) (s : ControlSequence) :
    (h.sequence s).1.Inbound := by
  have hcol := hin.col_lt
  unfold Head.sequence
  split
  -- `A` and `B` keep the column, `C`, `D`, `H` and `f` cut it to the columns there are
  case h_1 => exact hin.moveTo hcol _
  case h_2 => exact hin.moveTo hcol _
  case h_3 => exact hin.moveTo (by omega) _
  case h_4 => exact hin.moveTo (by omega) _
  case h_5 => exact hin.moveTo (by omega) _
  case h_6 => exact hin.moveTo (by omega) _
  -- `J` and `K` erase, if their mode is known
  case h_7 =>
    split
    · exact hin.eraseInDisplay _
    · exact hin
  case h_8 => split <;> exact hin
  -- `s` and `u` exchange the column with the remembered one
  case h_16 => exact ⟨hcol, hcol, hin.rows_pos⟩
  case h_17 => exact ⟨hin.savedCol_lt, hin.savedCol_lt, hin.rows_pos⟩
  all_goals exact ⟨hcol, hin.savedCol_lt, hin.rows_pos⟩

/-- **One action.**  A head stays within its limits. -/
theorem Inbound.apply (hin : h.Inbound) (a : Action) : (h.apply a).1.Inbound := by
  cases a with
  | print codepoint => exact hin.print codepoint
  | control code => exact hin.control code
  | sequence s => exact hin.sequence s
  | endOfText => exact hin
  | metadata text => exact hin

/-- **A run of actions.**  A head stays within its limits. -/
theorem Inbound.after (hin : h.Inbound) (actions : List Action) : (h.after actions).Inbound := by
  induction actions generalizing h with
  | nil => exact hin
  | cons a actions ih => exact ih (hin.apply a)

theorem toNat_letter (byte : UInt8) : (Char.ofNat byte.toNat).toNat = byte.toNat := by
  have hbyte := byte.toNat_lt
  have hvalid : byte.toNat.isValidChar := Or.inl (by omega)
  rw [Char.ofNat, dif_pos hvalid]
  rfl

/-- What an action may leave beside a printed glyph: nothing, or one
rearrangement in the colours of the pen.  Only the command `T` asks for rows to
move down. -/
def Rearranges (h : Head) (a : Action) : Prop :=
  (h.apply a).2 = [] ∨ ∃ r, (h.apply a).2 = [.rearrange r h.pen] ∧
    ∀ count, r = .scrollDown count → ∃ s, a = .sequence s ∧ s.finalByte = 0x54

/-- Erasing in the display is one stroke, from where the cursor is. -/
theorem strokes_eraseInDisplay (h : Head) (mode : EraseMode) :
    (h.eraseInDisplay mode).2 =
      [.rearrange (.eraseInDisplay mode h.cursor.col h.cursor.row) h.pen] := by
  cases mode <;> rfl

/-- The strokes of control codes rearrange where the cursor is, with the pen of the head. -/
theorem rearranges_control (h : Head) (code : ControlCode) : h.Rearranges (.control code) := by
  cases code with
  | formFeed => exact .inr ⟨_, h.strokes_eraseInDisplay .all, by intro _ hr; cases hr⟩
  | _ => exact .inl rfl

theorem rearranges_sequence (h : Head) (s : ControlSequence) : h.Rearranges (.sequence s) := by
  rw [Rearranges, apply, sequence]
  split
  case h_7 =>
    split
    · exact .inr ⟨_, h.strokes_eraseInDisplay _, by intro _ hr; cases hr⟩
    · exact .inl rfl
  case h_8 =>
    split
    · exact .inr ⟨_, rfl, by intro _ hr; cases hr⟩
    · exact .inl rfl
  -- `T`, told from the other letters by its number
  case h_14 hletter =>
    refine .inr ⟨_, rfl, fun _ _ => ⟨s, rfl, UInt8.toNat.inj ?_⟩⟩
    rw [← toNat_letter, hletter]
    rfl
  -- `L`, `M`, `P`, `X` and `S` rearrange in other ways
  case h_9 => exact .inr ⟨_, rfl, by intro _ hr; cases hr⟩
  case h_10 => exact .inr ⟨_, rfl, by intro _ hr; cases hr⟩
  case h_11 => exact .inr ⟨_, rfl, by intro _ hr; cases hr⟩
  case h_12 => exact .inr ⟨_, rfl, by intro _ hr; cases hr⟩
  case h_13 => exact .inr ⟨_, rfl, by intro _ hr; cases hr⟩
  all_goals exact .inl rfl

/-- Every action other than printing rearranges at most once. -/
theorem rearranges_apply (h : Head) {a : Action} (ha : ∀ codepoint, a ≠ .print codepoint) :
    h.Rearranges a := by
  cases a with
  | print codepoint => exact absurd rfl (ha codepoint)
  | control code => exact h.rearranges_control code
  | sequence s => exact h.rearranges_sequence s
  | endOfText => exact .inl rfl
  | metadata text => exact .inl rfl

/-- Where a glyph goes: a cursor past the last row prints in the last one. -/
def printRow (h : Head) : Nat :=
  min h.cursor.row (h.maxRows - 1)

/-- The strokes of a printed glyph end with its cell; before that, a cursor
past the last row scrolls up. -/
theorem strokes_print (h : Head) (hrows : 0 < h.maxRows) (codepoint : UInt8) :
    ∃ scroll, (h.print codepoint).2 =
        scroll ++ [.put h.cursor.col h.printRow codepoint h.pen] ∧
      (scroll = [] ∨ ∃ count, scroll = [.rearrange (.scrollUp count) h.pen]) := by
  rw [print, printRow]
  split
  case isTrue hpast =>
    have hrow : min h.cursor.row (h.maxRows - 1) = h.maxRows - 1 := by omega
    rw [hrow]
    exact ⟨_, rfl, .inr ⟨_, rfl⟩⟩
  case isFalse hon =>
    have hrow : min h.cursor.row (h.maxRows - 1) = h.cursor.row := by omega
    rw [hrow]
    exact ⟨[], rfl, .inl rfl⟩

/-- **The strokes of an action.**  Each is the cell of a printed glyph, or a
rearrangement in the colours of the pen. -/
theorem Inbound.mem_apply (hin : h.Inbound) {a : Action} {stroke : Stroke}
    (hstroke : stroke ∈ (h.apply a).2) :
    (∃ codepoint, a = .print codepoint ∧
      stroke = .put h.cursor.col h.printRow codepoint h.pen) ∨
    ∃ r, stroke = .rearrange r h.pen ∧
      ∀ count, r = .scrollDown count → ∃ s, a = .sequence s ∧ s.finalByte = 0x54 := by
  by_cases ha : ∃ codepoint, a = .print codepoint
  · obtain ⟨codepoint, rfl⟩ := ha
    obtain ⟨scroll, hprint, hscroll⟩ := h.strokes_print hin.rows_pos codepoint
    rw [Head.apply, hprint, List.mem_append, List.mem_singleton] at hstroke
    rcases hstroke with hfirst | hlast
    · rcases hscroll with rfl | ⟨count, rfl⟩
      · exact absurd hfirst List.not_mem_nil
      · exact .inr ⟨_, List.mem_singleton.1 hfirst, by intro _ hr; cases hr⟩
    · exact .inl ⟨codepoint, rfl, hlast⟩
  · right
    rcases h.rearranges_apply fun codepoint hc => ha ⟨codepoint, hc⟩ with hnone | ⟨r, hone, hdown⟩
    · rw [hnone] at hstroke
      exact absurd hstroke List.not_mem_nil
    · rw [hone, List.mem_singleton] at hstroke
      exact ⟨r, hstroke, hdown⟩

/-- A stroke of a run of actions comes from one of them, behind those in front of it. -/
theorem mem_strokes {actions : List Action} {stroke : Stroke}
    (hstroke : stroke ∈ h.strokes actions) :
    ∃ before a later, actions = before ++ a :: later ∧
      stroke ∈ ((h.after before).apply a).2 := by
  induction actions generalizing h with
  | nil => exact absurd hstroke List.not_mem_nil
  | cons a actions ih =>
    rcases List.mem_append.1 hstroke with hhere | hlater
    · exact ⟨[], a, actions, rfl, hhere⟩
    · obtain ⟨before, b, later, rfl, hmem⟩ := ih hlater
      exact ⟨a :: before, b, later, rfl, hmem⟩

/-- A run prints nothing at or past the limits. -/
theorem Inbound.below_strokes (hin : h.Inbound) {actions : List Action} {stroke : Stroke}
    (hstroke : stroke ∈ h.strokes actions) : stroke.Below h.maxCols h.maxRows := by
  obtain ⟨before, a, later, rfl, hmem⟩ := mem_strokes hstroke
  have hat := hin.after before
  obtain ⟨hcols, hrows⟩ := h.sameLimits_after before
  rcases hat.mem_apply hmem with ⟨codepoint, rfl, rfl⟩ | ⟨r, rfl, _⟩
  · have hrow : (h.after before).printRow < (h.after before).maxRows :=
      Nat.lt_of_le_of_lt (Nat.min_le_right _ _) (Nat.sub_lt hat.rows_pos Nat.one_pos)
    rw [← hcols, ← hrows]
    exact ⟨hat.col_lt, hrow⟩
  · trivial

/-- Where a run scrolls down, the command `T` is among its actions. -/
theorem Inbound.exists_scrollDown (hin : h.Inbound) {actions : List Action} {count : Nat}
    {pen : Pen} (hstroke : .rearrange (.scrollDown count) pen ∈ h.strokes actions) :
    ∃ s, .sequence s ∈ actions ∧ s.finalByte = 0x54 := by
  obtain ⟨before, a, later, rfl, hmem⟩ := mem_strokes hstroke
  rcases (hin.after before).mem_apply hmem with ⟨_, _, hput⟩ | ⟨r, hr, hdown⟩
  · exact absurd hput Stroke.noConfusion
  · obtain ⟨s, rfl, hs⟩ := hdown count (Stroke.rearrange.inj hr).1.symm
    exact ⟨s, by simp, hs⟩

end Steps

end Head

namespace Terminal

/-- The head of a terminal follows the actions as it would alone. -/
theorem head_foldl_apply (t : Terminal) (actions : List Action) :
    (actions.foldl apply t).head = t.head.after actions := by
  induction actions generalizing t with
  | nil => rfl
  | cons a actions ih => exact ih (t.apply a)

/-- The canvas takes all strokes of a run in order. -/
theorem canvas_foldl_apply (t : Terminal) (actions : List Action) :
    (actions.foldl apply t).canvas = (t.head.strokes actions).foldl Canvas.draw t.canvas := by
  induction actions generalizing t with
  | nil => rfl
  | cons a actions ih =>
    rw [List.foldl_cons, ih, Head.strokes, List.foldl_append]
    rfl

/-- The text has ended if it had before or one of the actions ends it. -/
theorem endOfText_foldl_apply (t : Terminal) (actions : List Action) :
    (actions.foldl apply t).endOfText = (t.endOfText || actions.any endsText) := by
  induction actions generalizing t with
  | nil => rw [List.any_nil, Bool.or_false]; rfl
  | cons a actions ih =>
    rw [List.foldl_cons, ih, List.any_cons, ← Bool.or_assoc]
    rfl

/-- The reader of a terminal follows the bytes as it would alone. -/
theorem parser_process (t : Terminal) (bytes : List UInt8) :
    (t.process bytes).parser = (t.parser.parse bytes).1 := by
  rw [process_eq]

/-- The head of a terminal follows the actions that are read. -/
theorem head_process (t : Terminal) (bytes : List UInt8) :
    (t.process bytes).head = t.head.after (t.parser.parse bytes).2 := by
  rw [process_eq]
  exact t.head_foldl_apply _

/-- The canvas of a terminal follows the strokes of the actions that are read. -/
theorem canvas_process (t : Terminal) (bytes : List UInt8) :
    (t.process bytes).canvas =
      (t.head.strokes (t.parser.parse bytes).2).foldl Canvas.draw t.canvas := by
  rw [process_eq]
  exact t.canvas_foldl_apply _

/-- The text has ended behind bytes if it had before or they end it. -/
theorem endOfText_process (t : Terminal) (bytes : List UInt8) :
    (t.process bytes).endOfText = (t.endOfText || (t.parser.parse bytes).2.any endsText) := by
  rw [process_eq]
  exact t.endOfText_foldl_apply _

/-- The end of the stream draws nothing: at most a descriptive string is
still to come. -/
theorem canvas_finish (t : Terminal) : t.finish.canvas = t.canvas := by
  obtain ⟨parser, head, canvas, endOfText, metadata, bells⟩ := t
  cases parser with
  | trailer begun =>
    by_cases hempty : begun.isEmpty
    · simp [finish, Parser.finish, Parser.string?, hempty]
    · simp [finish, Parser.finish, Parser.string?, hempty, apply, Head.apply]
  | _ => rfl

end Terminal

/-- What a stroke does to the furthest column and row that were printed at. -/
def Stroke.reach (far : Nat × Nat) : Stroke → Nat × Nat
  | .put col row _ _ => (max far.1 col, max far.2 row)
  | .rearrange (.insertLines row count) _ =>
    (far.1, if row ≤ far.2 then far.2 + count else far.2)
  | .rearrange _ _ => far

/-- What a stroke does to a grid. -/
def Stroke.drawOn (transparency : Bool) (g : Grid) : Stroke → Grid
  | .put col row codepoint pen => g.set col row (pen.stamp codepoint transparency)
  | .rearrange r pen => g.rearrange r (pen.blank transparency)

namespace Canvas

/-- On a gauge strokes leave their reach. -/
theorem foldl_draw_gauge (strokes : List Stroke) (far : Nat × Nat) :
    strokes.foldl draw (.gauge far.1 far.2) =
      .gauge (strokes.foldl Stroke.reach far).1 (strokes.foldl Stroke.reach far).2 := by
  induction strokes generalizing far with
  | nil => rfl
  | cons stroke strokes ih =>
    have hdraw : draw (.gauge far.1 far.2) stroke =
        .gauge (stroke.reach far).1 (stroke.reach far).2 := by
      cases stroke with
      | put col row codepoint pen => rfl
      | rearrange r pen => cases r <;> rfl
    rw [List.foldl_cons, hdraw, ih, List.foldl_cons]

/-- On a screen strokes are drawn on the grid. -/
theorem foldl_draw_screen (strokes : List Stroke) (g : Grid) (transparency : Bool) :
    strokes.foldl draw (.screen g transparency) =
      .screen (strokes.foldl (Stroke.drawOn transparency) g) transparency := by
  induction strokes generalizing g with
  | nil => rfl
  | cons stroke strokes ih =>
    have hdraw : draw (.screen g transparency) stroke =
        .screen (stroke.drawOn transparency g) transparency := by
      cases stroke <;> rfl
    rw [List.foldl_cons, hdraw, ih, List.foldl_cons]

end Canvas

namespace Terminal

variable (cols rows maxCols maxRows : Nat) (transparency : Bool)

/-- The screen behind actions is a new grid with their strokes. -/
theorem grid?_foldl_apply_rendering (actions : List Action) :
    (actions.foldl apply (rendering cols rows maxCols maxRows transparency)).grid? =
      some (((Head.fresh maxCols maxRows).strokes actions).foldl (Stroke.drawOn transparency)
        (.fresh cols rows)) := by
  rw [grid?, canvas_foldl_apply]
  exact congrArg Canvas.grid? (Canvas.foldl_draw_screen _ _ _)

/-- The screen that a stretch of a stream draws on a fresh grid. -/
theorem grid?_process_rendering (bytes : List UInt8) :
    ((rendering cols rows maxCols maxRows transparency).process bytes).grid? =
      some (((Head.fresh maxCols maxRows).strokes (Parser.initial.parse bytes).2).foldl
        (Stroke.drawOn transparency) (.fresh cols rows)) := by
  rw [process_eq]
  exact grid?_foldl_apply_rendering cols rows maxCols maxRows transparency _

end Terminal

end BaudReel
