import BaudReel.Proofs.Sizing

/-!
# A scrolling screen is a window

Text that only runs on, without moving the cursor up or rearranging the screen,
scrolls a screen as soon as it is too long for it.  Nothing is lost, doubled or
exchanged by that within the screen: what is shown is the bottom of what a screen
shows that is tall enough never to scroll.

Line feeds scroll late, and a glyph that comes behind several of them scrolls by
several rows at once.  What carries the proof is therefore not the number of line
feeds but the lowest row printed at: the window ends there, and below it the tall
screen is blank (`Window`).  `Window.apply` is the step for one action, and
`scrolling_is_a_window` puts the steps together.
-/

namespace BaudReel

/-- Whether an action only lets text run on: a glyph, a bell, a step back, a tab,
the end of a line or a change of colours. -/
def Action.RunsOn : Action → Prop
  | .print _ => True
  | .control code => code ≠ .formFeed
  | .sequence s => s.finalByte = 0x6D
  | .endOfText => False
  | .metadata _ => False

instance : DecidablePred Action.RunsOn
  | .print _ => isTrue trivial
  | .control code => inferInstanceAs (Decidable (code ≠ .formFeed))
  | .sequence s => inferInstanceAs (Decidable (s.finalByte = 0x6D))
  | .endOfText => isFalse id
  | .metadata _ => isFalse id

/-- The lowest row printed at, given the lowest one before a stroke. -/
def Stroke.lowest (before : Option Nat) : Stroke → Option Nat
  | .put _ row _ _ => some (before.elim row (max row))
  | .rearrange _ _ => before

/-- The lowest row that a run of actions prints at. -/
def Head.lowestRow? (h : Head) (actions : List Action) : Option Nat :=
  (h.strokes actions).foldl Stroke.lowest none

/-- How many rows lie above a window of `height` rows that ends with the lowest row
printed at. -/
def rowsAbove (height : Nat) (lowest : Option Nat) : Nat :=
  lowest.elim 0 fun row => row + 1 - height

/-- Two cells show the same: the same code point and, where there is one, the same
colours. -/
def Cell.ShowsSame (c d : Cell) : Prop :=
  c.codepoint = d.codepoint ∧ (c.codepoint ≠ 0 → c = d)

theorem Cell.showsSame_refl (c : Cell) : c.ShowsSame c :=
  ⟨rfl, fun _ => rfl⟩

theorem Cell.showsSame_of_zero {c d : Cell} (hc : c.codepoint = 0) (hd : d.codepoint = 0) :
    c.ShowsSame d :=
  ⟨hc.trans hd.symm, fun h => absurd hc h⟩

namespace Head

/-- Two heads draw alike, except that they may stand in different rows. -/
structure Abreast (h k : Head) : Prop where
  maxCols : h.maxCols = k.maxCols
  pen : h.pen = k.pen
  col : h.cursor.col = k.cursor.col

section Abreast

variable {h k : Head}

/-- Stepping over a glyph takes both heads to the same column, and as many rows
down. -/
theorem Abreast.advance (habreast : h.Abreast k) (row row' : Nat) :
    (h.advance row).Abreast (k.advance row') ∧ ∃ down ≤ 1,
      (h.advance row).cursor.row = row + down ∧ (k.advance row').cursor.row = row' + down := by
  obtain ⟨hcols, hpen, hcol⟩ := habreast
  unfold Head.advance
  rw [hcols, hcol]
  split
  · exact ⟨⟨hcols, hpen, rfl⟩, 1, Nat.le_refl 1, rfl, rfl⟩
  · exact ⟨⟨hcols, hpen, rfl⟩, 0, Nat.zero_le 1, rfl, rfl⟩

/-- Where nothing is printed, text that runs on leaves no strokes, and takes both
heads as many rows down. -/
theorem Abreast.apply (habreast : h.Abreast k) {a : Action} (ha : a.RunsOn)
    (hprint : ∀ codepoint, a ≠ .print codepoint) :
    ((h.apply a).2 = [] ∧ (k.apply a).2 = []) ∧ (h.apply a).1.Abreast (k.apply a).1 ∧
      ∃ down ≤ 1, (h.apply a).1.cursor.row = h.cursor.row + down ∧
        (k.apply a).1.cursor.row = k.cursor.row + down := by
  obtain ⟨hcols, hpen, hcol⟩ := habreast
  cases a with
  | print codepoint => exact absurd rfl (hprint codepoint)
  | control code =>
    cases code with
    | bell => exact ⟨⟨rfl, rfl⟩, ⟨hcols, hpen, hcol⟩, 0, Nat.zero_le 1, rfl, rfl⟩
    | backspace =>
      have hback : h.cursor.col - 1 = k.cursor.col - 1 := by rw [hcol]
      exact ⟨⟨rfl, rfl⟩, ⟨hcols, hpen, hback⟩, 0, Nat.zero_le 1, rfl, rfl⟩
    | tab =>
      have hstop : min ((h.cursor.col / tabWidth + 1) * tabWidth) (h.maxCols - 1) =
          min ((k.cursor.col / tabWidth + 1) * tabWidth) (k.maxCols - 1) := by
        rw [hcols, hcol]
      exact ⟨⟨rfl, rfl⟩, ⟨hcols, hpen, hstop⟩, 0, Nat.zero_le 1, rfl, rfl⟩
    | lineFeed => exact ⟨⟨rfl, rfl⟩, ⟨hcols, hpen, hcol⟩, 1, Nat.le_refl 1, rfl, rfl⟩
    | formFeed => exact absurd rfl ha
    | carriageReturn => exact ⟨⟨rfl, rfl⟩, ⟨hcols, hpen, rfl⟩, 0, Nat.zero_le 1, rfl, rfl⟩
  | sequence s =>
    have hselect : ∀ l : Head, l.apply (.sequence s) =
        ({ l with pen := l.pen.selectAll (s.paramsOr 0) }, []) := by
      intro l
      have hfinal : s.finalByte = 0x6D := ha
      have hletter : Char.ofNat s.finalByte.toNat = 'm' := by rw [hfinal]; rfl
      rw [Head.apply, Head.sequence, hletter]
      rfl
    have hpens : h.pen.selectAll (s.paramsOr 0) = k.pen.selectAll (s.paramsOr 0) := by rw [hpen]
    rw [hselect, hselect]
    exact ⟨⟨rfl, rfl⟩, ⟨hcols, hpens, hcol⟩, 0, Nat.zero_le 1, rfl, rfl⟩
  | endOfText => exact absurd ha id
  | metadata text => exact absurd ha id

end Abreast

end Head

/-- A small screen is a window on a tall one that never scrolls: its heads stand in
the same place of the text, and it shows the rows down to the lowest one printed at.
Below that row the tall screen is blank. -/
structure Window (hs ht : Head) (small tall : Grid) (lowest : Option Nat) : Prop where
  small_full : small.Full
  tall_full : tall.Full
  small_size : small.cols = hs.maxCols ∧ small.rows = hs.maxRows
  tall_size : tall.cols = ht.maxCols ∧ tall.rows = ht.maxRows
  rows_pos : 0 < hs.maxRows
  abreast : hs.Abreast ht
  row_eq : hs.cursor.row + rowsAbove hs.maxRows lowest = ht.cursor.row
  lowest_le : ∀ row ∈ lowest, row ≤ ht.cursor.row
  blank_below : ∀ x y, (∀ row ∈ lowest, row < y) → tall.codeAt x y = 0
  same : ∀ x y, small.Inside x y → ∃ c d, small.get? x y = some c ∧
    tall.get? x (y + rowsAbove hs.maxRows lowest) = some d ∧ c.ShowsSame d

namespace Window

variable {hs ht : Head} {small tall : Grid} {lowest : Option Nat}

/-- The window ends with the lowest row printed at, or has not moved yet. -/
theorem lowest_lt (h : Window hs ht small tall lowest) :
    ∀ row ∈ lowest, row < rowsAbove hs.maxRows lowest + hs.maxRows := by
  intro row hrow
  have hpos := h.rows_pos
  have habove : rowsAbove hs.maxRows lowest = row + 1 - hs.maxRows := by
    rw [Option.mem_def.1 hrow]
    rfl
  omega

/-- Where a print goes on the small screen, seen from the window that ends with its
row. -/
theorem printRow_eq (h : Window hs ht small tall lowest) :
    hs.printRow + rowsAbove hs.maxRows (some ht.cursor.row) = ht.cursor.row ∧
      rowsAbove hs.maxRows (some ht.cursor.row) =
        rowsAbove hs.maxRows lowest + (hs.cursor.row + 1 - hs.maxRows) := by
  have hpos := h.rows_pos
  have hrow := h.row_eq
  have hnew : rowsAbove hs.maxRows (some ht.cursor.row) = ht.cursor.row + 1 - hs.maxRows := rfl
  rw [Head.printRow, hnew]
  cases lowest with
  | none =>
    have habove : rowsAbove hs.maxRows none = 0 := rfl
    omega
  | some row =>
    have hle := h.lowest_le row rfl
    have habove : rowsAbove hs.maxRows (some row) = row + 1 - hs.maxRows := rfl
    omega

/-- **Scrolling moves the window.**  Rows that come into it from below show nothing
on the tall screen either. -/
theorem same_scrolled (h : Window hs ht small tall lowest) {blank : Cell}
    (hblank : blank.codepoint = 0) {count : Nat}
    (htall : ∀ x y, small.Inside x y →
      tall.Inside x (y + (rowsAbove hs.maxRows lowest + count)))
    {x y : Nat} (hxy : small.Inside x y) :
    ∃ c d, (small.rearrange (.scrollUp count) blank).get? x y = some c ∧
      tall.get? x (y + (rowsAbove hs.maxRows lowest + count)) = some d ∧ c.ShowsSame d := by
  have horigin : (Rearrangement.scrollUp count).origin x y = some (x, y + count) := rfl
  have hplace : y + (rowsAbove hs.maxRows lowest + count) =
      y + count + rowsAbove hs.maxRows lowest := by omega
  rw [Grid.get?_rearrange h.small_full _ _ hxy]
  by_cases hmoved : y + count < small.rows
  · have hin : small.Inside x (y + count) := ⟨hxy.1, hmoved⟩
    obtain ⟨c, d, hc, hd, hsame⟩ := h.same x (y + count) hin
    refine ⟨c, d, ?_, hplace ▸ hd, hsame⟩
    rw [Grid.cellBehind_of_inside h.small_full horigin hin, ← Grid.get?_of_inside hin, hc]
  · have hout : ¬small.Inside x (y + count) := fun hin => hmoved hin.2
    obtain ⟨d, hd⟩ := Grid.exists_get? h.tall_full (htall x y hxy)
    have hbelow : ∀ row ∈ lowest, row < y + (rowsAbove hs.maxRows lowest + count) := by
      intro row hrow
      have hlt := h.lowest_lt row hrow
      have hrows := h.small_size.2
      omega
    have hzero : d.codepoint = 0 := by
      rw [← Grid.codeAt_of_get? hd]
      exact h.blank_below x _ hbelow
    refine ⟨blank, d, ?_, hd, Cell.showsSame_of_zero hblank hzero⟩
    rw [Grid.cellBehind_of_outside horigin hout]

/-- Screens that show the same, one of them so many rows further down, still do when a
cell is written at the same place of both. -/
theorem same_set {scrolled : Grid} (hscrolled : scrolled.Full) (htall : tall.Full) {above : Nat}
    (col row : Nat) (cell : Cell) {x y : Nat} {c d : Cell} (hc : scrolled.get? x y = some c)
    (hd : tall.get? x (y + above) = some d) (hsame : c.ShowsSame d) :
    ∃ c d, (scrolled.set col row cell).get? x y = some c ∧
      (tall.set col (row + above) cell).get? x (y + above) = some d ∧ c.ShowsSame d := by
  have hin := Grid.inside_of_get? hc
  have hin' := Grid.inside_of_get? hd
  rw [Grid.get?_set hscrolled, Grid.get?_set htall]
  by_cases hhere : x = col ∧ y = row
  · rw [if_pos ⟨hhere.1, hhere.2, hin⟩, if_pos ⟨hhere.1, by omega, hin'⟩]
    exact ⟨cell, cell, rfl, rfl, cell.showsSame_refl⟩
  · rw [if_neg fun hat => hhere ⟨hat.1, hat.2.1⟩,
      if_neg fun hat => hhere ⟨hat.1, Nat.add_right_cancel hat.2.1⟩]
    exact ⟨c, d, hc, hd, hsame⟩

/-- A glyph is written at the same place of both screens, once the small one has
been scrolled as far as it must. -/
theorem put (h : Window hs ht small tall lowest) {scrolled : Grid} (hfull : scrolled.Full)
    (hsize : scrolled.cols = hs.maxCols ∧ scrolled.rows = hs.maxRows)
    (hsame : ∀ x y, small.Inside x y → ∃ c d, scrolled.get? x y = some c ∧
      tall.get? x (y + rowsAbove hs.maxRows (some ht.cursor.row)) = some d ∧ c.ShowsSame d)
    (cell : Cell) :
    Window (hs.advance hs.printRow) (ht.advance ht.cursor.row)
      (scrolled.set hs.cursor.col hs.printRow cell)
      (tall.set ht.cursor.col ht.cursor.row cell) (some ht.cursor.row) := by
  have hplace := h.printRow_eq.1
  have hpos := h.rows_pos
  obtain ⟨hsmallCols, hsmallRows⟩ := h.small_size
  obtain ⟨habreast, down, -, hsmallRow, htallRow⟩ :=
    h.abreast.advance hs.printRow ht.cursor.row
  have hlimits := hs.sameLimits_advance hs.printRow
  have hlimits' := ht.sameLimits_advance ht.cursor.row
  refine ⟨hfull.set _ _ _, h.tall_full.set _ _ _, ?_, ?_, ?_, habreast, ?_, ?_, ?_, ?_⟩
  · rw [Grid.cols_set, Grid.rows_set, hlimits.1, hlimits.2]
    exact hsize
  · rw [Grid.cols_set, Grid.rows_set, hlimits'.1, hlimits'.2]
    exact h.tall_size
  · rw [hlimits.2]
    exact hpos
  · rw [hlimits.2, hsmallRow, htallRow]
    omega
  · intro row hmem
    have hlast : ht.cursor.row = row := Option.some.inj hmem
    omega
  · -- the row of the glyph is the lowest one, so below it nothing has changed
    intro x y hbelow
    have hy : ht.cursor.row < y := hbelow _ rfl
    have helse : ¬(x = ht.cursor.col ∧ y = ht.cursor.row ∧ tall.Inside x y) := fun hhere => by
      omega
    rw [Grid.codeAt, Grid.get?_set h.tall_full, if_neg helse]
    refine h.blank_below x y fun row hmem => ?_
    have hle := h.lowest_le row hmem
    omega
  · intro x y hxy
    have hin : small.Inside x y := by
      obtain ⟨hx, hy⟩ := hxy
      rw [Grid.cols_set, hsize.1, ← hsmallCols] at hx
      rw [Grid.rows_set, hsize.2, ← hsmallRows] at hy
      exact ⟨hx, hy⟩
    obtain ⟨c, d, hc, hd, hshown⟩ := hsame x y hin
    have hset := same_set hfull h.tall_full hs.cursor.col hs.printRow cell hc hd hshown
    rw [hplace, h.abreast.col] at hset
    rw [hlimits.2, h.abreast.col]
    exact hset

/-- **One glyph.**  It may scroll the small screen by several rows; the tall one has
the rows it needs. -/
theorem print (h : Window hs ht small tall lowest) (hrow : ht.cursor.row < ht.maxRows)
    (transparency : Bool) (codepoint : UInt8) :
    Window (hs.print codepoint).1 (ht.print codepoint).1
      ((hs.print codepoint).2.foldl (Stroke.drawOn transparency) small)
      ((ht.print codepoint).2.foldl (Stroke.drawOn transparency) tall)
      ((ht.print codepoint).2.foldl Stroke.lowest lowest) := by
  have hpos := h.rows_pos
  have habove := h.printRow_eq.2
  have htallPrint : ht.print codepoint = (ht.advance ht.cursor.row,
      [.put ht.cursor.col ht.cursor.row codepoint ht.pen]) := by
    rw [Head.print, if_neg (Nat.not_le.2 hrow)]
  -- a glyph is never printed above an earlier one
  have hlowest : Stroke.lowest lowest (.put ht.cursor.col ht.cursor.row codepoint ht.pen) =
      some ht.cursor.row := by
    cases lowest with
    | none => rfl
    | some row => exact congrArg some (Nat.max_eq_left (h.lowest_le row rfl))
  have hcell : ht.pen.stamp codepoint transparency = hs.pen.stamp codepoint transparency := by
    rw [h.abreast.pen]
  rw [htallPrint]
  simp only [List.foldl_cons, List.foldl_nil, hlowest, Stroke.drawOn, hcell]
  by_cases hpast : hs.maxRows ≤ hs.cursor.row
  · have hlast : hs.printRow = hs.maxRows - 1 := by
      rw [Head.printRow]
      omega
    have hcount : rowsAbove hs.maxRows (some ht.cursor.row) =
        rowsAbove hs.maxRows lowest + (hs.cursor.row - hs.maxRows + 1) := by omega
    have htall : ∀ x y, small.Inside x y → tall.Inside x
        (y + (rowsAbove hs.maxRows lowest + (hs.cursor.row - hs.maxRows + 1))) := by
      intro x y hin
      obtain ⟨hx, hy⟩ := hin
      rw [h.small_size.1, h.abreast.maxCols] at hx
      rw [h.small_size.2] at hy
      have hplace := h.printRow_eq.1
      rw [Grid.Inside, h.tall_size.1, h.tall_size.2]
      exact ⟨hx, by omega⟩
    rw [Head.print, if_pos hpast, ← hlast]
    refine h.put (h.small_full.rearrange _ _) h.small_size ?_ _
    intro x y hin
    rw [hcount]
    exact h.same_scrolled (Cell.codepoint_pack ..) htall hin
  · have hhere : hs.printRow = hs.cursor.row := by
      rw [Head.printRow]
      omega
    have hcount : rowsAbove hs.maxRows (some ht.cursor.row) = rowsAbove hs.maxRows lowest := by
      omega
    rw [Head.print, if_neg hpast, ← hhere]
    refine h.put h.small_full h.small_size ?_ _
    rw [hcount]
    exact h.same

/-- **One action.**  As long as the tall screen has a row for it, the small screen
stays a window on it, and the cursor goes down by one row at the most. -/
theorem apply (h : Window hs ht small tall lowest) (hrow : ht.cursor.row < ht.maxRows)
    (transparency : Bool) {a : Action} (ha : a.RunsOn) :
    Window (hs.apply a).1 (ht.apply a).1
        ((hs.apply a).2.foldl (Stroke.drawOn transparency) small)
        ((ht.apply a).2.foldl (Stroke.drawOn transparency) tall)
        ((ht.apply a).2.foldl Stroke.lowest lowest) ∧
      (ht.apply a).1.cursor.row ≤ ht.cursor.row + 1 := by
  by_cases hprint : ∃ codepoint, a = .print codepoint
  · obtain ⟨codepoint, rfl⟩ := hprint
    refine ⟨h.print hrow transparency codepoint, ?_⟩
    obtain ⟨-, down, hdown, -, htallRow⟩ := h.abreast.advance hs.printRow ht.cursor.row
    rw [Head.apply, Head.print, if_neg (Nat.not_le.2 hrow)]
    exact htallRow ▸ Nat.add_le_add_left hdown _
  · obtain ⟨⟨hsmall, htall⟩, habreast, down, hdown, hsmallRow, htallRow⟩ :=
      h.abreast.apply ha fun codepoint hc => hprint ⟨codepoint, hc⟩
    have hlimits := hs.sameLimits_apply a
    have hlimits' := ht.sameLimits_apply a
    have hat := h.row_eq
    rw [hsmall, htall]
    refine ⟨⟨h.small_full, h.tall_full, ?_, ?_, ?_, habreast, ?_, ?_, h.blank_below, ?_⟩, ?_⟩
    · rw [hlimits.1, hlimits.2]
      exact h.small_size
    · rw [hlimits'.1, hlimits'.2]
      exact h.tall_size
    · rw [hlimits.2]
      exact h.rows_pos
    · rw [hlimits.2, hsmallRow, htallRow, List.foldl_nil]
      omega
    · intro row hmem
      have hle := h.lowest_le row hmem
      omega
    · rw [hlimits.2]
      exact h.same
    · omega

/-- **A run of actions.**  The tall screen needs a row for each action at the most,
beyond the row it is at. -/
theorem strokes (h : Window hs ht small tall lowest) (transparency : Bool)
    {actions : List Action} (hactions : ∀ a ∈ actions, a.RunsOn)
    (hrows : ht.cursor.row + actions.length ≤ ht.maxRows) :
    Window (hs.after actions) (ht.after actions)
      ((hs.strokes actions).foldl (Stroke.drawOn transparency) small)
      ((ht.strokes actions).foldl (Stroke.drawOn transparency) tall)
      ((ht.strokes actions).foldl Stroke.lowest lowest) := by
  induction actions generalizing hs ht small tall lowest with
  | nil => exact h
  | cons a actions ih =>
    rw [List.length_cons] at hrows
    obtain ⟨hstep, hdown⟩ :=
      h.apply (by omega) transparency (hactions a List.mem_cons_self)
    have hlimits := ht.sameLimits_apply a
    have hrest : (ht.apply a).1.cursor.row + actions.length ≤ (ht.apply a).1.maxRows := by
      rw [hlimits.2]
      omega
    have hrun := ih hstep (fun b hb => hactions b (List.mem_cons_of_mem a hb)) hrest
    simp only [Head.strokes, List.foldl_append]
    exact hrun

/-- Two fresh screens: nothing has been printed, and the window has not moved. -/
theorem fresh {height rows : Nat} (width : Nat) (hrows : height ≤ rows) :
    Window (.fresh width height) (.fresh width rows) (.fresh width height) (.fresh width rows)
      none where
  small_full := Grid.full_fresh width height
  tall_full := Grid.full_fresh width rows
  small_size := ⟨rfl, rfl⟩
  tall_size := ⟨rfl, rfl⟩
  rows_pos := Nat.le_max_right height 1
  abreast := ⟨rfl, rfl, rfl⟩
  row_eq := rfl
  lowest_le row hmem := by cases hmem
  blank_below x y _ := Grid.codeAt_fresh width rows x y
  same x y hxy := by
    have htall : (Grid.fresh width rows).Inside x y := by
      obtain ⟨hx, hy⟩ := hxy
      simp only [Grid.fresh] at hx hy
      simp only [Grid.Inside, Grid.fresh]
      omega
    exact ⟨_, _, Grid.get?_fresh hxy, Grid.get?_fresh htall, Cell.showsSame_refl _⟩

end Window

/-- **A scrolling screen is a window.**  Let text run on that makes `n` steps, on a
screen of some size and on one that is as wide and at least `n` rows taller.  Then
the first screen shows what the second one shows from some row on: the window ends
with the lowest row that the second one printed at. -/
theorem scrolling_is_a_window (width height rows : Nat) {actions : List Action}
    (hwidth : 1 ≤ width) (hheight : 1 ≤ height)
    (hactions : ∀ a ∈ actions, a.RunsOn) (hrows : height + actions.length ≤ rows)
    (transparency : Bool) :
    ∃ small tall : Grid,
      (actions.foldl Terminal.apply
        (.rendering width height width height transparency)).grid? = some small ∧
      (actions.foldl Terminal.apply
        (.rendering width rows width rows transparency)).grid? = some tall ∧
      ∀ col row, col < width → row < height → ∃ c d,
        small.get? col row = some c ∧
        tall.get? col
          (row + rowsAbove height ((Head.fresh width rows).lowestRow? actions)) = some d ∧
        c.ShowsSame d := by
  refine ⟨_, _, Terminal.grid?_foldl_apply_rendering .., Terminal.grid?_foldl_apply_rendering ..,
    ?_⟩
  have hroom : (Head.fresh width rows).cursor.row + actions.length ≤
      (Head.fresh width rows).maxRows := by
    have hstart : (Head.fresh width rows).cursor.row = 0 := rfl
    have hlimit : (Head.fresh width rows).maxRows = max rows 1 := rfl
    omega
  have hrun := (Window.fresh width (Nat.le_of_add_right_le hrows)).strokes transparency
    hactions hroom
  have hlimits := (Head.fresh width height).sameLimits_after actions
  have hcols : (Head.fresh width height).maxCols = width := Nat.max_eq_left hwidth
  have hmaxRows : (Head.fresh width height).maxRows = height := Nat.max_eq_left hheight
  intro col row hcol hrow
  have hsame := hrun.same col row
  rw [Grid.Inside, hrun.small_size.1, hrun.small_size.2, hlimits.1, hlimits.2, hcols,
    hmaxRows] at hsame
  exact hsame ⟨hcol, hrow⟩

/-- Two glyphs that wrap, a change of colours, and a glyph behind three line
feeds. -/
def wideSteps : List Action :=
  [.print 0x41, .print 0x42, .sequence ⟨0x6D, [some 31]⟩, .control .lineFeed,
    .control .lineFeed, .control .lineFeed, .print 0x43]

/-- The last glyph is in the fifth row of the tall screen.  The small one, of two
rows, shows the fourth and the fifth, and so the glyph is in its second row. -/
theorem scrolling_is_a_window_threeFeeds :
    (∀ a ∈ wideSteps, a.RunsOn) ∧ (Head.fresh 2 9).lowestRow? wideSteps = some 4 ∧
      ∃ small tall : Grid,
        (wideSteps.foldl Terminal.apply (.rendering 2 2 2 2 true)).grid? = some small ∧
        (wideSteps.foldl Terminal.apply (.rendering 2 9 2 9 true)).grid? = some tall ∧
        (∀ col row, col < 2 → row < 2 → ∃ c d, small.get? col row = some c ∧
          tall.get? col (row + 3) = some d ∧ c.ShowsSame d) ∧
        small.codeAt 0 1 = 0x43 ∧ tall.codeAt 0 4 = 0x43 := by
  have hactions : ∀ a ∈ wideSteps, a.RunsOn := by decide
  have hlowest : (Head.fresh 2 9).lowestRow? wideSteps = some 4 := by decide +kernel
  obtain ⟨small, tall, hsmall, htall, hwindow⟩ :=
    scrolling_is_a_window 2 2 9 (by decide) (by decide) hactions (by decide) true
  rw [hlowest] at hwindow
  have hsmallGlyph : (wideSteps.foldl Terminal.apply (.rendering 2 2 2 2 true)).grid?.map
      (·.codeAt 0 1) = some 0x43 := by decide +kernel
  have htallGlyph : (wideSteps.foldl Terminal.apply (.rendering 2 9 2 9 true)).grid?.map
      (·.codeAt 0 4) = some 0x43 := by decide +kernel
  rw [hsmall] at hsmallGlyph
  rw [htall] at htallGlyph
  exact ⟨hactions, hlowest, small, tall, hsmall, htall, hwindow, Option.some.inj hsmallGlyph,
    Option.some.inj htallGlyph⟩

end BaudReel
