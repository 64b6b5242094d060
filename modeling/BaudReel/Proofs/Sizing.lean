import BaudReel.Proofs.Origin
import BaudReel.Proofs.Strokes
import BaudReel.Session

/-!
# A measured screen is large enough

Before a stream is drawn it may be measured: the gauge notes the furthest
column and row that anything was printed at, and the screen is made to fit.
Two things have to be shown.  What is on the screen never lies beyond what the
gauge has noted (`Grid.CoveredBy`), also where inserted rows push printed ones
down.  And a screen with room for all that the gauge notes shows the same text
as a larger one (`Fits`), because the origin of a place does not depend on the
size of the grid.

Rows moved down by a scroll are the exception: the gauge does not follow them.

* `Fits.foldl_drawOn` — two screens stay alike through a run of strokes;
* `lt_sizeFor` — a measured screen has room for every printed position, for
  usable and unusable settings alike;
* `sizing_loses_nothing` — the text on the measured screen is that of the
  largest one.
-/

namespace BaudReel

namespace Grid

variable {g : Grid} {x y : Nat}

/-- The code point at a place, zero beyond the edge. -/
def codeAt (g : Grid) (x y : Nat) : UInt8 :=
  ((g.get? x y).map Cell.codepoint).getD 0

/-- Where there is a cell, its code point is seen. -/
theorem codeAt_of_get? {c : Cell} (h : g.get? x y = some c) : g.codeAt x y = c.codepoint := by
  rw [codeAt, h]
  rfl

/-- Outside nothing is seen. -/
theorem codeAt_of_not_inside (h : ¬g.Inside x y) : g.codeAt x y = 0 := by
  rw [codeAt, get?_of_not_inside h]
  rfl

/-- The cells of a new grid have not been touched. -/
theorem get?_fresh {cols rows : Nat} (hin : (fresh cols rows).Inside x y) :
    (fresh cols rows).get? x y = some Cell.untouched := by
  have hindex := index_lt_size (full_fresh cols rows) hin
  rw [get?_of_inside hin, Array.getElem?_eq_getElem hindex]
  exact congrArg some (Array.getElem_replicate _)

/-- On a new grid nothing is seen. -/
theorem codeAt_fresh (cols rows x y : Nat) : (fresh cols rows).codeAt x y = 0 := by
  by_cases hin : (fresh cols rows).Inside x y
  · rw [codeAt_of_get? (get?_fresh hin)]
    exact Cell.codepoint_pack ..
  · exact codeAt_of_not_inside hin

end Grid

namespace Stroke

/-- The code point that a stroke leaves at a place, read off the code points
before it. -/
def codeBehind (code : Nat → Nat → UInt8) (stroke : Stroke) (x y : Nat) : UInt8 :=
  match stroke with
  | .put col row codepoint _ => if x = col ∧ y = row then codepoint else code x y
  | .rearrange r _ => (r.origin x y).elim 0 fun p => code p.1 p.2

/-- Whether a stroke moves rows down by scrolling. -/
def ScrollsDown : Stroke → Prop
  | .rearrange (.scrollDown _) _ => True
  | _ => False

section Drawing

variable {g : Grid} (transparency : Bool) (stroke : Stroke)

@[simp]
theorem cols_drawOn : (stroke.drawOn transparency g).cols = g.cols := by
  cases stroke with
  | put col row codepoint pen => exact g.cols_set _ _ _
  | rearrange r pen => rfl

@[simp]
theorem rows_drawOn : (stroke.drawOn transparency g).rows = g.rows := by
  cases stroke with
  | put col row codepoint pen => exact g.rows_set _ _ _
  | rearrange r pen => rfl

/-- Drawing moves no edge. -/
theorem inside_drawOn {x y : Nat} : (stroke.drawOn transparency g).Inside x y ↔ g.Inside x y := by
  rw [Grid.Inside, Grid.Inside, cols_drawOn, rows_drawOn]

/-- Drawing keeps all cells. -/
theorem full_drawOn (hg : g.Full) : (stroke.drawOn transparency g).Full := by
  cases stroke with
  | put col row codepoint pen => exact hg.set _ _ _
  | rearrange r pen => exact hg.rearrange _ _

/-- A stroke changes the code points of all grids alike, as far as they
reach. -/
theorem codeAt_drawOn (hg : g.Full) {x y : Nat} (hxy : g.Inside x y) :
    (stroke.drawOn transparency g).codeAt x y = stroke.codeBehind g.codeAt x y := by
  cases stroke with
  | put col row codepoint pen =>
    rw [drawOn, Grid.codeAt, Grid.get?_set hg, codeBehind]
    by_cases hhere : x = col ∧ y = row
    · rw [if_pos ⟨hhere.1, hhere.2, hxy⟩, if_pos hhere]
      exact Cell.codepoint_pack ..
    · rw [if_neg fun h => hhere ⟨h.1, h.2.1⟩, if_neg hhere, Grid.codeAt]
  | rearrange r pen =>
    have hblank : (pen.blank transparency).codepoint = 0 := Cell.codepoint_pack ..
    rw [drawOn, Grid.codeAt_of_get? (Grid.get?_rearrange hg r _ hxy), codeBehind,
      Grid.cellBehind]
    cases r.origin x y with
    | none => exact hblank
    | some p =>
      rw [Option.bind_some, Option.elim_some, Grid.codeAt]
      cases g.get? p.1 p.2 with
      | none => exact hblank
      | some c => rfl

end Drawing

/-- A stroke only widens the reach. -/
theorem le_reach (stroke : Stroke) (far : Nat × Nat) :
    far.1 ≤ (stroke.reach far).1 ∧ far.2 ≤ (stroke.reach far).2 := by
  cases stroke with
  | put col row codepoint pen => exact ⟨Nat.le_max_left .., Nat.le_max_left ..⟩
  | rearrange r pen =>
    cases r with
    | insertLines row count =>
      refine ⟨Nat.le_refl _, ?_⟩
      simp only [reach]
      split <;> omega
    | _ => exact ⟨Nat.le_refl _, Nat.le_refl _⟩

/-- Strokes only widen the reach. -/
theorem le_foldl_reach (strokes : List Stroke) (far : Nat × Nat) :
    far.1 ≤ (strokes.foldl reach far).1 ∧ far.2 ≤ (strokes.foldl reach far).2 := by
  induction strokes generalizing far with
  | nil => exact ⟨Nat.le_refl _, Nat.le_refl _⟩
  | cons stroke strokes ih =>
    obtain ⟨hcol, hrow⟩ := stroke.le_reach far
    obtain ⟨hcol', hrow'⟩ := ih (stroke.reach far)
    exact ⟨Nat.le_trans hcol hcol', Nat.le_trans hrow hrow'⟩

/-- The reach of strokes takes in every place at which one of them puts a glyph. -/
theorem put_le_foldl_reach {strokes : List Stroke} {col row : Nat} {codepoint : UInt8} {pen : Pen}
    (hput : .put col row codepoint pen ∈ strokes) (far : Nat × Nat) :
    col ≤ (strokes.foldl reach far).1 ∧ row ≤ (strokes.foldl reach far).2 := by
  induction strokes generalizing far with
  | nil => exact absurd hput List.not_mem_nil
  | cons stroke strokes ih =>
    rcases List.mem_cons.1 hput with rfl | hlater
    · obtain ⟨hcol, hrow⟩ := le_foldl_reach strokes (max far.1 col, max far.2 row)
      exact ⟨Nat.le_trans (Nat.le_max_right ..) hcol, Nat.le_trans (Nat.le_max_right ..) hrow⟩
    · exact ih hlater (stroke.reach far)

/-- Rows that are not scrolled down are brought no further than the gauge
says. -/
theorem origin_le_reach {r : Rearrangement} (pen : Pen) {x y x' y' : Nat} {far : Nat × Nat}
    (hdown : ¬ScrollsDown (.rearrange r pen)) (horigin : r.origin x y = some (x', y'))
    (hcol : x' ≤ far.1) (hrow : y' ≤ far.2) :
    x ≤ (reach far (.rearrange r pen)).1 ∧ y ≤ (reach far (.rearrange r pen)).2 := by
  cases r with
  | scrollDown count => exact absurd trivial hdown
  | insertLines row count =>
    simp only [Rearrangement.origin] at horigin
    simp only [reach]
    split at horigin
    · cases horigin
      split <;> omega
    · split at horigin
      · cases horigin
      · cases horigin
        split <;> omega
  | scrollUp count =>
    cases horigin
    exact ⟨hcol, Nat.le_trans (Nat.le_add_right y count) hrow⟩
  | _ =>
    simp only [Rearrangement.origin] at horigin
    simp only [reach]
    split at horigin <;> cases horigin <;> omega

end Stroke

/-- All that a grid shows lies within a column and a row. -/
def Grid.CoveredBy (g : Grid) (far : Nat × Nat) : Prop :=
  ∀ x y, g.codeAt x y ≠ 0 → x ≤ far.1 ∧ y ≤ far.2

/-- **The gauge sees everything.**  A drawn screen stays covered by what the
gauge notes of the same strokes, as long as nothing is scrolled down. -/
theorem Grid.CoveredBy.drawOn {g : Grid} {far : Nat × Nat} (hcovered : g.CoveredBy far)
    (hg : g.Full) (transparency : Bool) {stroke : Stroke} (hdown : ¬stroke.ScrollsDown) :
    (stroke.drawOn transparency g).CoveredBy (stroke.reach far) := by
  intro x y hcode
  obtain ⟨hcol, hrow⟩ := stroke.le_reach far
  by_cases hin : g.Inside x y
  · rw [stroke.codeAt_drawOn transparency hg hin] at hcode
    cases stroke with
    | put col row codepoint pen =>
      rw [Stroke.codeBehind] at hcode
      by_cases hhere : x = col ∧ y = row
      · obtain ⟨rfl, rfl⟩ := hhere
        exact ⟨Nat.le_max_right .., Nat.le_max_right ..⟩
      · rw [if_neg hhere] at hcode
        obtain ⟨hx, hy⟩ := hcovered x y hcode
        exact ⟨Nat.le_trans hx hcol, Nat.le_trans hy hrow⟩
    | rearrange r pen =>
      rw [Stroke.codeBehind] at hcode
      cases horigin : r.origin x y with
      | none =>
        rw [horigin] at hcode
        exact absurd rfl hcode
      | some p =>
        rw [horigin] at hcode
        obtain ⟨hx, hy⟩ := hcovered p.1 p.2 hcode
        exact Stroke.origin_le_reach pen hdown horigin hx hy
  · refine absurd (Grid.codeAt_of_not_inside ?_) hcode
    rwa [Stroke.inside_drawOn]

/-- A small screen shows all that a big one does: the same code points, and
nothing of the big one lies beyond `far`. -/
structure Fits (small big : Grid) (far : Nat × Nat) : Prop where
  small_full : small.Full
  big_full : big.Full
  inner : ∀ x y, small.Inside x y → big.Inside x y
  covered : big.CoveredBy far
  same : small.codeAt = big.codeAt

/-- The small screen has all places of the big one up to `far`. -/
def HasRoom (small big : Grid) (far : Nat × Nat) : Prop :=
  ∀ x y, big.Inside x y → x ≤ far.1 → y ≤ far.2 → small.Inside x y

/-- Room for a reach is room for every smaller one. -/
theorem HasRoom.of_le {small big : Grid} {far near : Nat × Nat} (h : HasRoom small big far)
    (hcol : near.1 ≤ far.1) (hrow : near.2 ≤ far.2) : HasRoom small big near :=
  fun x y hin hx hy => h x y hin (Nat.le_trans hx hcol) (Nat.le_trans hy hrow)

namespace Fits

variable {small big : Grid} {far : Nat × Nat} (smallFlag bigFlag : Bool)

/-- **One stroke.**  A small grid that shows all of a big one goes on to do so, as long as nothing
scrolls down and there is room for the reach. -/
theorem drawOn (h : Fits small big far) {stroke : Stroke} (hdown : ¬stroke.ScrollsDown)
    (hroom : HasRoom small big (stroke.reach far)) :
    Fits (stroke.drawOn smallFlag small) (stroke.drawOn bigFlag big) (stroke.reach far) where
  small_full := stroke.full_drawOn smallFlag h.small_full
  big_full := stroke.full_drawOn bigFlag h.big_full
  inner x y := by
    rw [Stroke.inside_drawOn, Stroke.inside_drawOn]
    exact h.inner x y
  covered := h.covered.drawOn h.big_full bigFlag hdown
  same := by
    funext x y
    by_cases hsmall : small.Inside x y
    · rw [stroke.codeAt_drawOn smallFlag h.small_full hsmall,
        stroke.codeAt_drawOn bigFlag h.big_full (h.inner x y hsmall), h.same]
    · have hzero : (stroke.drawOn smallFlag small).codeAt x y = 0 := by
        apply Grid.codeAt_of_not_inside
        rwa [Stroke.inside_drawOn]
      rw [hzero]
      by_cases hbig : big.Inside x y
      · -- anything the big screen shows here would be in reach, so in the small one
        by_cases hcode : (stroke.drawOn bigFlag big).codeAt x y = 0
        · exact hcode.symm
        · obtain ⟨hx, hy⟩ := h.covered.drawOn h.big_full bigFlag hdown x y hcode
          exact absurd (hroom x y hbig hx hy) hsmall
      · symm
        apply Grid.codeAt_of_not_inside
        rwa [Stroke.inside_drawOn]

/-- **Two screens stay alike.**  A run of strokes that scrolls nothing down
keeps a small screen like a big one, if the small one has room for all that the
gauge notes of the whole run. -/
theorem foldl_drawOn (h : Fits small big far) {strokes : List Stroke}
    (hdown : ∀ stroke ∈ strokes, ¬stroke.ScrollsDown)
    (hroom : HasRoom small big (strokes.foldl Stroke.reach far)) :
    Fits (strokes.foldl (Stroke.drawOn smallFlag) small)
      (strokes.foldl (Stroke.drawOn bigFlag) big) (strokes.foldl Stroke.reach far) := by
  induction strokes generalizing small big far with
  | nil => exact h
  | cons stroke strokes ih =>
    -- room for the whole run is room for its first stroke: the gauge never goes back
    obtain ⟨hcol, hrow⟩ := Stroke.le_foldl_reach strokes (stroke.reach far)
    have hstep := h.drawOn smallFlag bigFlag (hdown stroke List.mem_cons_self)
      (hroom.of_le hcol hrow)
    refine ih hstep (fun s hs => hdown s (List.mem_cons_of_mem stroke hs)) ?_
    intro x y
    rw [Stroke.inside_drawOn, Stroke.inside_drawOn]
    exact hroom x y

end Fits

namespace Session

/-- The furthest column and row that a stream prints at under given limits, as
the gauge notes them. -/
def reachOf (config : Config) (data : List UInt8) : Nat × Nat :=
  ((Head.fresh config.maxWidth config.maxHeight).strokes
    (Parser.initial.parse data).2).foldl Stroke.reach (0, 0)

/-- The measuring pass asks for as many columns and rows as the stream reaches. -/
theorem extent_measuringPass (config : Config) (data : List UInt8) :
    (measuringPass config data).extent =
      ((reachOf config data).1 + 1, (reachOf config data).2 + 1) := by
  rw [measuringPass, Terminal.extent, Terminal.canvas_finish, Terminal.canvas_process]
  have hgauge := Canvas.foldl_draw_gauge
    ((Head.fresh config.maxWidth config.maxHeight).strokes (Parser.initial.parse data).2) (0, 0)
  exact congrArg Canvas.extent hgauge

/-- The reach of a front part of a stream is within that of the stream. -/
theorem reachOf_prefix (config : Config) {front data : List UInt8} (hfront : front <+: data) :
    (reachOf config front).1 ≤ (reachOf config data).1 ∧
      (reachOf config front).2 ≤ (reachOf config data).2 := by
  obtain ⟨rest, rfl⟩ := hfront
  rw [reachOf, reachOf, Parser.parse_append, Head.strokes_append, List.foldl_append]
  exact Stroke.le_foldl_reach _ _

/-- **Room for every printed place.**  A place within the limits and within
what the stream reaches lies on the measured screen, whatever the settings. -/
theorem lt_sizeFor (config : Config) (data : List UInt8) {col row : Nat}
    (hcol : col < max config.maxWidth 1) (hrow : row < max config.maxHeight 1)
    (hfarCol : col ≤ (reachOf config data).1) (hfarRow : row ≤ (reachOf config data).2) :
    col < max (sizeFor config data).1 1 ∧ row < max (sizeFor config data).2 1 := by
  rw [sizeFor_eq]
  split
  case isTrue hsizing =>
    simp only [extent_measuringPass, Config.fitWidth, Config.fitHeight]
    omega
  case isFalse hsizing =>
    have hequal : config.minWidth = config.maxWidth ∧ config.minHeight = config.maxHeight := by
      simpa [Config.needsSizing] using hsizing
    simp only [hequal]
    exact ⟨hcol, hrow⟩

/-- Under usable limits the measured screen is no larger than they allow, and
not empty. -/
theorem sizeFor_le {config : Config} (data : List UInt8)
    (hwidth : 1 ≤ config.maxWidth) (hheight : 1 ≤ config.maxHeight)
    (hminWidth : config.minWidth ≤ config.maxWidth)
    (hminHeight : config.minHeight ≤ config.maxHeight) :
    (1 ≤ (sizeFor config data).1 ∧ (sizeFor config data).1 ≤ config.maxWidth) ∧
      1 ≤ (sizeFor config data).2 ∧ (sizeFor config data).2 ≤ config.maxHeight := by
  rw [sizeFor_eq]
  split
  case isTrue hsizing =>
    simp only [extent_measuringPass, Config.fitWidth, Config.fitHeight]
    omega
  case isFalse hsizing =>
    have hequal : config.minWidth = config.maxWidth ∧ config.minHeight = config.maxHeight := by
      simpa [Config.needsSizing] using hsizing
    simp only [hequal]
    omega

end Session

namespace Stroke

/-- Strokes keep all cells. -/
theorem full_foldl_drawOn {g : Grid} (hg : g.Full) (transparency : Bool)
    (strokes : List Stroke) : (strokes.foldl (drawOn transparency) g).Full := by
  induction strokes generalizing g with
  | nil => exact hg
  | cons stroke strokes ih => exact ih (stroke.full_drawOn transparency hg)

/-- Strokes move no edge. -/
theorem size_foldl_drawOn (g : Grid) (transparency : Bool) (strokes : List Stroke) :
    (strokes.foldl (drawOn transparency) g).cols = g.cols ∧
      (strokes.foldl (drawOn transparency) g).rows = g.rows := by
  induction strokes generalizing g with
  | nil => exact ⟨rfl, rfl⟩
  | cons stroke strokes ih =>
    obtain ⟨hcols, hrows⟩ := ih (stroke.drawOn transparency g)
    exact ⟨hcols.trans (stroke.cols_drawOn transparency),
      hrows.trans (stroke.rows_drawOn transparency)⟩

end Stroke

/-- New grids show the same: nothing. -/
theorem fits_fresh (cols rows maxCols maxRows : Nat) (hcols : cols ≤ maxCols)
    (hrows : rows ≤ maxRows) :
    Fits (.fresh cols rows) (.fresh maxCols maxRows) (0, 0) where
  small_full := Grid.full_fresh cols rows
  big_full := Grid.full_fresh maxCols maxRows
  inner x y h := by
    obtain ⟨hx, hy⟩ := h
    simp only [Grid.fresh] at hx hy
    simp only [Grid.Inside, Grid.fresh]
    omega
  covered x y h := absurd (Grid.codeAt_fresh maxCols maxRows x y) h
  same := by
    funext x y
    rw [Grid.codeAt_fresh, Grid.codeAt_fresh]

/-- The measured screen and the largest one stay alike on every front part of
a stream that never scrolls down. -/
theorem fits_of_prefix {config : Config} {data front : List UInt8}
    (hwidth : 1 ≤ config.maxWidth) (hheight : 1 ≤ config.maxHeight)
    (hminWidth : config.minWidth ≤ config.maxWidth)
    (hminHeight : config.minHeight ≤ config.maxHeight)
    (hdown : ∀ s, .sequence s ∈ (Parser.initial.parse data).2 → s.finalByte ≠ 0x54)
    (hfront : front <+: data) (smallFlag bigFlag : Bool) :
    let strokes := (Head.fresh config.maxWidth config.maxHeight).strokes
      (Parser.initial.parse front).2
    Fits
      (strokes.foldl (Stroke.drawOn smallFlag)
        (.fresh (Session.sizeFor config data).1 (Session.sizeFor config data).2))
      (strokes.foldl (Stroke.drawOn bigFlag) (.fresh config.maxWidth config.maxHeight))
      (Session.reachOf config front) := by
  intro strokes
  have hinbound := Head.inbound_fresh config.maxWidth config.maxHeight
  have hsize := Session.sizeFor_le data hwidth hheight hminWidth hminHeight
  have hactions : ∀ a ∈ (Parser.initial.parse front).2, a ∈ (Parser.initial.parse data).2 := by
    obtain ⟨rest, rfl⟩ := hfront
    intro a ha
    rw [Parser.parse_append]
    exact List.mem_append_left _ ha
  have hstrokes : ∀ stroke ∈ strokes, ¬stroke.ScrollsDown := by
    intro stroke hstroke hscroll
    cases stroke with
    | put col row codepoint pen => exact hscroll
    | rearrange r pen =>
      cases r with
      | scrollDown count =>
        obtain ⟨s, hs, hfinal⟩ := hinbound.exists_scrollDown hstroke
        exact hdown s (hactions _ hs) hfinal
      | _ => exact hscroll
  have hroom : HasRoom (.fresh (Session.sizeFor config data).1 (Session.sizeFor config data).2)
      (.fresh config.maxWidth config.maxHeight) (Session.reachOf config front) := by
    intro x y hin hx hy
    obtain ⟨hcol, hrow⟩ := Session.reachOf_prefix config hfront
    exact Session.lt_sizeFor config data hin.1 hin.2 (Nat.le_trans hx hcol)
      (Nat.le_trans hy hrow)
  exact (fits_fresh _ _ _ _ hsize.1.2 hsize.2.2).foldl_drawOn smallFlag bigFlag hstrokes hroom

/-- One terminal shows all that another shows: its screen has `w` times `h`
cells, the other's screen has the same code points there, and code point zero
everywhere else. -/
def Terminal.ShowsAllOf (small big : Terminal) (w h : Nat) : Prop :=
  ∃ s b : Grid, small.grid? = some s ∧ big.grid? = some b ∧ (s.cols = w ∧ s.rows = h) ∧
    (∀ col row, col < w → row < h → ∃ c d,
      s.get? col row = some c ∧ b.get? col row = some d ∧ c.codepoint = d.codepoint) ∧
    ∀ col row d, b.get? col row = some d → ¬(col < w ∧ row < h) → d.codepoint = 0

/-- **Automatic sizing loses nothing.**  Take a stream that never scrolls down,
and the screen that measuring the whole stream asks for.  Fed any front part of
the stream, that screen shows all that the largest screen allowed shows. -/
theorem sizing_loses_nothing (config : Config) (data front : List UInt8) {w h : Nat}
    (hwidth : 1 ≤ config.maxWidth) (hheight : 1 ≤ config.maxHeight)
    (hminWidth : config.minWidth ≤ config.maxWidth)
    (hminHeight : config.minHeight ≤ config.maxHeight)
    (hdown : ∀ s, .sequence s ∈ (Parser.initial.parse data).2 → s.finalByte ≠ 0x54)
    (hfront : front <+: data) (hsize : Session.sizeFor config data = (w, h))
    (smallFlag bigFlag : Bool) :
    ((Terminal.rendering w h config.maxWidth config.maxHeight smallFlag).process
      front).ShowsAllOf
      ((Terminal.rendering config.maxWidth config.maxHeight config.maxWidth config.maxHeight
        bigFlag).process front) w h := by
  have hfits := fits_of_prefix hwidth hheight hminWidth hminHeight hdown hfront smallFlag bigFlag
  have hle := Session.sizeFor_le data hwidth hheight hminWidth hminHeight
  rw [hsize] at hfits hle
  refine ⟨_, _, Terminal.grid?_process_rendering .., Terminal.grid?_process_rendering .., ?_⟩
  generalize hstrokes : (Head.fresh config.maxWidth config.maxHeight).strokes
    (Parser.initial.parse front).2 = strokes at hfits ⊢
  obtain ⟨hcols, hrows⟩ := Stroke.size_foldl_drawOn (.fresh w h) smallFlag strokes
  replace hcols := hcols.trans (Nat.max_eq_left hle.1.1)
  replace hrows := hrows.trans (Nat.max_eq_left hle.2.1)
  refine ⟨⟨hcols, hrows⟩, ?_, ?_⟩
  · intro col row hcol hrow
    have hin : (strokes.foldl (Stroke.drawOn smallFlag) (.fresh w h)).Inside col row := by
      rw [Grid.Inside, hcols, hrows]
      exact ⟨hcol, hrow⟩
    obtain ⟨c, hc⟩ := Grid.exists_get? hfits.small_full hin
    obtain ⟨d, hd⟩ := Grid.exists_get? hfits.big_full (hfits.inner col row hin)
    refine ⟨c, d, hc, hd, ?_⟩
    rw [← Grid.codeAt_of_get? hc, ← Grid.codeAt_of_get? hd, hfits.same]
  · intro col row d hd hout
    rw [← Grid.codeAt_of_get? hd, ← hfits.same]
    apply Grid.codeAt_of_not_inside
    rwa [Grid.Inside, hcols, hrows]

/-- Two glyphs on a diagonal, then a row inserted above them, and a glyph in
it. -/
def pushedDown : List UInt8 :=
  [0x41, 0x0A, 0x42, 0x1B, 0x5B, 0x48, 0x1B, 0x5B, 0x4C, 0x43]

/-- Measuring asks for two columns and three rows; the third row is there before
the inserted row needs it.  Both screens show the second glyph, and once the
stream is over they show it one row further down. -/
theorem sizing_loses_nothing_pushedDown :
    let small := Terminal.rendering 2 3 4 5 false
    let big := Terminal.rendering 4 5 4 5 true
    Session.sizeFor { minWidth := 1, minHeight := 1, maxWidth := 4, maxHeight := 5 }
        pushedDown = (2, 3) ∧
      (small.process (pushedDown.take 6)).ShowsAllOf (big.process (pushedDown.take 6)) 2 3 ∧
      (small.process (pushedDown.take 6)).grid?.map (·.codeAt 1 1) = some 0x42 ∧
      (big.process (pushedDown.take 6)).grid?.map (·.codeAt 1 1) = some 0x42 ∧
      (small.process pushedDown).grid?.map (·.codeAt 1 2) = some 0x42 ∧
      (big.process pushedDown).grid?.map (·.codeAt 1 2) = some 0x42 := by
  intro small big
  have hactions : (Parser.initial.parse pushedDown).2 =
      [.print 0x41, .control .lineFeed, .print 0x42, .sequence ⟨0x48, [none]⟩,
        .sequence ⟨0x4C, [none]⟩, .print 0x43] := by decide +kernel
  have hdown : ∀ s, .sequence s ∈ (Parser.initial.parse pushedDown).2 → s.finalByte ≠ 0x54 := by
    intro s hs
    rw [hactions] at hs
    simp only [List.mem_cons, Action.sequence.injEq, reduceCtorEq, List.not_mem_nil, false_or,
      or_false] at hs
    rcases hs with rfl | rfl <;> decide
  have hsize : Session.sizeFor { minWidth := 1, minHeight := 1, maxWidth := 4, maxHeight := 5 }
      pushedDown = (2, 3) := by decide +kernel
  have hshows := sizing_loses_nothing _ pushedDown (pushedDown.take 6) (by decide) (by decide)
    (by decide) (by decide) hdown (List.take_prefix 6 pushedDown) hsize false true
  refine ⟨hsize, hshows, ?_, ?_, ?_, ?_⟩ <;> decide +kernel

end BaudReel
