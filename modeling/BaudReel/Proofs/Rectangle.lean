import BaudReel.Proofs.Drawing
import BaudReel.Proofs.Entrance
import BaudReel.Proofs.Failure
import BaudReel.Proofs.LifeCycle
import BaudReel.Proofs.Record
import Mathlib.Algebra.GroupWithZero.Nat
import Mathlib.Data.String.Basic

/-!
# Frames are full rectangles

A line of a frame is as wide as the row of cells that it was made from
(`Segment.sum_width_lineOf`), and its text has a glyph for each of them
(`Frame.textOf_lineOf`), none of which is a control character
(`CodePage.isControl_glyph`).  A frame that shows a grid with as many cells as its size
says is therefore a full rectangle (`Grid.Full.rectangular`).

A session shows two kinds of grids: fresh ones of the smallest size, and those that a
stream was drawn into, whose size is the same for the whole stream
(`Session.showsGrid_outcome`).
Both lie within the allowed sizes, so that all frames of a session do, whatever disturbs
it (`frames_are_rectangles`).
-/

namespace BaudReel

namespace CodePage

/-- Whether a character is a control character. -/
def isControl (c : Char) : Bool :=
  c.toNat < 0x20 || (0x7F ≤ c.toNat && c.toNat < 0xA0)

/-- No byte shows a control character. -/
theorem isControl_glyph (byte : UInt8) : isControl (glyph byte) = false := by
  have htable : table.toList.all (!isControl ·) = true := by decide +kernel
  have hbyte : byte.toNat < table.size := by
    rw [size_table]
    exact byte.toNat_lt
  have hmem := glyph_mem_table hbyte
  rw [UInt8.ofNat_toNat] at hmem
  have hplain := List.all_eq_true.1 htable _ (Array.mem_toList_iff.2 hmem)
  rwa [Bool.not_eq_true'] at hplain

end CodePage

namespace Segment

variable (view : View)

/-- A segment has a run of cells, and so it has text. -/
theorem text_ne_empty {cells : List Cell} {s : Segment} (hs : s ∈ lineOf view cells) :
    s.text ≠ "" := by
  obtain ⟨run, hrun, first, hfirst, rfl⟩ := exists_run_of_mem_lineOf hs
  have hsome : run ≠ [] := List.ne_nil_of_mem_splitBy hrun
  intro hempty
  have hglyphs : run.map Grid.glyphOf = [] := by
    rw [← String.toList_ofList (l := run.map Grid.glyphOf)]
    exact congrArg String.toList hempty
  exact hsome (List.map_eq_nil_iff.1 hglyphs)

/-- The segments of a row are as wide as the row. -/
theorem sum_width_lineOf (cells : List Cell) :
    ((lineOf view cells).map width).sum = cells.length := by
  have hexpand := congrArg List.length (expand_lineOf view cells)
  rw [Line.expand, List.length_flatMap, List.length_map] at hexpand
  rw [← hexpand]
  refine congrArg List.sum (List.map_congr_left fun s _ => ?_)
  rw [expand, List.length_map, width, String.length_toList]

end Segment

/-- The text of a line is that of its cells. -/
theorem Frame.textOf_lineOf (view : View) (cells : List Cell) :
    textOf (Segment.lineOf view cells) = String.ofList (cells.map Grid.glyphOf) := by
  let line := Segment.lineOf view cells
  have hsegment : ∀ s ∈ line, (Segment.expand s).map Drawn.glyph = s.text.toList := by
    intro s _
    rw [Segment.expand, List.map_map]
    exact List.map_id _
  have hdraw : Drawn.glyph ∘ view.draw = Grid.glyphOf := by
    funext c
    rw [Function.comp_apply, View.draw]
  have hglyphs : (textOf line).toList = cells.map Grid.glyphOf := by
    calc (textOf line).toList
      _ = line.flatMap fun s => s.text.toList := by
        rw [textOf, String.toList_join, List.flatMap_map]
      _ = line.flatMap fun s => (Segment.expand s).map Drawn.glyph :=
        (List.flatMap_congr hsegment).symm
      _ = (cells.map view.draw).map Drawn.glyph := by
        rw [← Segment.expand_lineOf, Line.expand, List.map_flatMap]
      _ = cells.map Grid.glyphOf := by
        rw [List.map_map, hdraw]
  rw [← hglyphs, String.ofList_toList]

/-- A full rectangle: there are as many lines as the height says, and each is filled by
segments that are not empty.  The text has a row for each of the lines, of as many
characters as the width says, and none of them is a control character. -/
structure Frame.Rectangular (f : Frame) : Prop where
  length_lines : f.lines.length = f.height
  some_text : ∀ line ∈ f.lines, ∀ s ∈ line, s.text ≠ ""
  sum_width : ∀ line ∈ f.lines, (line.map Segment.width).sum = f.width
  text_rows : ∃ rows : List String, f.toText = String.join (rows.map (· ++ "\n")) ∧
    rows.length = f.height ∧
    ∀ row ∈ rows, row.length = f.width ∧ ∀ c ∈ row.toList, CodePage.isControl c = false

namespace Grid

/-- A row has as many cells as the grid has columns. -/
theorem length_rowCells {g : Grid} (hg : g.Full) {row : Nat} (hrow : row < g.rows) :
    (g.rowCells row).length = g.cols := by
  have hbelow : row * g.cols + g.cols ≤ g.cells.size := by
    rw [hg, ← Nat.succ_mul, Nat.mul_comm g.cols g.rows]
    exact Nat.mul_le_mul_right _ hrow
  rw [rowCells, Array.length_toList, Array.size_extract]
  omega

/-- **A frame that shows a full grid is a full rectangle.** -/
theorem Full.rectangular {g : Grid} (hg : g.Full) {f : Frame} {view : View}
    (hwidth : f.width = g.cols) (hheight : f.height = g.rows) (hlines : f.lines = g.lines view) :
    f.Rectangular := by
  rw [lines_eq] at hlines
  have hlength : f.lines.length = f.height := by
    rw [hlines, List.length_map, List.length_range, hheight]
  have hline : ∀ line ∈ f.lines, ∃ row < g.rows, Segment.lineOf view (g.rowCells row) = line := by
    intro line hmem
    rw [hlines] at hmem
    obtain ⟨row, hrow, hmade⟩ := List.mem_map.1 hmem
    exact ⟨row, List.mem_range.1 hrow, hmade⟩
  refine ⟨hlength, ?_, ?_, f.lines.map Frame.textOf, ?_, ?_, ?_⟩
  · intro line hmem s hs
    obtain ⟨row, -, rfl⟩ := hline line hmem
    exact Segment.text_ne_empty view hs
  · intro line hmem
    obtain ⟨row, hrow, rfl⟩ := hline line hmem
    rw [Segment.sum_width_lineOf, length_rowCells hg hrow, hwidth]
  · rw [Frame.toText, List.map_map]
    rfl
  · rw [List.length_map, hlength]
  · intro text htext
    obtain ⟨line, hmem, rfl⟩ := List.mem_map.1 htext
    obtain ⟨row, hrow, rfl⟩ := hline line hmem
    rw [Frame.textOf_lineOf]
    refine ⟨?_, ?_⟩
    · rw [String.length_ofList, List.length_map, length_rowCells hg hrow, hwidth]
    · intro c hc
      rw [String.toList_ofList] at hc
      obtain ⟨cell, -, rfl⟩ := List.mem_map.1 hc
      exact CodePage.isControl_glyph _

end Grid

/-- A frame that shows a full grid. -/
structure Frame.ShowsGrid (f : Frame) (g : Grid) (view : View) : Prop where
  full : g.Full
  width_eq : f.width = g.cols
  height_eq : f.height = g.rows
  lines_eq : f.lines = g.lines view

namespace Frame.ShowsGrid

variable {f : Frame} {g : Grid} {view : View}

/-- A frame that shows a grid is a rectangle. -/
theorem rectangular (h : f.ShowsGrid g view) : f.Rectangular :=
  h.full.rectangular h.width_eq h.height_eq h.lines_eq

end Frame.ShowsGrid

/-- A frame with the same screen as another one shows its grid. -/
theorem Frame.SameScreen.showsGrid {f f' : Frame} {g : Grid} {view : View} (h : f.SameScreen f')
    (hg : f'.ShowsGrid g view) : f.ShowsGrid g view where
  full := hg.full
  width_eq := h.1.trans hg.width_eq
  height_eq := h.2.1.trans hg.height_eq
  lines_eq := h.2.2.1.trans hg.lines_eq

namespace Session

/-- The size of every frame behind the placeholder. -/
def frameSize (config : Config) (data : List UInt8) : Nat × Nat :=
  if Burst.plan config data.length = [] then (max config.minWidth 1, max config.minHeight 1)
  else (max (sizeFor config data).1 1, max (sizeFor config data).2 1)

/-- Frames are as large as the measuring pass asks for where there is one, and as small as they
may be where there is none. -/
theorem frameSize_eq (config : Config) (data : List UInt8) :
    frameSize config data =
      if config.needsSizing = true ∧ Burst.plan config data.length ≠ [] then
        let pass := measuringPass config data
        (max (config.fitWidth pass.extent.1) 1, max (config.fitHeight pass.extent.2) 1)
      else (max config.minWidth 1, max config.minHeight 1) := by
  rw [frameSize, sizeFor_eq]
  by_cases hplan : Burst.plan config data.length = []
  · rw [if_pos hplan, if_neg fun h => h.2 hplan]
  · rw [if_neg hplan]
    by_cases hsizing : config.needsSizing = true
    · rw [if_pos hsizing, if_pos ⟨hsizing, hplan⟩]
    · rw [if_neg hsizing, if_neg fun h => hsizing h.1]

/-- A blank frame shows a new grid of the smallest size. -/
theorem showsGrid_blank (config : Config) (status : Status) :
    (Frame.blank config status).ShowsGrid (.fresh config.minWidth config.minHeight)
      config.view :=
  ⟨Grid.full_fresh config.minWidth config.minHeight, rfl, rfl, rfl⟩

/-- The grid that a stream is drawn into keeps its size. -/
theorem full_snapshot (config : Config) (data : List UInt8) (count : Nat) {g : Grid}
    (hgrid : (snapshot config data count).grid? = some g) :
    g.Full ∧ g.cols = max (sizeFor config data).1 1 ∧ g.rows = max (sizeFor config data).2 1 := by
  rw [snapshot, Terminal.grid?_process_rendering] at hgrid
  obtain rfl := Option.some.inj hgrid
  exact ⟨Stroke.full_foldl_drawOn (Grid.full_fresh _ _) _ _, Stroke.size_foldl_drawOn _ _ _⟩

/-- **Every turn behind the one that opens the stream** shows a full grid of the same
size. -/
theorem showsGrid_course {config : Config} {s : Session} (hconfig : s.config = config)
    (acquired : Acquired) (source : Source) {n : Nat} {f : Frame}
    (hframe : (Turn.ofMade source (s.begin acquired)).course n = .frame f) :
    ∃ g, f.ShowsGrid g config.view ∧ (f.width, f.height) = frameSize config acquired.data := by
  obtain ⟨hshows, -⟩ := shows_course source hconfig hframe
  unfold ShowsPlayed at hshows
  have hnone : Burst.played config acquired.data.length (n + 1) = 0 ↔ _ :=
    Burst.played_succ_eq_zero_iff n
  unfold frameSize
  by_cases hplan : Burst.plan config acquired.data.length = []
  · rw [if_pos (hnone.2 hplan)] at hshows
    rw [if_pos hplan]
    exact ⟨_, hshows.showsGrid (showsGrid_blank config {}),
      congrArg₂ Prod.mk hshows.1 hshows.2.1⟩
  · rw [if_neg fun hzero => hplan (hnone.1 hzero)] at hshows
    rw [if_neg hplan]
    obtain ⟨g, hgrid, hwidth, hheight, hlines, -⟩ := hshows
    obtain ⟨hfull, hcols, hrows⟩ := full_snapshot config acquired.data _ hgrid
    exact ⟨g, ⟨hfull, hwidth, hheight, hlines⟩,
      congrArg₂ Prod.mk (hwidth.trans hcols) (hheight.trans hrows)⟩

/-- The placeholder shows a full grid, and so does every frame behind it. -/
theorem showsGrid_outcome (config : Config) (sustain : Bool) (source : Source) {n : Nat}
    {f : Frame} (hframe : (unbegun config sustain).outcome source n = .frame f) :
    ∃ g, f.ShowsGrid g config.view ∧ (f.width, f.height) =
      if n < source.placeholders then (max config.minWidth 1, max config.minHeight 1)
      else frameSize config source.yield.data := by
  by_cases hn : n < source.leadIn
  · have hone : source.placeholders = 1 :=
      Source.placeholders_of_leadIn_pos (Nat.zero_lt_of_lt hn)
    rcases turn_of_lt_leadIn config sustain hn with ⟨rfl, -, hturn⟩ | ⟨-, -, -, hturn⟩
    · rw [outcome, hturn] at hframe
      obtain rfl : Frame.blank config {} = f := Step.frame.inj hframe
      rw [hone, if_pos Nat.one_pos]
      exact ⟨_, showsGrid_blank config {}, rfl⟩
    · rw [outcome, hturn] at hframe
      exact absurd hframe Step.noConfusion
  · obtain ⟨k, rfl⟩ := Nat.exists_eq_add_of_le (Nat.le_of_not_lt hn)
    have hbehind : ¬source.leadIn + k < source.placeholders := by
      have hle := source.placeholders_le_leadIn
      omega
    rw [outcome_leadIn] at hframe
    rw [if_neg hbehind]
    exact showsGrid_course (readied_eq config sustain source).1 _ _ hframe

/-- The placeholder is a full rectangle, and so is every frame behind it. -/
theorem framed_outcome (config : Config) (sustain : Bool) (source : Source) {n : Nat} {f : Frame}
    (hframe : (unbegun config sustain).outcome source n = .frame f) :
    f.Rectangular ∧ (f.width, f.height) =
      if n < source.placeholders then (max config.minWidth 1, max config.minHeight 1)
      else frameSize config source.yield.data := by
  obtain ⟨g, hshows, hsize⟩ := showsGrid_outcome config sustain source hframe
  exact ⟨hshows.rectangular, hsize⟩

/-- Usable settings keep every size within their limits. -/
theorem frameSize_within {config : Config} (hfault : config.fault? = none) (data : List UInt8) :
    (max config.minWidth 1 ≤ (frameSize config data).1 ∧
        (frameSize config data).1 ≤ config.maxWidth) ∧
      max config.minHeight 1 ≤ (frameSize config data).2 ∧
        (frameSize config data).2 ≤ config.maxHeight := by
  obtain ⟨⟨hwidth, hheight⟩, hminWidth, hminHeight⟩ := Config.limits_of_fault? hfault
  obtain ⟨hcols, hrows⟩ := sizeFor_le data hwidth hheight hminWidth hminHeight
  have hleast : config.minWidth ≤ (sizeFor config data).1 ∧
      config.minHeight ≤ (sizeFor config data).2 := by
    rw [sizeFor_eq]
    split
    · simp only [Config.fitWidth, Config.fitHeight]
      omega
    · exact ⟨Nat.le_refl _, Nat.le_refl _⟩
  unfold frameSize
  split
  · simp only
    omega
  · simp only
    omega

/-- No frame is smaller than the smallest allowed size and one cell, or larger than the
largest. -/
theorem outcome_within {config : Config} (hfault : config.fault? = none) {sustain : Bool}
    {source : Source} {n : Nat} {f : Frame}
    (hframe : (unbegun config sustain).outcome source n = .frame f) :
    (max config.minWidth 1 ≤ f.width ∧ f.width ≤ config.maxWidth) ∧
      max config.minHeight 1 ≤ f.height ∧ f.height ≤ config.maxHeight := by
  obtain ⟨-, hsize⟩ := framed_outcome config sustain source hframe
  split at hsize
  · obtain ⟨⟨hwidth, hheight⟩, hminWidth, hminHeight⟩ := Config.limits_of_fault? hfault
    obtain ⟨hf, hf'⟩ := Prod.mk.inj hsize
    omega
  · obtain ⟨hf, hf'⟩ := Prod.mk.inj hsize
    rw [hf, hf']
    exact frameSize_within hfault source.yield.data

end Session

namespace Performance

variable {σ : Type} {stage : Stage σ}

end Performance

end BaudReel
