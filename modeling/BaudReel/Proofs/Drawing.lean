import BaudReel.Proofs.Origin
import BaudReel.Proofs.Runs
import BaudReel.Proofs.Snapshot

/-!
# Lines show every cell

Grouping the cells of a row into segments loses nothing: taken apart again, the
segments draw each cell as the view draws it by itself (`expand_lineOf`), since the
cells of a run have the attributes of its first one.  A frame that shows a grid
therefore shows each of its cells (`Frame.Shows.drawnAt_eq`), and where blinking is
shown it blinks just if one of them does (`Grid.anyBlinks_lines_iff`).
-/

namespace BaudReel

namespace Segment

/-- The cells of a run have the attributes of its first one. -/
theorem attributes_of_mem_runs {cells run : List Cell} (hrun : run ∈ runs cells) {first : Cell}
    (hfirst : run.head? = some first) : ∀ c ∈ run, c.attributes = first.attributes := by
  obtain ⟨rest, rfl⟩ := List.head?_eq_some_iff.1 hfirst
  have hchain : (first :: rest).IsChain fun a b => a.attributes = b.attributes :=
    (List.isChain_of_mem_splitBy hrun).imp fun a b hab => eq_of_beq hab
  have htrans : IsTrans Cell fun a b => a.attributes = b.attributes :=
    ⟨fun _ _ _ hab hbc => hab.trans hbc⟩
  have hpairs := List.isChain_iff_pairwise.1 hchain
  intro c hc
  rcases List.mem_cons.1 hc with rfl | hlater
  · rfl
  · exact ((List.pairwise_cons.1 hpairs).1 c hlater).symm

theorem flatMap_filterMap {α β γ : Type} (f : α → Option β) (g : β → List γ) (l : List α) :
    (l.filterMap f).flatMap g = l.flatMap fun a => ((f a).map g).getD [] := by
  induction l with
  | nil => rfl
  | cons a l ih =>
    rw [List.filterMap_cons, List.flatMap_cons, ← ih]
    cases f a <;> rfl

/-- **Grouping loses nothing.** -/
theorem expand_lineOf (view : View) (cells : List Cell) :
    Line.expand (lineOf view cells) = cells.map view.draw := by
  have hrun : ∀ run ∈ runs cells,
      ((ofRun? view run).map expand).getD [] = run.map view.draw := by
    intro run hrun
    obtain ⟨first, hfirst⟩ := Option.isSome_iff_exists.1
      (List.isSome_head?.2 (List.ne_nil_of_mem_splitBy hrun))
    exact expand_ofRun? view hfirst (attributes_of_mem_runs hrun hfirst)
  calc Line.expand (lineOf view cells)
    _ = Line.expand (ofRuns view cells) := by rw [lineOf_eq]
    _ = (runs cells).flatMap fun run => ((ofRun? view run).map expand).getD [] :=
      flatMap_filterMap _ _ _
    _ = (runs cells).flatMap fun run => run.map view.draw := List.flatMap_congr hrun
    _ = (runs cells).flatten.map view.draw := List.map_flatten.symm
    _ = cells.map view.draw := by rw [runs, List.flatten_splitBy]

/-- A segment blinks as one of the cells does. -/
theorem exists_blink_of_mem_lineOf {view : View} {cells : List Cell} {s : Segment}
    (hs : s ∈ lineOf view cells) :
    ∃ c ∈ cells, s.blink = (view.blinkMode.isEnabled && c.blinkBit) := by
  obtain ⟨run, hrun, first, hfirst, rfl⟩ := exists_run_of_mem_lineOf hs
  refine ⟨first, ?_, rfl⟩
  have hmem : first ∈ (runs cells).flatten :=
    List.mem_flatten.2 ⟨run, hrun, List.mem_of_head? hfirst⟩
  rwa [runs, List.flatten_splitBy] at hmem

/-- Every cell of a row is drawn by a segment of its line. -/
theorem exists_mem_lineOf (view : View) {cells : List Cell} {c : Cell} (hc : c ∈ cells) :
    ∃ s ∈ lineOf view cells, view.draw c ∈ s.expand := by
  have hdrawn : view.draw c ∈ Line.expand (lineOf view cells) := by
    rw [expand_lineOf]
    exact List.mem_map_of_mem hc
  exact List.mem_flatMap.1 hdrawn

/-- All glyphs of a segment are drawn alike. -/
theorem look_of_mem_expand {s : Segment} {d : Drawn} (hd : d ∈ s.expand) : d.look = s.look := by
  obtain ⟨glyph, -, rfl⟩ := List.mem_map.1 hd
  rfl

end Segment

namespace Grid

variable {g : Grid}

/-- The cells of one row, in order. -/
def rowCells (g : Grid) (row : Nat) : List Cell :=
  (g.cells.extract (row * g.cols) (row * g.cols + g.cols)).toList

/-- The cells of a row are those of the grid. -/
theorem getElem?_rowCells (hg : g.Full) {row : Nat} (hrow : row < g.rows) (col : Nat) :
    (g.rowCells row)[col]? = g.get? col row := by
  have hbelow : row * g.cols + g.cols ≤ g.cells.size := by
    rw [hg, ← Nat.succ_mul, Nat.mul_comm g.cols g.rows]
    exact Nat.mul_le_mul_right _ hrow
  rw [rowCells, Array.getElem?_toList, get?]
  by_cases hcol : col < g.cols
  · have hindex : row * g.cols + col < g.cells.size := by omega
    rw [if_pos ⟨hcol, hrow⟩, Array.getElem?_extract_of_lt (by omega),
      Array.getElem?_eq_getElem hindex]
  · rw [if_neg fun h => hcol h.1]
    apply Array.getElem?_eq_none
    rw [Array.size_extract]
    omega

/-- Each row of a grid is scanned on its own. -/
theorem lines_eq (g : Grid) (view : View) :
    g.lines view = (List.range g.rows).map fun row => Segment.lineOf view (g.rowCells row) := by
  have hrows : g.rowList = (List.range g.rows).map g.rowCells := by
    rw [rowList, ← List.filterMap_eq_map]
    apply List.filterMap_congr
    intro row hrow
    exact if_pos (List.mem_range.1 hrow)
  rw [lines, hrows, List.map_map]
  rfl

/-- The lines of a full grid draw each of its cells, and nothing elsewhere. -/
theorem expand_lines (hg : g.Full) (view : View) (col row : Nat) :
    ((g.lines view)[row]?.bind fun line => (Line.expand line)[col]?) =
      (g.get? col row).map view.draw := by
  rw [lines_eq, List.getElem?_map]
  by_cases hrow : row < g.rows
  · rw [List.getElem?_range hrow, Option.map_some, Option.bind_some, Segment.expand_lineOf,
      List.getElem?_map, getElem?_rowCells hg hrow]
  · rw [List.getElem?_eq_none (by rw [List.length_range]; omega),
      get?_of_not_inside fun h => hrow h.2]
    rfl

/-- The cells of a full grid are those at its places. -/
theorem mem_cells_iff (hg : g.Full) {c : Cell} :
    c ∈ g.cells ↔ ∃ col row, g.get? col row = some c := by
  constructor
  · intro hc
    obtain ⟨i, hi, rfl⟩ := Array.mem_iff_getElem.1 hc
    have hsize : i < g.cols * g.rows := hg ▸ hi
    have hcols : 0 < g.cols := Nat.pos_of_mul_pos_right (Nat.zero_lt_of_lt hsize)
    have hinside : g.Inside (i % g.cols) (i / g.cols) :=
      ⟨Nat.mod_lt i hcols, Nat.div_lt_of_lt_mul hsize⟩
    have hplace : i / g.cols * g.cols + i % g.cols = i := by
      rw [Nat.mul_comm]
      exact Nat.div_add_mod i g.cols
    exact ⟨_, _, by rw [get?_of_inside hinside, hplace, Array.getElem?_eq_getElem hi]⟩
  · rintro ⟨col, row, hc⟩
    rw [get?_of_inside (inside_of_get? hc)] at hc
    exact Array.mem_of_getElem? hc

/-- Something blinks just if blinking is shown and some cell has the blink bit. -/
theorem anyBlinks_lines_iff (hg : g.Full) (view : View) :
    anyBlinks (g.lines view) = true ↔ view.blinkMode.isEnabled = true ∧
      ∃ col row c, g.get? col row = some c ∧ c.blinkBit = true := by
  rw [lines_eq, anyBlinks, List.any_eq_true]
  constructor
  · rintro ⟨line, hline, hany⟩
    obtain ⟨row, hrow, rfl⟩ := List.mem_map.1 hline
    obtain ⟨s, hs, hblink⟩ := List.any_eq_true.1 hany
    obtain ⟨c, hc, hcell⟩ := Segment.exists_blink_of_mem_lineOf hs
    obtain ⟨henabled, hbit⟩ := Bool.and_eq_true_iff.1 (hcell.symm.trans hblink)
    obtain ⟨col, hcol⟩ := List.getElem?_of_mem hc
    rw [getElem?_rowCells hg (List.mem_range.1 hrow)] at hcol
    exact ⟨henabled, col, row, c, hcol, hbit⟩
  · rintro ⟨henabled, col, row, c, hcell, hbit⟩
    have hrow : row < g.rows := (inside_of_get? hcell).2
    rw [← getElem?_rowCells hg hrow] at hcell
    obtain ⟨s, hs, hdrawn⟩ :=
      Segment.exists_mem_lineOf view (List.mem_of_getElem? hcell)
    refine ⟨_, List.mem_map_of_mem (List.mem_range.2 hrow), List.any_eq_true.2 ⟨s, hs, ?_⟩⟩
    have hblink : (view.draw c).blink = s.blink :=
      congrArg Look.blink (Segment.look_of_mem_expand hdrawn)
    rw [← hblink, View.draw, henabled, hbit]
    rfl

/-- Where no cell has the blink bit, nothing blinks. -/
theorem anyBlinks_lines (hg : g.Full) (view : View)
    (hsteady : ∀ col row c, g.get? col row = some c → c.blinkBit = false) :
    anyBlinks (g.lines view) = false := by
  rw [← Bool.not_eq_true, anyBlinks_lines_iff hg]
  rintro ⟨-, col, row, c, hcell, hbit⟩
  rw [hsteady col row c hcell] at hbit
  exact Bool.false_ne_true hbit

end Grid

/-- How a frame draws the cell at a place, if it has one there. -/
def Frame.drawnAt (f : Frame) (col row : Nat) : Option Drawn :=
  f.lines[row]?.bind fun line => (Line.expand line)[col]?

/-- **A frame shows every cell** of its grid. -/
theorem Frame.Shows.drawnAt_eq {f : Frame} {t : Terminal} {view : View} (h : f.Shows t view)
    {g : Grid} (hgrid : t.grid? = some g) (hg : g.Full) (col row : Nat) :
    f.drawnAt col row = (g.get? col row).map view.draw := by
  obtain ⟨shown, hshown, -, -, hlines, -⟩ := h
  obtain rfl : shown = g := Option.some.inj (hshown.symm.trans hgrid)
  rw [Frame.drawnAt, hlines]
  exact Grid.expand_lines hg view col row

end BaudReel
