import BaudReel.Proofs.Inks
import BaudReel.Proofs.Scanning
import Mathlib.Data.List.TakeWhile

/-!
# Shortest lines

A line is as short as it can be if each segment goes as far as cells are drawn alike; it
is enough that no two neighbours are drawn alike (`Line.minimal_of_neighbours`).  A line
is cut where the attributes of the cells change, so the question is which attributes can
be drawn alike though they differ.

Where every colour is drawn, none: the cells of a stream have no bits but those that are
drawn.  A transparent view leaves a colour undrawn that the art has not chosen, and of
such a colour the brightness is still in the cell.  Turning it up or down cuts a line
where nothing changes to the eye (`View.HidesBrightness`), and that is the only way
(`View.attributes_eq_iff`).  The main statement is `shortest_but_for_hidden_brightness`;
`hidden_brightness_cuts` is a stream whose line is longer than it has to be.
-/

namespace BaudReel

/-- A line that cannot be told in fewer or longer segments. -/
structure Line.Minimal (line : Line) : Prop where
  /-- Neighbouring segments are not drawn alike. -/
  neighbours : line.IsChain fun s t => s.look ≠ t.look
  /-- The cells before and behind a segment are not drawn like it. -/
  maximal : ∀ front s rest, line = front ++ s :: rest →
    (∀ d ∈ (Line.expand front).getLast?, d.look ≠ s.look) ∧
      ∀ d ∈ (Line.expand rest).head?, d.look ≠ s.look
  /-- Any other line of the same cells has at least as many segments. -/
  shortest : ∀ other, Line.expand other = Line.expand line → line.length ≤ other.length

/-- A segment expands to glyphs that look like it. -/
theorem Segment.map_look_expand (s : Segment) :
    s.expand.map Drawn.look = List.replicate s.width s.look := by
  rw [expand, List.map_map, width, ← String.length_toList]
  show s.text.toList.map (fun _ => s.look) = _
  exact List.map_const'

theorem Segment.expand_ne_nil {s : Segment} (hs : s.text ≠ "") : s.expand ≠ [] := by
  intro hnil
  exact hs (String.toList_eq_nil_iff.1 (List.map_eq_nil_iff.1 hnil))

namespace Line

variable {line : Line}

/-- A line expands to glyphs that look like its segments. -/
theorem map_look_expand (line : Line) :
    (expand line).map Drawn.look = line.flatMap fun s => List.replicate s.width s.look := by
  rw [expand, List.map_flatMap]
  exact List.flatMap_congr fun s _ => s.map_look_expand

/-- The last glyph of a line looks like its last segment. -/
theorem exists_of_getLast?_expand (hne : ∀ s ∈ line, s.text ≠ "") {d : Drawn}
    (hd : d ∈ (expand line).getLast?) : ∃ s ∈ line.getLast?, d.look = s.look := by
  rcases List.eq_nil_or_concat line with rfl | ⟨front, s, rfl⟩
  · exact absurd hd (Option.not_mem_none d)
  · rw [List.concat_eq_append] at hne hd ⊢
    have hlast : expand (front ++ [s]) = expand front ++ s.expand := by
      rw [expand, List.flatMap_append, List.flatMap_singleton]
      rfl
    have hs : s.expand ≠ [] :=
      Segment.expand_ne_nil (hne s (List.mem_append_right _ (List.mem_singleton_self s)))
    rw [hlast, List.getLast?_append_of_ne_nil _ hs] at hd
    exact ⟨s, List.getLast?_concat, Segment.look_of_mem_expand (List.mem_of_getLast? hd)⟩

theorem exists_of_head?_expand (hne : ∀ s ∈ line, s.text ≠ "") {d : Drawn}
    (hd : d ∈ (expand line).head?) : ∃ s ∈ line.head?, d.look = s.look := by
  cases line with
  | nil => exact absurd hd (Option.not_mem_none d)
  | cons s rest =>
    have hs : s.expand ≠ [] := Segment.expand_ne_nil (hne s List.mem_cons_self)
    rw [expand, List.flatMap_cons, List.head?_append_of_ne_nil _ hs] at hd
    exact ⟨s, rfl, Segment.look_of_mem_expand (List.mem_of_head? hd)⟩

/-- Every segment shows its look at least once. -/
theorem map_look_sublist (hne : ∀ s ∈ line, s.text ≠ "") :
    (line.map Segment.look).Sublist ((expand line).map Drawn.look) := by
  rw [map_look_expand]
  induction line with
  | nil => exact List.Sublist.slnil
  | cons s rest ih =>
    obtain ⟨hs, hrest⟩ := List.forall_mem_cons.1 hne
    have hwidth : s.width ≠ 0 := by
      rw [Segment.width, ← String.length_toList]
      exact fun hzero => hs (String.toList_eq_nil_iff.1 (List.length_eq_zero_iff.1 hzero))
    rw [List.map_cons, List.flatMap_cons, ← List.singleton_append]
    refine List.Sublist.append ?_ (ih hrest)
    exact List.singleton_sublist.2 (List.mem_replicate.2 ⟨hwidth, rfl⟩)

/-- Of one look without a change, only one can be taken that differs from its
neighbours. -/
theorem length_le_one {looks : List Look} {look : Look} {count : Nat}
    (hchain : looks.IsChain (· ≠ ·)) (hsub : looks.Sublist (List.replicate count look)) :
    looks.length ≤ 1 := by
  obtain ⟨n, -, rfl⟩ := List.sublist_replicate_iff.1 hsub
  match n with
  | 0 => exact Nat.zero_le 1
  | 1 => exact Nat.le_refl 1
  | n + 2 => exact absurd rfl (List.isChain_cons_cons.1 hchain).1

/-- **Changes need segments.**  Looks that differ from one to the next, picked in order
from the cells of a line, are no more than its segments. -/
theorem length_le_of_sublist {looks : List Look} (hchain : looks.IsChain (· ≠ ·))
    (hsub : looks.Sublist ((expand line).map Drawn.look)) : looks.length ≤ line.length := by
  rw [map_look_expand] at hsub
  induction line generalizing looks with
  | nil =>
    rw [List.sublist_nil.1 hsub]
    exact Nat.le_refl 0
  | cons s rest ih =>
    obtain ⟨first, later, rfl, hfirst, hlater⟩ := List.sublist_append_iff.1 hsub
    obtain ⟨hfirstChain, hlaterChain, -⟩ := List.isChain_append.1 hchain
    have hone := length_le_one hfirstChain hfirst
    have hrest := ih hlaterChain hlater
    rw [List.length_append, List.length_cons]
    omega

/-- **Neighbours decide.**  A line without empty segments is minimal if no two
neighbours are drawn alike. -/
theorem minimal_of_neighbours (hne : ∀ s ∈ line, s.text ≠ "")
    (hneighbours : line.IsChain fun s t => s.look ≠ t.look) : line.Minimal where
  neighbours := hneighbours
  maximal front s rest hline := by
    subst hline
    obtain ⟨-, hbehind, hbefore⟩ := List.isChain_append.1 hneighbours
    refine ⟨fun d hd => ?_, fun d hd => ?_⟩
    · obtain ⟨t, ht, hlook⟩ :=
        exists_of_getLast?_expand (fun t ht => hne t (List.mem_append_left _ ht)) hd
      rw [hlook]
      exact hbefore t ht s rfl
    · obtain ⟨t, ht, hlook⟩ := exists_of_head?_expand
        (fun t ht => hne t (List.mem_append_right _ (List.mem_cons_of_mem s ht))) hd
      rw [hlook]
      exact ((List.isChain_cons.1 hbehind).1 t ht).symm
  shortest other hother := by
    have hchain : (line.map Segment.look).IsChain (· ≠ ·) :=
      (List.isChain_map Segment.look).2 hneighbours
    have hsub := map_look_sublist hne
    rw [← hother] at hsub
    rw [← List.length_map Segment.look]
    exact length_le_of_sublist hchain hsub

end Line

namespace View

variable (view : View)

/-- How a cell is drawn, whatever its glyph. -/
def look (c : Cell) : Look :=
  (view.draw c).look

/-- Two cells are drawn alike, but a colour that is left undrawn in both of them differs
in its brightness. -/
def HidesBrightness (c d : Cell) : Prop :=
  view.look c = view.look d ∧
    (c.fgExplicit = false ∧ d.fgExplicit = false ∧ c.fg % 8 = d.fg % 8 ∧ c.fg ≠ d.fg ∨
      c.bgExplicit = false ∧ d.bgExplicit = false ∧ c.bg % 8 = d.bg % 8 ∧ c.bg ≠ d.bg)

variable {view} {c d : Cell}

/-- Cells with the same attributes are drawn alike. -/
theorem look_eq_of_attributes_eq (h : c.attributes = d.attributes) :
    view.look c = view.look d := by
  obtain ⟨hfg, hbg, hfgSet, hbgSet⟩ := Cell.fields_of_attributes_eq h
  have hblink : c.blinkBit = d.blinkBit := by rw [Cell.blinkBit_eq, Cell.blinkBit_eq, hbg]
  simp only [look, draw, Drawn.look, hfg, hbg, hfgSet, hbgSet, hblink]

/-- Foregrounds drawn alike are equal or undrawn. -/
theorem fg_of_look_eq (h : view.look c = view.look d) :
    (view.transparency = true → c.fgExplicit = d.fgExplicit) ∧
      (c.fg = d.fg ∨
        view.transparency = true ∧ c.fgExplicit = false ∧ d.fgExplicit = false) := by
  have hfg : (view.draw c).fg = (view.draw d).fg := congrArg Look.fg h
  grind [draw]

/-- Backgrounds drawn alike are equal or undrawn.  Where blinking is shown, the bit that
is taken out of the colour is shown by the blinking. -/
theorem bg_of_look_eq (h : view.look c = view.look d) :
    (view.transparency = true → c.bgExplicit = d.bgExplicit) ∧
      (c.bg = d.bg ∨
        view.transparency = true ∧ c.bgExplicit = false ∧ d.bgExplicit = false) := by
  have hbg : (view.draw c).bg = (view.draw d).bg := congrArg Look.bg h
  have hblink : (view.draw c).blink = (view.draw d).blink := congrArg Look.blink h
  have hcBg : c.bg < 16 := Nat.mod_lt _ (by decide)
  have hdBg : d.bg < 16 := Nat.mod_lt _ (by decide)
  have hbits : c.bg % 8 = d.bg % 8 → (8 ≤ c.bg ↔ 8 ≤ d.bg) → c.bg = d.bg := by omega
  simp only [draw, Cell.blinkBit_eq] at hbg hblink
  grind

/-- **What cuts a line.**  Cells of a stream that are drawn alike have the same attributes
unless they hide a change of brightness. -/
theorem attributes_eq_iff (hc : c.Inked view.transparency) (hd : d.Inked view.transparency)
    (hlook : view.look c = view.look d) :
    c.attributes = d.attributes ↔ ¬view.HidesBrightness c d := by
  constructor
  · intro hattributes hhides
    obtain ⟨hfg, hbg, -⟩ := Cell.fields_of_attributes_eq hattributes
    rcases hhides.2 with ⟨-, -, -, hne⟩ | ⟨-, -, -, hne⟩
    · exact hne hfg
    · exact hne hbg
  · intro hshown
    obtain ⟨hfgSet, hfg⟩ := fg_of_look_eq hlook
    obtain ⟨hbgSet, hbg⟩ := bg_of_look_eq hlook
    have hflags : c.fgExplicit = d.fgExplicit ∧ c.bgExplicit = d.bgExplicit := by
      cases htransparent : view.transparency with
      | true => exact ⟨hfgSet htransparent, hbgSet htransparent⟩
      | false =>
        obtain ⟨hcFg, hcBg⟩ := hc.unrecorded htransparent
        obtain ⟨hdFg, hdBg⟩ := hd.unrecorded htransparent
        exact ⟨hcFg.trans hdFg.symm, hcBg.trans hdBg.symm⟩
    -- an undrawn colour is one of two, so it could differ in nothing but its brightness
    have hfgEq : c.fg = d.fg := by
      rcases hfg with hsame | ⟨htransparent, hcUnset, hdUnset⟩
      · exact hsame
      · by_contra hne
        have hbase : c.fg % 8 = d.fg % 8 := by
          rw [hc.fg_of_unchosen htransparent hcUnset, hd.fg_of_unchosen htransparent hdUnset]
        exact hshown ⟨hlook, .inl ⟨hcUnset, hdUnset, hbase, hne⟩⟩
    have hbgEq : c.bg = d.bg := by
      rcases hbg with hsame | ⟨htransparent, hcUnset, hdUnset⟩
      · exact hsame
      · by_contra hne
        have hbase : c.bg % 8 = d.bg % 8 := by
          rw [hc.bg_of_unchosen htransparent hcUnset, hd.bg_of_unchosen htransparent hdUnset]
        exact hshown ⟨hlook, .inr ⟨hcUnset, hdUnset, hbase, hne⟩⟩
    exact Cell.attributes_eq_of_fields hc.bits_lt hd.bits_lt hfgEq hbgEq hflags.1 hflags.2

/-- Where every colour is drawn, no brightness is hidden. -/
theorem not_hidesBrightness (hsolid : view.transparency = false) :
    ¬view.HidesBrightness c d := by
  rintro ⟨hlook, hcolour⟩
  have hfg := (fg_of_look_eq hlook).2
  have hbg := (bg_of_look_eq hlook).2
  grind

end View

namespace Segment

variable (view : View)

/-- A segment is drawn like the first of its cells. -/
theorem look_of (text : String) (first : Cell) : (of view text first).look = view.look first := by
  grind [of, look, View.look, View.draw, Drawn.look]

/-- The first run of a row, and the line of the rest. -/
theorem map_look_lineOf_cons (first : Cell) (cells : List Cell) :
    (lineOf view (first :: cells)).map look =
      view.look first ::
        (lineOf view (cells.dropWhile fun c => c.attributes == first.attributes)).map look := by
  generalize hsame : (fun c : Cell => c.attributes == first.attributes) = same
  have hrun : ∀ c ∈ cells.takeWhile same, c.attributes = first.attributes := by
    intro c hc
    have hpass := List.mem_takeWhile_imp hc
    rw [← hsame] at hpass
    exact beq_iff_eq.1 hpass
  have hchange : ∀ c ∈ (first :: cells.takeWhile same).getLast?,
      ∀ d ∈ (cells.dropWhile same).head?, c.attributes ≠ d.attributes := by
    intro c hc d hd hequal
    have hstop := List.head?_dropWhile_not same cells
    rw [Option.mem_def.1 hd] at hstop
    have hlast : c.attributes = first.attributes := by
      rcases List.mem_cons.1 (List.mem_of_getLast? hc) with rfl | hc
      · rfl
      · exact hrun c hc
    simp only [← hsame, ← hequal, hlast, beq_self_eq_true, Bool.true_eq_false] at hstop
  have hline : lineOf view (first :: cells) =
      of view (String.ofList ((first :: cells.takeWhile same).map Grid.glyphOf)) first ::
        lineOf view (cells.dropWhile same) := by
    calc lineOf view (first :: cells)
      _ = lineOf view ((first :: cells.takeWhile same) ++ cells.dropWhile same) := by
        rw [List.cons_append, List.takeWhile_append_dropWhile]
      _ = lineOf view (first :: cells.takeWhile same) ++ lineOf view (cells.dropWhile same) :=
        lineOf_append view hchange
      _ = _ := by
        rw [lineOf_run view hrun]
        rfl
  rw [hline, List.map_cons, look_of]

/-- A cell with the attributes of the next one adds no segment. -/
theorem map_look_lineOf_of_same {c d : Cell} (rest : List Cell)
    (h : c.attributes = d.attributes) :
    (lineOf view (c :: d :: rest)).map look = (lineOf view (d :: rest)).map look := by
  have hdrop : (d :: rest).dropWhile (fun e => e.attributes == c.attributes) =
      rest.dropWhile fun e => e.attributes == c.attributes :=
    List.dropWhile_cons_of_pos (beq_iff_eq.2 h.symm)
  rw [map_look_lineOf_cons, map_look_lineOf_cons, View.look_eq_of_attributes_eq h, hdrop, h]

/-- A cell with other attributes than the next one is a segment of its own. -/
theorem map_look_lineOf_of_change {c d : Cell} (rest : List Cell)
    (h : c.attributes ≠ d.attributes) :
    (lineOf view (c :: d :: rest)).map look =
      view.look c :: (lineOf view (d :: rest)).map look := by
  rw [map_look_lineOf_cons view c, List.dropWhile_cons_of_neg]
  exact fun hsame => h (beq_iff_eq.1 hsame).symm

/-- Neighbouring segments are drawn differently just if no change of attributes goes
unseen. -/
theorem isChain_look_lineOf_iff (cells : List Cell) :
    ((lineOf view cells).map look).IsChain (· ≠ ·) ↔
      cells.IsChain fun c d => view.look c = view.look d → c.attributes = d.attributes := by
  match cells with
  | [] => exact iff_of_true List.isChain_nil List.isChain_nil
  | [c] =>
    rw [map_look_lineOf_cons]
    exact iff_of_true (List.isChain_singleton _) (List.isChain_singleton _)
  | c :: d :: rest =>
    have ih := isChain_look_lineOf_iff (d :: rest)
    rw [List.isChain_cons_cons]
    by_cases hsame : c.attributes = d.attributes
    · rw [map_look_lineOf_of_same view rest hsame, ih]
      exact (and_iff_right fun _ => hsame).symm
    · rw [map_look_lineOf_of_change view rest hsame, List.isChain_cons, ih,
        map_look_lineOf_cons]
      refine and_congr_left fun _ => ⟨fun hhead hlook => ?_, fun hseen look hlook => ?_⟩
      · exact absurd hlook (hhead _ rfl)
      · obtain rfl := Option.some.inj hlook
        exact fun hequal => hsame (hseen hequal)

/-- **Minimal lines.**  The line of a row is minimal just if no change of attributes goes
unseen. -/
theorem minimal_lineOf_iff (cells : List Cell) :
    (lineOf view cells).Minimal ↔
      cells.IsChain fun c d => view.look c = view.look d → c.attributes = d.attributes := by
  rw [← isChain_look_lineOf_iff, List.isChain_map]
  exact ⟨Line.Minimal.neighbours,
    Line.minimal_of_neighbours fun s hs => text_ne_empty view hs⟩

end Segment

namespace Grid

variable {g : Grid} {row : Nat}

/-- What holds of neighbours in a row, by their places. -/
theorem isChain_rowCells_iff (hg : g.Full) (hrow : row < g.rows) {R : Cell → Cell → Prop} :
    (g.rowCells row).IsChain R ↔
      ∀ col c d, g.get? col row = some c → g.get? (col + 1) row = some d → R c d := by
  rw [List.isChain_iff_getElem]
  constructor
  · intro h col c d hc hd
    rw [← getElem?_rowCells hg hrow] at hc hd
    obtain ⟨hnext, rfl⟩ := List.getElem?_eq_some_iff.1 hd
    obtain ⟨hcol, rfl⟩ := List.getElem?_eq_some_iff.1 hc
    exact h col hnext
  · intro h col hnext
    refine h col _ _ ?_ ?_
    · rw [← getElem?_rowCells hg hrow]
      exact List.getElem?_eq_getElem _
    · rw [← getElem?_rowCells hg hrow]
      exact List.getElem?_eq_getElem _

/-- A scanned line is that of a row of cells. -/
theorem of_getElem?_scan {view : View} {line : Line} (h : (g.scan view).lines[row]? = some line) :
    row < g.rows ∧ line = Segment.lineOf view (g.rowCells row) := by
  rw [scan, lines_eq, List.getElem?_map, Option.map_eq_some_iff] at h
  obtain ⟨place, hplace, hline⟩ := h
  obtain ⟨hrow, rfl⟩ := List.getElem?_eq_some_iff.1 hplace
  rw [List.length_range] at hrow
  rw [List.getElem_range] at hline
  exact ⟨hrow, hline.symm⟩

end Grid

/-- **Lines are as short as they can be, but for hidden brightness.**  Let a screen be
drawn from any stretch of a stream, whatever its size, and scanned with the settings it
was drawn for.  Each line draws the cells of its row.  If every colour is drawn, the line
is minimal.  On a transparent screen it is minimal just if it does not have two
neighbouring cells that are drawn alike, and of which an undrawn colour differs in its
brightness. -/
theorem shortest_but_for_hidden_brightness (cols rows maxCols maxRows : Nat) (view : View)
    (bytes : List UInt8) :
    ∃ g, ((Terminal.rendering cols rows maxCols maxRows view.transparency).process
        bytes).grid? = some g ∧
      ∀ row line, (g.scan view).lines[row]? = some line →
        (∀ col, (Line.expand line)[col]? = (g.get? col row).map view.draw) ∧
        (view.transparency = false → line.Minimal) ∧
        (line.Minimal ↔ ∀ col c d, g.get? col row = some c → g.get? (col + 1) row = some d →
          ¬view.HidesBrightness c d) := by
  obtain ⟨g, hgrid, hfull, hstamped⟩ :=
    Terminal.exists_stampedBy cols rows maxCols maxRows view.transparency bytes
  have hinked : ∀ col row c, g.get? col row = some c → c.Inked view.transparency := by
    intro col row c hc
    obtain ⟨pen, codepoint, hpen, rfl⟩ := hstamped col row c hc
    exact hpen.inked_stamp codepoint view.transparency
  refine ⟨g, hgrid, fun row line hline => ?_⟩
  obtain ⟨hrow, rfl⟩ := Grid.of_getElem?_scan hline
  have hiff : (Segment.lineOf view (g.rowCells row)).Minimal ↔
      ∀ col c d, g.get? col row = some c → g.get? (col + 1) row = some d →
        ¬view.HidesBrightness c d := by
    rw [Segment.minimal_lineOf_iff, Grid.isChain_rowCells_iff hfull hrow]
    constructor
    · intro h col c d hc hd hhides
      have hattributes := h col c d hc hd hhides.1
      exact (View.attributes_eq_iff (hinked _ _ _ hc) (hinked _ _ _ hd) hhides.1).1
        hattributes hhides
    · intro h col c d hc hd hlook
      exact (View.attributes_eq_iff (hinked _ _ _ hc) (hinked _ _ _ hd) hlook).2
        (h col c d hc hd)
  refine ⟨fun col => ?_, fun hsolid => ?_, hiff⟩
  · rw [Segment.expand_lineOf, List.getElem?_map, Grid.getElem?_rowCells hfull hrow]
  · exact hiff.2 fun _ _ _ _ _ => View.not_hidesBrightness hsolid

/-- A letter, the bright foreground turned on, and another letter. -/
def brightened : List UInt8 :=
  [0x61, 0x1B, 0x5B, 0x31, 0x6D, 0x62]

/-- Where every colour is drawn, the letters are drawn differently and need two
segments. -/
theorem shortest_but_for_hidden_brightness_opaque :
    ∃ g, ((Terminal.rendering 2 1 2 1 false).process brightened).grid? = some g ∧
      ∃ line : Line, (g.scan {}).lines[0]? = some line ∧ line.length = 2 ∧ line.Minimal := by
  obtain ⟨g, hgrid, hlines⟩ := shortest_but_for_hidden_brightness 2 1 2 1 {} brightened
  have hcells : ((Terminal.rendering 2 1 2 1 false).process brightened).grid? =
      some ⟨2, 1, #[⟨0x7061⟩, ⟨0xF062⟩]⟩ := by decide +kernel
  obtain rfl : ⟨2, 1, #[⟨0x7061⟩, ⟨0xF062⟩]⟩ = g := Option.some.inj (hcells.symm.trans hgrid)
  have hline : (Grid.scan ⟨2, 1, #[⟨0x7061⟩, ⟨0xF062⟩]⟩ {}).lines[0]? =
      some [⟨"a", some 7, some 0, false, false⟩, ⟨"b", some 15, some 0, false, false⟩] := by
    decide +kernel
  exact ⟨_, hcells, _, hline, rfl, (hlines 0 _ hline).2.1 rfl⟩

/-- **Hidden brightness cuts a line.**  On a transparent screen neither of the letters has
a colour of its own, so one segment would do; the scanner gives two. -/
theorem hidden_brightness_cuts :
    ∃ g, ((Terminal.rendering 2 1 2 1 true).process brightened).grid? = some g ∧
      ∃ line : Line, (g.scan { transparency := true }).lines[0]? = some line ∧
        line = [⟨"a", none, none, false, true⟩, ⟨"b", none, none, false, true⟩] ∧
        Line.expand [⟨"ab", none, none, false, true⟩] = Line.expand line ∧ ¬line.Minimal := by
  have hcells : ((Terminal.rendering 2 1 2 1 true).process brightened).grid? =
      some ⟨2, 1, #[⟨0x7061⟩, ⟨0xF062⟩]⟩ := by decide +kernel
  have hline : (Grid.scan ⟨2, 1, #[⟨0x7061⟩, ⟨0xF062⟩]⟩ { transparency := true }).lines[0]? =
      some [⟨"a", none, none, false, true⟩, ⟨"b", none, none, false, true⟩] := by decide +kernel
  have hone : Line.expand [⟨"ab", none, none, false, true⟩] =
      Line.expand [⟨"a", none, none, false, true⟩, ⟨"b", none, none, false, true⟩] := by
    decide +kernel
  refine ⟨_, hcells, _, hline, rfl, hone, fun hminimal => ?_⟩
  exact absurd (hminimal.shortest _ hone) (by decide)

end BaudReel
