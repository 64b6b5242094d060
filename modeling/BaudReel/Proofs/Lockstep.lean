import BaudReel.Proofs.Sizing

/-!
# The two passes run in lockstep

A stream is read twice, once to measure it and once to draw it.  Reader, pen and
cursor take the same course in both passes, because the head never asks the
canvas anything.  The measured size is therefore the size that the drawing pass
needs: none of its glyphs falls off the screen, not even under settings that
contradict themselves (`passes_run_in_lockstep`).
-/

namespace BaudReel

namespace Terminal

/-- A glyph lands: the place to print at is on the screen, and behind the print
it holds the glyph's cell. -/
def Lands (t : Terminal) (codepoint : UInt8) (transparency : Bool) : Prop :=
  ∃ g drawn : Grid, t.grid? = some g ∧ (t.apply (.print codepoint)).grid? = some drawn ∧
    g.Inside t.head.cursor.col t.head.printRow ∧
    drawn.get? t.head.cursor.col t.head.printRow =
      some (t.head.pen.stamp codepoint transparency)

/-- Terminals with the same limits read alike, whatever they draw on. -/
theorem process_agrees {t u : Terminal} (hparser : t.parser = u.parser) (hhead : t.head = u.head)
    (hend : t.endOfText = u.endOfText) (bytes : List UInt8) :
    (t.process bytes).parser = (u.process bytes).parser ∧
      (t.process bytes).head = (u.process bytes).head ∧
      (t.process bytes).endOfText = (u.process bytes).endOfText := by
  refine ⟨?_, ?_, ?_⟩
  · rw [parser_process, parser_process, hparser]
  · rw [head_process, head_process, hparser, hhead]
  · rw [endOfText_process, endOfText_process, hparser, hend]

/-- A glyph that is printed inside the screen lands there. -/
theorem lands_of_inside {cols rows maxCols maxRows : Nat} {transparency : Bool}
    {before : List Action} {codepoint : UInt8}
    (hcol : ((Head.fresh maxCols maxRows).after before).cursor.col < max cols 1)
    (hrow : ((Head.fresh maxCols maxRows).after before).printRow < max rows 1) :
    (before.foldl apply (rendering cols rows maxCols maxRows transparency)).Lands codepoint
      transparency := by
  have hinbound := (Head.inbound_fresh maxCols maxRows).after before
  generalize hhead : (Head.fresh maxCols maxRows).after before = head at hcol hrow hinbound
  have hthead : (before.foldl apply
      (rendering cols rows maxCols maxRows transparency)).head = head := by
    rw [head_foldl_apply]
    exact hhead
  obtain ⟨scroll, hprint, -⟩ := head.strokes_print hinbound.rows_pos codepoint
  have hbefore := grid?_foldl_apply_rendering cols rows maxCols maxRows transparency before
  have hbehind := grid?_foldl_apply_rendering cols rows maxCols maxRows transparency
    (before ++ [.print codepoint])
  -- the glyph's cell is the last stroke, behind whatever scrolling it caused
  have hlast : head.strokes [.print codepoint] =
      scroll ++ [.put head.cursor.col head.printRow codepoint head.pen] := by
    rw [Head.strokes, Head.strokes, List.append_nil]
    exact hprint
  rw [List.foldl_append, Head.strokes_append, hhead, hlast, ← List.append_assoc,
    List.foldl_append] at hbehind
  refine ⟨_, _, hbefore, hbehind, ?_, ?_⟩
  · rw [hthead, Grid.Inside, (Stroke.size_foldl_drawOn _ _ _).1, (Stroke.size_foldl_drawOn _ _ _).2]
    exact ⟨hcol, hrow⟩
  · rw [hthead]
    have hfull := Stroke.full_foldl_drawOn (Grid.full_fresh cols rows) transparency
      ((Head.fresh maxCols maxRows).strokes before ++ scroll)
    obtain ⟨hcols, hrows⟩ := Stroke.size_foldl_drawOn (.fresh cols rows) transparency
      ((Head.fresh maxCols maxRows).strokes before ++ scroll)
    refine (Grid.get?_set hfull _ _ _ _ _).trans (if_pos ⟨rfl, rfl, ?_⟩)
    rw [Grid.Inside, hcols, hrows]
    exact ⟨hcol, hrow⟩

end Terminal

/-- Every place printed at in a stream is within what the stream reaches, and
within the limits. -/
theorem print_le_reachOf (config : Config) {data : List UInt8} {before later : List Action}
    {codepoint : UInt8}
    (hcut : (Parser.initial.parse data).2 = before ++ .print codepoint :: later) :
    let head := (Head.fresh config.maxWidth config.maxHeight).after before
    (head.cursor.col < max config.maxWidth 1 ∧ head.printRow < max config.maxHeight 1) ∧
      head.cursor.col ≤ (Session.reachOf config data).1 ∧
      head.printRow ≤ (Session.reachOf config data).2 := by
  intro head
  have hinbound := Head.inbound_fresh config.maxWidth config.maxHeight
  have hput : .put head.cursor.col head.printRow codepoint head.pen ∈
      (Head.fresh config.maxWidth config.maxHeight).strokes (Parser.initial.parse data).2 := by
    obtain ⟨scroll, hprint, -⟩ := head.strokes_print (hinbound.after before).rows_pos codepoint
    have hmem : .put head.cursor.col head.printRow codepoint head.pen ∈
        (head.apply (.print codepoint)).2 := by
      rw [Head.apply, hprint]
      exact List.mem_append_right _ List.mem_cons_self
    rw [hcut, Head.strokes_append]
    exact List.mem_append_right _ (List.mem_append_left _ hmem)
  exact ⟨hinbound.below_strokes hput, Stroke.put_le_foldl_reach hput (0, 0)⟩

/-- **The two passes run in lockstep.**  Behind every stretch of bytes a
measuring and a drawing terminal agree in reader, pen, cursor and end of text,
and the cursor's columns are in front of the wrap column.  On a screen of the
measured size, under whatever settings, every glyph of the stream lands, in a
row in front of the scroll row. -/
theorem passes_run_in_lockstep :
    (∀ (maxCols maxRows cols rows : Nat) (transparency : Bool) (bytes : List UInt8),
      let measured := (Terminal.measuring maxCols maxRows).process bytes
      let drawn := (Terminal.rendering cols rows maxCols maxRows transparency).process bytes
      (measured.parser = drawn.parser ∧ measured.head.pen = drawn.head.pen ∧
        measured.head.cursor = drawn.head.cursor ∧ measured.endOfText = drawn.endOfText) ∧
      drawn.head.cursor.col < max maxCols 1 ∧ drawn.head.cursor.savedCol < max maxCols 1) ∧
    ∀ (config : Config) (transparency : Bool) (data : List UInt8) (before later : List Action)
      (codepoint : UInt8),
      (Parser.initial.parse data).2 = before ++ .print codepoint :: later →
      let size := Session.sizeFor config data
      let drawn := before.foldl Terminal.apply
        (.rendering size.1 size.2 config.maxWidth config.maxHeight transparency)
      drawn.Lands codepoint transparency ∧ drawn.head.printRow < max config.maxHeight 1 := by
  refine ⟨?_, ?_⟩
  · intro maxCols maxRows cols rows transparency bytes measured drawn
    obtain ⟨hparser, hhead, hend⟩ : measured.parser = drawn.parser ∧
        measured.head = drawn.head ∧ measured.endOfText = drawn.endOfText :=
      Terminal.process_agrees (t := .measuring maxCols maxRows)
        (u := .rendering cols rows maxCols maxRows transparency) rfl rfl rfl bytes
    have hdrawn : drawn.head =
        (Head.fresh maxCols maxRows).after (Parser.initial.parse bytes).2 :=
      Terminal.head_process _ bytes
    have hinbound := (Head.inbound_fresh maxCols maxRows).after (Parser.initial.parse bytes).2
    have hlimits := (Head.fresh maxCols maxRows).sameLimits_after (Parser.initial.parse bytes).2
    rw [← hdrawn] at hinbound hlimits
    have hcols : drawn.head.maxCols = max maxCols 1 := hlimits.1
    rw [← hcols]
    exact ⟨⟨hparser, congrArg Head.pen hhead, congrArg Head.cursor hhead, hend⟩,
      hinbound.col_lt, hinbound.savedCol_lt⟩
  · intro config transparency data before later codepoint hcut size drawn
    obtain ⟨⟨hcol, hrow⟩, hfarCol, hfarRow⟩ := print_le_reachOf config hcut
    obtain ⟨hwidth, hheight⟩ := Session.lt_sizeFor config data hcol hrow hfarCol hfarRow
    have hhead : drawn.head = (Head.fresh config.maxWidth config.maxHeight).after before :=
      Terminal.head_foldl_apply _ before
    rw [hhead]
    exact ⟨Terminal.lands_of_inside hwidth hheight, hrow⟩

/-- A glyph behind two line feeds, where no column and no row is allowed and the
minimum asks for two rows: it scrolls up the one row there is to print in, and
lands. -/
theorem passes_run_in_lockstep_no_room :
    (Parser.initial.parse [0x41, 0x0A, 0x0A, 0x42]).2 =
        [.print 0x41, .control .lineFeed, .control .lineFeed] ++ .print 0x42 :: [] ∧
      (([.print 0x41, .control .lineFeed, .control .lineFeed] : List Action).foldl
        Terminal.apply (.rendering 0 2 0 0 false)).Lands 0x42 false := by
  have hcut : (Parser.initial.parse [0x41, 0x0A, 0x0A, 0x42]).2 =
      [.print 0x41, .control .lineFeed, .control .lineFeed] ++ .print 0x42 :: [] := by
    decide +kernel
  have hsize : Session.sizeFor { minWidth := 0, minHeight := 2, maxWidth := 0, maxHeight := 0 }
      [0x41, 0x0A, 0x0A, 0x42] = (0, 2) := by decide +kernel
  have hlands := passes_run_in_lockstep.2
    { minWidth := 0, minHeight := 2, maxWidth := 0, maxHeight := 0 } false
    [0x41, 0x0A, 0x0A, 0x42] _ _ _ hcut
  rw [hsize] at hlands
  exact ⟨hcut, hlands.1⟩

end BaudReel
