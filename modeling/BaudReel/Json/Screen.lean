import BaudReel.Action
import BaudReel.Cursor
import BaudReel.Json.Shape
import BaudReel.Palette
import BaudReel.Pen
import BaudReel.Word
/-!
# Screen values as documents

The written form of actions, cells, pens, cursors, grids, segments and
palettes, and their readers.
-/

namespace BaudReel

open Json

namespace ControlCode

/-- The names of the control codes. -/
def names : List (String × ControlCode) :=
  [("Bell", .bell), ("Backspace", .backspace), ("Tab", .tab), ("LineFeed", .lineFeed),
   ("FormFeed", .formFeed), ("CarriageReturn", .carriageReturn)]

/-- The name of a control code. -/
def name : ControlCode → String
  | .bell => "Bell"
  | .backspace => "Backspace"
  | .tab => "Tab"
  | .lineFeed => "LineFeed"
  | .formFeed => "FormFeed"
  | .carriageReturn => "CarriageReturn"

/-- A control code is written as its name. -/
def toJson (c : ControlCode) : Json :=
  .text c.name

/-- Reads a control code. -/
def ofJson? (j : Json) : Option ControlCode :=
  choice? names j

end ControlCode

namespace EraseMode

/-- The name of an erase mode. -/
def name : EraseMode → String
  | .toEnd => "ToEnd"
  | .toStart => "ToStart"
  | .all => "All"

/-- An erase mode is written as its name. -/
def toJson (m : EraseMode) : Json :=
  .text m.name

/-- Reads an erase mode. -/
def ofJson? (j : Json) : Option EraseMode :=
  choice? [("ToEnd", .toEnd), ("ToStart", .toStart), ("All", .all)] j

end EraseMode

namespace ControlSequence

/-- A control sequence as a record. -/
def toJson (s : ControlSequence) : Json :=
  .record [("final_byte", .nat s.finalByte.toNat), ("params", .list (.optional .nat) s.params)]

/-- Reads a control sequence. -/
def ofJson? (j : Json) : Option ControlSequence := do
  let (_, [finalByte, params]) ← record? ["final_byte", "params"] j | none
  let finalByte ← required (nat? Word.max8) finalByte
  let params ← required (list? (nullable? (nat? Word.max16))) params
  return { finalByte := UInt8.ofNat finalByte, params }

end ControlSequence

namespace Action

/-- An action by its kind and content. -/
def toJson : Action → Json
  | .print byte => .record [("Print", .nat byte.toNat)]
  | .control code => .record [("Control", code.toJson)]
  | .sequence s => .record [("Csi", s.toJson)]
  | .endOfText => .text "EndOfText"
  | .metadata text => .record [("Metadata", .text text)]

/-- Reads an action. -/
def ofJson? (j : Json) : Option Action :=
  match alternative? j with
  | some ("Print", some content) => (nat? Word.max8 content).map fun n => .print (UInt8.ofNat n)
  | some ("Control", some content) => (ControlCode.ofJson? content).map .control
  | some ("Csi", some content) => (ControlSequence.ofJson? content).map .sequence
  | some ("Metadata", some content) => (text? content).map .metadata
  | some ("EndOfText", content) => if isEmptyContent content then some .endOfText else none
  | _ => none

end Action

namespace Cell

/-- A cell is written as its word. -/
def toJson (c : Cell) : Json :=
  .nat c.bits.toNat

/-- Reads a cell; any 32-bit word is one. -/
def ofJson? (j : Json) : Option Cell :=
  (nat? Word.max32 j).map fun n => ⟨UInt32.ofNat n⟩

end Cell

namespace Pen

/-- A pen as a record. -/
def toJson (p : Pen) : Json :=
  .record
    [("fg_base", .nat p.fgBase), ("bg_base", .nat p.bgBase),
     ("fg_bright", .bool p.fgBright), ("bg_bright", .bool p.bgBright),
     ("fg_explicit", .bool p.fgExplicit), ("bg_explicit", .bool p.bgExplicit)]

/-- Reads a pen. -/
def ofJson? (j : Json) : Option Pen := do
  let names :=
    ["fg_base", "bg_base", "fg_bright", "bg_bright", "fg_explicit", "bg_explicit"]
  let (_, [fgBase, bgBase, fgBright, bgBright, fgExplicit, bgExplicit]) ← record? names j | none
  return {
    fgBase := ← required (nat? Word.max8) fgBase
    bgBase := ← required (nat? Word.max8) bgBase
    fgBright := ← required bool? fgBright
    bgBright := ← required bool? bgBright
    fgExplicit := ← required bool? fgExplicit
    bgExplicit := ← required bool? bgExplicit }

end Pen

namespace Cursor

/-- A cursor as a record. -/
def toJson (c : Cursor) : Json :=
  .record
    [("col", .nat c.col), ("row", .nat c.row),
     ("saved_col", .nat c.savedCol), ("saved_row", .nat c.savedRow)]

/-- Reads a cursor. -/
def ofJson? (j : Json) : Option Cursor := do
  let (_, [col, row, savedCol, savedRow]) ← record? ["col", "row", "saved_col", "saved_row"] j
    | none
  return {
    col := ← required (nat? Word.max64) col
    row := ← required (nat? Word.max64) row
    savedCol := ← required (nat? Word.max64) savedCol
    savedRow := ← required (nat? Word.max64) savedRow }

end Cursor

namespace Grid

/-- A grid as a record. -/
def toJson (g : Grid) : Json :=
  .record
    [("cols", .nat g.cols), ("rows", .nat g.rows), ("cells", .list Cell.toJson g.cells.toList)]

/-- Reads a grid.  Its size and the number of its cells are taken as they are
given. -/
def ofJson? (j : Json) : Option Grid := do
  let (_, [cols, rows, cells]) ← record? ["cols", "rows", "cells"] j | none
  return {
    cols := ← required (nat? Word.max64) cols
    rows := ← required (nat? Word.max64) rows
    cells := (← required (list? Cell.ofJson?) cells).toArray }

end Grid

namespace Segment

/-- A segment as a record. -/
def toJson (s : Segment) : Json :=
  .record
    [("text", .text s.text), ("fg_color", .optional .nat s.fg), ("bg_color", .optional .nat s.bg),
     ("blink", .bool s.blink), ("transparent", .bool s.transparent)]

/-- A colour that may be left undrawn.  Where fields are named it may also be
missing. -/
def color? (named : Bool) (field : Option Json) : Option (Option Nat) :=
  match field with
  | none => if named then some none else none
  | some j => nullable? (nat? Word.max8) j

/-- Reads a segment. -/
def ofJson? (j : Json) : Option Segment := do
  let (named, [text, fg, bg, blink, transparent]) ←
    record? ["text", "fg_color", "bg_color", "blink", "transparent"] j | none
  return {
    text := ← required text? text
    fg := ← color? named fg
    bg := ← color? named bg
    blink := ← required bool? blink
    transparent := ← required bool? transparent }

end Segment

namespace Rgb

/-- A display colour as an array of three numbers. -/
def toJson (c : Rgb) : Json :=
  .array [.nat c.red, .nat c.green, .nat c.blue]

/-- Reads a display colour. -/
def ofJson? (j : Json) : Option Rgb :=
  match j with
  | .array [red, green, blue] => do
    return {
      red := ← nat? Word.max8 red
      green := ← nat? Word.max8 green
      blue := ← nat? Word.max8 blue }
  | _ => none

end Rgb

namespace Palette

/-- A palette as a record. -/
def toJson (p : Palette) : Json :=
  .record [("colors", .list Rgb.toJson p.colors)]

/-- Reads a palette, which has exactly sixteen colours. -/
def ofJson? (j : Json) : Option Palette := do
  let (_, [colors]) ← record? ["colors"] j | none
  let colors ← required (list? Rgb.ofJson?) colors
  if colors.length = 16 then return { colors } else none

end Palette

end BaudReel
