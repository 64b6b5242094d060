import BaudReel.Head
import BaudReel.Parser
/-!
# The terminal

A terminal reads a stream and keeps what it shows.  The same terminal serves
two passes over a stream.  The *measuring* pass has no cells and only notes the
furthest place that anything was printed at; the *rendering* pass draws into a
grid and collects bells and descriptive strings.  Which pass it is lies in the
terminal's canvas alone.
-/

namespace BaudReel

/-- What strokes are drawn on. -/
inductive Canvas where
  /-- Nothing: the furthest column and row printed at are noted. -/
  | gauge (farCol farRow : Nat)
  /-- A grid of cells. -/
  | screen (grid : Grid) (transparency : Bool)
deriving DecidableEq, Inhabited

namespace Canvas

/-- Whether nothing is drawn. -/
def isGauge : Canvas → Bool
  | .gauge .. => true
  | .screen .. => false

/-- The cells, where there are any. -/
def grid? : Canvas → Option Grid
  | .gauge .. => none
  | .screen grid _ => some grid

/-- Draws one stroke.  Of the rearrangements only inserted rows matter to a
gauge: they push printed rows down, so that more rows are needed. -/
def draw (c : Canvas) (stroke : Stroke) : Canvas :=
  match c, stroke with
  | .gauge farCol farRow, .put col row _ _ => .gauge (max farCol col) (max farRow row)
  | .gauge farCol farRow, .rearrange (.insertLines row count) _ =>
    .gauge farCol (if row ≤ farRow then farRow + count else farRow)
  | .gauge farCol farRow, .rearrange _ _ => .gauge farCol farRow
  | .screen grid transparency, .put col row codepoint pen =>
    .screen (grid.set col row (pen.stamp codepoint transparency)) transparency
  | .screen grid transparency, .rearrange r pen =>
    .screen (grid.rearrange r (pen.blank transparency)) transparency

/-- Columns and rows needed to show all that was printed.  A drawn screen keeps
no such record and answers one by one. -/
def extent : Canvas → Nat × Nat
  | .gauge farCol farRow => (farCol + 1, farRow + 1)
  | .screen .. => (1, 1)

end Canvas

/-- A terminal in the middle of a stream. -/
structure Terminal where
  parser : Parser := .initial
  head : Head
  canvas : Canvas
  endOfText : Bool := false
  metadata : List String := []
  /-- Bells rung and not yet taken. -/
  bells : Nat := 0
deriving DecidableEq, Inhabited

namespace Terminal

/-- A terminal that only measures its stream. -/
def measuring (maxCols maxRows : Nat) : Terminal where
  head := .fresh maxCols maxRows
  canvas := .gauge 0 0

/-- A terminal that draws into `cols` times `rows` cells. -/
def rendering (cols rows maxCols maxRows : Nat) (transparency : Bool) : Terminal where
  head := .fresh maxCols maxRows
  canvas := .screen (.fresh cols rows) transparency

/-- Whether this is the measuring pass. -/
def isMeasuring (t : Terminal) : Bool :=
  t.canvas.isGauge

/-- The drawn cells, where there are any. -/
def grid? (t : Terminal) : Option Grid :=
  t.canvas.grid?

/-- Columns and rows needed to show all that was printed. -/
def extent (t : Terminal) : Nat × Nat :=
  t.canvas.extent

/-- How many bells an action rings. -/
def bellsOf : Action → Nat
  | .control .bell => 1
  | _ => 0

/-- The descriptive strings an action carries. -/
def stringsOf : Action → List String
  | .metadata text => [text]
  | _ => []

/-- Whether an action ends the text. -/
def endsText : Action → Bool
  | .endOfText => true
  | _ => false

/-- Applies one action.  Only the rendering pass hears bells and collects
descriptive strings. -/
def apply (t : Terminal) (a : Action) : Terminal :=
  let ⟨parser, head, canvas, endOfText, metadata, bells⟩ := t
  let (head, strokes) := head.apply a
  let drawn := !canvas.isGauge
  { parser
    head
    canvas := strokes.foldl Canvas.draw canvas
    endOfText := endOfText || endsText a
    metadata := if drawn then metadata ++ stringsOf a else metadata
    bells := if drawn then bells + bellsOf a else bells }

/-- Reads one byte of the stream. -/
def feed (t : Terminal) (byte : UInt8) : Terminal :=
  let (parser, actions) := t.parser.step byte
  actions.foldl apply { t with parser }

/-- Reads a stretch of the stream. -/
def process (t : Terminal) (bytes : List UInt8) : Terminal :=
  bytes.foldl feed t

/-- A terminal takes a stream byte by byte. -/
theorem process_cons (t : Terminal) (byte : UInt8) (rest : List UInt8) :
    t.process (byte :: rest) = (t.feed byte).process rest := rfl

/-- A stream may be cut anywhere. -/
theorem process_append (t : Terminal) (front rest : List UInt8) :
    t.process (front ++ rest) = (t.process front).process rest :=
  List.foldl_append

/-- Actions leave the reader alone. -/
theorem apply_reading (t : Terminal) (p : Parser) (a : Action) :
    apply { t with parser := p } a = { t.apply a with parser := p } := rfl

/-- Runs of actions leave the reader alone. -/
theorem foldl_apply_reading (t : Terminal) (p : Parser) (actions : List Action) :
    actions.foldl apply { t with parser := p } =
      { actions.foldl apply t with parser := p } := by
  induction actions generalizing t with
  | nil => rfl
  | cons a actions ih => rw [List.foldl_cons, apply_reading, ih, List.foldl_cons]

/-- Processing a stretch reads all of it and then applies its actions in
order. -/
theorem process_eq (t : Terminal) (bytes : List UInt8) :
    t.process bytes =
      { (t.parser.parse bytes).2.foldl apply t with parser := (t.parser.parse bytes).1 } := by
  induction bytes generalizing t with
  | nil => rfl
  | cons byte rest ih =>
    have hfeed : t.feed byte =
        { (t.parser.step byte).2.foldl apply t with parser := (t.parser.step byte).1 } :=
      foldl_apply_reading t (t.parser.step byte).1 (t.parser.step byte).2
    rw [process_cons, ih, hfeed, foldl_apply_reading, Parser.parse_cons, List.foldl_append]

/-- The stream is over. -/
def finish (t : Terminal) : Terminal :=
  let (parser, actions) := t.parser.finish
  actions.foldl apply { t with parser }

/-- The bells rung since they were last taken, and the terminal without
them. -/
def takeBells (t : Terminal) : Nat × Terminal :=
  (t.bells, { t with bells := 0 })

end Terminal

end BaudReel
