import BaudReel.Action
import BaudReel.CodePage
/-!
# Reading a stream

The reader turns bytes into actions, one byte at a time, so that a stream may
be cut anywhere: what has been read of an unfinished sequence is part of the
reader's state.

Outside sequences a byte is a control code, the start of an escape (`1B`), the
end-of-text mark (`1A`) or a glyph.  An escape that is not followed by `[` is
no error: both bytes are shown.  Behind the end-of-text mark nothing reaches
the screen any more; the bytes are descriptive strings, ended by `00` or by a
further `1A`.
-/

namespace BaudReel

/-- What has been read of an unfinished sequence. -/
inductive Parser where
  /-- Nothing is pending. -/
  | ground
  /-- An escape was read. -/
  | escape
  /-- Inside a control sequence, with the bytes kept so far. -/
  | params (kept : Array UInt8)
  /-- Behind the end of the text, with the string begun so far. -/
  | trailer (begun : Array UInt8)
deriving DecidableEq, Inhabited

namespace Parser

/-- The byte that opens an escape. -/
def escapeByte : UInt8 := 0x1B

/-- The byte that ends the text. -/
def endMark : UInt8 := 0x1A

/-- The byte that makes an escape a control sequence. -/
def bracket : UInt8 := 0x5B

/-- How many bytes of a control sequence are kept; further ones are dropped. -/
def maxKept : Nat := 64

/-- Whether a byte ends a control sequence. -/
def isFinal (byte : UInt8) : Bool :=
  0x40 ≤ byte && byte ≤ 0x7E

/-- Whether a byte ends a descriptive string. -/
def endsString (byte : UInt8) : Bool :=
  byte == 0 || byte == endMark

/-- The reader before the first byte. -/
def initial : Parser := .ground

/-- Whether the end of the text has been read. -/
def inTrailer : Parser → Bool
  | .trailer _ => true
  | _ => false

/-- The action of a finished descriptive string; an empty one is none. -/
def string? (bytes : Array UInt8) : Option Action :=
  if bytes.isEmpty then none else some (.metadata (CodePage.decode bytes.toList))

/-- A byte outside every sequence. -/
def stepGround (byte : UInt8) : Parser × List Action :=
  match ControlCode.ofByte? byte with
  | some code => (.ground, [.control code])
  | none =>
    if byte = endMark then (.trailer #[], [.endOfText])
    else if byte = escapeByte then (.escape, [])
    else (.ground, [.print byte])

/-- Reads one byte. -/
def step (p : Parser) (byte : UInt8) : Parser × List Action :=
  match p with
  | .ground => stepGround byte
  | .escape =>
    if byte = bracket then (.params #[], [])
    else (.ground, [.print escapeByte, .print byte])
  | .params kept =>
    if isFinal byte then (.ground, [.sequence (ControlSequence.ofRaw kept.toList byte)])
    else if kept.size < maxKept then (.params (kept.push byte), [])
    else (.params kept, [])
  | .trailer begun =>
    if endsString byte then (.trailer #[], (string? begun).toList)
    else (.trailer (begun.push byte), [])

/-- Reads bytes in order and collects their actions. -/
def parse (p : Parser) (bytes : List UInt8) : Parser × List Action :=
  match bytes with
  | [] => (p, [])
  | byte :: rest =>
    let (next, actions) := p.step byte
    let (last, later) := next.parse rest
    (last, actions ++ later)

@[simp]
theorem parse_nil (p : Parser) : p.parse [] = (p, []) := rfl

/-- A stream is read byte by byte. -/
theorem parse_cons (p : Parser) (byte : UInt8) (rest : List UInt8) :
    p.parse (byte :: rest) =
      (((p.step byte).1.parse rest).1, (p.step byte).2 ++ ((p.step byte).1.parse rest).2) := rfl

/-- A stream may be cut anywhere. -/
theorem parse_append (p : Parser) (front rest : List UInt8) :
    p.parse (front ++ rest) =
      (((p.parse front).1.parse rest).1,
        (p.parse front).2 ++ ((p.parse front).1.parse rest).2) := by
  induction front generalizing p with
  | nil => simp
  | cons byte front ih => simp only [List.cons_append, parse_cons, ih, List.append_assoc]

/-- The stream is over: a string begun behind the end of the text counts as
finished.  Any other unfinished sequence yields nothing. -/
def finish (p : Parser) : Parser × List Action :=
  match p with
  | .trailer begun => (.trailer #[], (string? begun).toList)
  | p => (p, [])

end Parser

end BaudReel
