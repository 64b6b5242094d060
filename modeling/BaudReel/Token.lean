import BaudReel.Parser
/-!
# The grammar of streams

A stream is a sequence of *tokens* and an *ending*.  A token is a control code,
an escaped byte, a control sequence or a single glyph; the ending is empty, a
trailer behind the end-of-text mark, or a token that was never finished.  Every
token and ending spells some bytes and stands for some actions.

This is what the reader of `BaudReel.Parser` recognises, said without its
states.  The main statement here is `parse_bytes`: between tokens the reader is
in its ground state, and it gives each token's actions.
-/

namespace BaudReel

/-- A complete piece of a stream. -/
inductive Token where
  | control (code : ControlCode)
  /-- An escape before a byte that opens no control sequence. -/
  | escaped (byte : UInt8)
  | sequence (raw : List UInt8) (finalByte : UInt8)
  | glyph (byte : UInt8)
deriving DecidableEq, Inhabited

namespace Token

/-- What a token may be made of: a control sequence has its only final byte at
its end, and a glyph is no byte that means something else. -/
def Valid : Token → Prop
  | .control _ => True
  | .escaped byte => byte ≠ Parser.bracket
  | .sequence raw finalByte =>
    (∀ byte ∈ raw, Parser.isFinal byte = false) ∧ Parser.isFinal finalByte = true
  | .glyph byte =>
    ControlCode.ofByte? byte = none ∧ byte ≠ Parser.endMark ∧ byte ≠ Parser.escapeByte

/-- The bytes that spell a token. -/
def bytes : Token → List UInt8
  | .control code => [code.toByte]
  | .escaped byte => [Parser.escapeByte, byte]
  | .sequence raw finalByte => Parser.escapeByte :: Parser.bracket :: (raw ++ [finalByte])
  | .glyph byte => [byte]

/-- The actions that a token stands for.  Of a control sequence only the first
bytes count. -/
def actions : Token → List Action
  | .control code => [.control code]
  | .escaped byte => [.print Parser.escapeByte, .print byte]
  | .sequence raw finalByte =>
    [.sequence (ControlSequence.ofRaw (raw.take Parser.maxKept) finalByte)]
  | .glyph byte => [.print byte]

end Token

/-- How a stream ends behind its last token. -/
inductive Ending where
  | clean
  /-- The end-of-text mark and all bytes behind it. -/
  | trailer (rest : List UInt8)
  /-- An escape and nothing more. -/
  | openEscape
  /-- A control sequence without its final byte. -/
  | openSequence (raw : List UInt8)
deriving DecidableEq, Inhabited

namespace Ending

/-- A control sequence that is still open has had no final byte. -/
def Valid : Ending → Prop
  | .openSequence raw => ∀ byte ∈ raw, Parser.isFinal byte = false
  | _ => True

/-- The bytes that spell an ending. -/
def bytes : Ending → List UInt8
  | .clean => []
  | .trailer rest => Parser.endMark :: rest
  | .openEscape => [Parser.escapeByte]
  | .openSequence raw => Parser.escapeByte :: Parser.bracket :: raw

/-- The descriptive strings of a trailer: its pieces between the bytes that end
a string, without the empty ones. -/
def strings (rest : List UInt8) : List (List UInt8) :=
  (rest.splitOnP Parser.endsString).filter (fun piece => !piece.isEmpty)

/-- The actions that an ending stands for.  A token that was never finished
stands for none. -/
def actions : Ending → List Action
  | .trailer rest =>
    .endOfText :: (strings rest).map fun piece => .metadata (CodePage.decode piece)
  | _ => []

end Ending

/-- A stream taken apart. -/
structure Stream where
  tokens : List Token
  ending : Ending
deriving DecidableEq, Inhabited

namespace Stream

/-- Every part is what it may be. -/
def Valid (s : Stream) : Prop :=
  (∀ t ∈ s.tokens, t.Valid) ∧ s.ending.Valid

/-- The bytes of the stream. -/
def bytes (s : Stream) : List UInt8 :=
  s.tokens.flatMap Token.bytes ++ s.ending.bytes

/-- The actions of the stream. -/
def actions (s : Stream) : List Action :=
  s.tokens.flatMap Token.actions ++ s.ending.actions

end Stream

namespace Token

/-- Inside a control sequence bytes are kept as long as there is room, and
nothing happens. -/
theorem parse_params (kept : Array UInt8) {raw : List UInt8}
    (hraw : ∀ byte ∈ raw, Parser.isFinal byte = false) (hkept : kept.size ≤ Parser.maxKept) :
    (Parser.params kept).parse raw =
      (.params (kept ++ (raw.take (Parser.maxKept - kept.size)).toArray), []) := by
  induction raw generalizing kept with
  | nil => simp
  | cons byte raw ih =>
    have hbyte : Parser.isFinal byte = false := hraw byte (by simp)
    have hrest : ∀ b ∈ raw, Parser.isFinal b = false := fun b hb => hraw b (by simp [hb])
    by_cases hroom : kept.size < Parser.maxKept
    · have hstep : (Parser.params kept).step byte = (.params (kept.push byte), []) := by
        simp [Parser.step, hbyte, hroom]
      obtain ⟨room, hleft⟩ : ∃ room, Parser.maxKept - kept.size = room + 1 :=
        ⟨Parser.maxKept - kept.size - 1, by omega⟩
      have hnext : Parser.maxKept - (kept.size + 1) = room := by omega
      rw [Parser.parse_cons, hstep, ih (kept.push byte) hrest (by rw [Array.size_push]; omega)]
      simp [hleft, hnext]
    · have hstep : (Parser.params kept).step byte = (.params kept, []) := by
        simp [Parser.step, hbyte, hroom]
      have hfull : Parser.maxKept - kept.size = 0 := by omega
      rw [Parser.parse_cons, hstep, ih kept hrest hkept]
      simp [hfull]

/-- From the ground state the reader gives a token's actions and is back in the
ground state. -/
theorem parse_bytes {t : Token} (h : t.Valid) :
    Parser.ground.parse t.bytes = (.ground, t.actions) := by
  cases t with
  | control code =>
    simp [bytes, actions, Parser.parse_cons, Parser.step, Parser.stepGround,
      ControlCode.ofByte?_toByte]
  | escaped byte =>
    have hbyte : byte ≠ Parser.bracket := h
    have hopen : Parser.ground.step Parser.escapeByte = (.escape, []) := by decide
    have hshow : Parser.escape.step byte =
        (.ground, [.print Parser.escapeByte, .print byte]) := by
      simp [Parser.step, hbyte]
    rw [bytes, Parser.parse_cons, hopen, Parser.parse_cons, hshow]
    rfl
  | sequence raw finalByte =>
    obtain ⟨hraw, hfinal⟩ := h
    have hopen : Parser.ground.step Parser.escapeByte = (.escape, []) := by decide
    have hbracket : Parser.escape.step Parser.bracket = (.params #[], []) := by decide
    rw [bytes, Parser.parse_cons, hopen, Parser.parse_cons, hbracket, Parser.parse_append,
      parse_params #[] hraw (Nat.zero_le _)]
    simp [actions, Parser.parse_cons, Parser.step, hfinal]
  | glyph byte =>
    obtain ⟨hcode, hend, hescape⟩ := h
    simp [bytes, actions, Parser.parse_cons, Parser.step, Parser.stepGround, hcode, hend, hescape]

/-- The same for any number of tokens. -/
theorem parse_flatMap_bytes {tokens : List Token} (h : ∀ t ∈ tokens, t.Valid) :
    Parser.ground.parse (tokens.flatMap bytes) = (.ground, tokens.flatMap actions) := by
  induction tokens with
  | nil => rfl
  | cons t tokens ih =>
    have hfirst : t.Valid := h t (by simp)
    have hrest : ∀ u ∈ tokens, u.Valid := fun u hu => h u (by simp [hu])
    rw [List.flatMap_cons, Parser.parse_append, parse_bytes hfirst, ih hrest, List.flatMap_cons]

end Token

end BaudReel
