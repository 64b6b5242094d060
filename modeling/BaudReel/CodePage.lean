/-!
# Code page 437

Screen art is drawn in the character set of the IBM PC, where every byte has a
visible glyph: the control codes are dingbats, the upper half holds accented
letters, box drawing and shading blocks.  This file gives the table, the
reading of bytes as text (`decode`) and the writing of text as bytes
(`encode`).

The two are inverse to each other only up to two losses.  Byte `00` shows the
same space as byte `20`, and `encode` lets every ASCII character through
unchanged, so that line breaks in plain text keep working, although the glyphs
of the control codes are other characters.
-/

namespace BaudReel.CodePage

/-- The glyphs of bytes `00` to `1F`. -/
def dingbats : List Char :=
  [' ', '☺', '☻', '♥', '♦', '♣', '♠', '•', '◘', '○', '◙', '♂', '♀', '♪', '♫', '☼',
   '►', '◄', '↕', '‼', '¶', '§', '▬', '↨', '↑', '↓', '→', '←', '∟', '↔', '▲', '▼']

/-- The glyphs of bytes `20` to `7F`: printable ASCII, then a house for the
delete code. -/
def printable : List Char :=
  (List.range 95).map (fun k => Char.ofNat (k + 32)) ++ ['⌂']

/-- The glyphs of bytes `80` to `FF`. -/
def upperHalf : List Char :=
  ['Ç', 'ü', 'é', 'â', 'ä', 'à', 'å', 'ç', 'ê', 'ë', 'è', 'ï', 'î', 'ì', 'Ä', 'Å',
   'É', 'æ', 'Æ', 'ô', 'ö', 'ò', 'û', 'ù', 'ÿ', 'Ö', 'Ü', '¢', '£', '¥', '₧', 'ƒ',
   'á', 'í', 'ó', 'ú', 'ñ', 'Ñ', 'ª', 'º', '¿', '⌐', '¬', '½', '¼', '¡', '«', '»',
   '░', '▒', '▓', '│', '┤', '╡', '╢', '╖', '╕', '╣', '║', '╗', '╝', '╜', '╛', '┐',
   '└', '┴', '┬', '├', '─', '┼', '╞', '╟', '╚', '╔', '╩', '╦', '╠', '═', '╬', '╧',
   '╨', '╤', '╥', '╙', '╘', '╒', '╓', '╫', '╪', '┘', '┌', '█', '▄', '▌', '▐', '▀',
   'α', 'ß', 'Γ', 'π', 'Σ', 'σ', 'µ', 'τ', 'Φ', 'Θ', 'Ω', 'δ', '∞', 'φ', 'ε', '∩',
   '≡', '±', '≥', '≤', '⌠', '⌡', '÷', '≈', '°', '∙', '·', '√', 'ⁿ', '²', '■', '\u00a0']

/-- The glyph of every byte, in byte order. -/
def table : Array Char :=
  (dingbats ++ printable ++ upperHalf).toArray

/-- The table has a glyph for every byte. -/
theorem size_table : table.size = 256 := by decide +kernel

/-- The glyph that a byte shows. -/
def glyph (byte : UInt8) : Char :=
  table.getD byte.toNat ' '

/-- The text that a string of bytes shows. -/
def decode (bytes : List UInt8) : String :=
  String.ofList (bytes.map glyph)

/-- The byte for a character: ASCII stands for itself, any other glyph is
looked up, and what the code page lacks becomes a question mark. -/
def encodeChar (c : Char) : UInt8 :=
  if c.toNat < 128 then UInt8.ofNat c.toNat
  else
    match table.idxOf? c with
    | some k => UInt8.ofNat k
    | none => 63

/-- One byte for each character of a text. -/
def encode (text : String) : List UInt8 :=
  text.toList.map encodeChar

end BaudReel.CodePage
