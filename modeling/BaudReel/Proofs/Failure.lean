import BaudReel.Proofs.Drawing
import BaudReel.Proofs.Sizing
import BaudReel.Proofs.Trailer

/-!
# A failure can be read on the screen

A failed source is played as its own message.  Whether the message can be read then is
up to its characters, since they are played like any other stream: a bullet rings the
bell, an arrow to the right ends the text, an arrow to the left is an escape.  A text
is `Legible` if nothing in it acts so, and the legible texts are just those of which the
reader prints every character (`parse_eq_print_iff`).

What is printed fills the screen in reading order (`strokes_typed`), on a screen of any
size that measuring may come to (`screen_legible`).  Put together, a session over a
failed source shows a legible message in full: `legible_failure_is_shown`.  One that is
not legible loses characters, as in `bullet_is_not_shown`.
-/

namespace BaudReel

namespace CodePage

/-- The character that the code page shows for a character. -/
def shown (c : Char) : Char :=
  if c ∈ table then c else '?'

/-- Whether a character is other than the control codes of ASCII. -/
def Printable (c : Char) : Prop :=
  32 ≤ c.toNat ∧ c.toNat ≠ 127

instance (c : Char) : Decidable (Printable c) :=
  inferInstanceAs (Decidable (_ ∧ _))

/-- A text without control codes, checked character by character. -/
theorem printable_of_all {text : List Char} (h : text.all (Printable ·) = true) :
    ∀ c ∈ text, Printable c :=
  fun c hc => of_decide_eq_true (List.all_eq_true.1 h c hc)

/-- The glyphs of printable ASCII are the characters themselves. -/
theorem glyph_ascii : ∀ n < 128, 32 ≤ n → n ≠ 127 → glyph (UInt8.ofNat n) = Char.ofNat n := by
  decide +kernel

theorem glyph_of_lt {k : Nat} (hk : k < table.size) : glyph (UInt8.ofNat k) = table[k] := by
  have hsize := size_table
  rw [glyph, UInt8.toNat_ofNat_of_lt' (show k < 256 by omega), Array.getD_eq_getD_getElem?,
    Array.getElem?_eq_getElem hk, Option.getD_some]

theorem glyph_mem_table {k : Nat} (hk : k < table.size) : glyph (UInt8.ofNat k) ∈ table := by
  rw [glyph_of_lt hk]
  exact Array.getElem_mem hk

/-- A character is written as the byte that shows it, and never as the zero byte. -/
theorem glyph_encodeChar {c : Char} (hc : Printable c) :
    glyph (encodeChar c) = shown c ∧ encodeChar c ≠ 0 := by
  unfold encodeChar shown
  by_cases hascii : c.toNat < 128
  · have hglyph := glyph_ascii c.toNat hascii hc.1 hc.2
    have hmem : glyph (UInt8.ofNat c.toNat) ∈ table := glyph_mem_table (by rw [size_table]; omega)
    rw [hglyph] at hmem
    rw [Char.ofNat_toNat] at hmem hglyph
    rw [if_pos hascii, if_pos hmem]
    refine ⟨hglyph, ?_⟩
    intro hzero
    have hvalue := congrArg UInt8.toNat hzero
    rw [UInt8.toNat_ofNat_of_lt' (show c.toNat < 256 by omega)] at hvalue
    have hlow : 32 ≤ (0 : UInt8).toNat := hvalue ▸ hc.1
    exact absurd hlow (by decide)
  · rw [if_neg hascii]
    cases hindex : table.idxOf? c with
    | none =>
      rw [if_neg (Array.idxOf?_eq_none_iff.1 hindex)]
      exact ⟨by decide +kernel, by decide⟩
    | some k =>
      rw [Array.idxOf?_eq_map_finIdxOf?_val] at hindex
      obtain ⟨i, hi, rfl⟩ := Option.map_eq_some_iff.1 hindex
      have hfound : table[i] = c := (Array.finIdxOf?_eq_some_iff.1 hi).1
      have hglyph : glyph (UInt8.ofNat i) = c := (glyph_of_lt i.isLt).trans hfound
      have hmem : c ∈ table := hglyph ▸ glyph_mem_table i.isLt
      rw [if_pos hmem]
      refine ⟨hglyph, ?_⟩
      intro hzero
      -- the zero byte shows a space, which is written as itself
      have hbyte : UInt8.ofNat i = 0 := hzero
      rw [hbyte] at hglyph
      have hspace : c = ' ' := by
        rw [← hglyph]
        decide +kernel
      exact hascii (hspace ▸ by decide)

/-- The characters that act instead of being shown: their bytes are control codes, or
end the text. -/
def acting : List Char :=
  ['•', '◘', '○', '◙', '♀', '♪', '→']

/-- A text that is shown as it is written.  No character acts, but for those that an
arrow to the left takes along with it; it takes one, and that may not be a bracket. -/
def Legible : List Char → Prop
  | [] => True
  | c :: rest =>
    if c = '←' then
      match rest with
      | [] => False
      | d :: rest => d ≠ '[' ∧ Legible rest
    else c ∉ acting ∧ Legible rest

section Reading

variable {c : Char} (hc : Printable c)
include hc

/-- A character other than the question mark is written as its own byte only. -/
theorem eq_of_encodeChar {byte : UInt8} (hbyte : encodeChar c = byte)
    (hmark : glyph byte ≠ '?') : c = glyph byte := by
  have hshown := (glyph_encodeChar hc).1
  rw [hbyte, shown] at hshown
  split at hshown
  · exact hshown.symm
  · exact absurd hshown hmark

/-- Behind an escape every byte but a bracket is printed, and so is the escape. -/
theorem step_escape_encodeChar (hbracket : c ≠ '[') :
    Parser.escape.step (encodeChar c) =
      (.ground, [.print Parser.escapeByte, .print (encodeChar c)]) := by
  apply if_neg
  intro hbyte
  apply hbracket
  rw [eq_of_encodeChar hc hbyte (by decide +kernel)]
  decide +kernel

/-- A byte that is no command is printed. -/
theorem step_ground_encodeChar (hacting : c ∉ acting) (harrow : c ≠ '←') :
    Parser.ground.step (encodeChar c) = (.ground, [.print (encodeChar c)]) := by
  have hcontrol : ControlCode.ofByte? (encodeChar c) = none := by
    cases hcode : ControlCode.ofByte? (encodeChar c) with
    | none => rfl
    | some code =>
      have hbyte := ControlCode.toByte_of_ofByte? hcode
      have hglyph : glyph code.toByte ∈ acting ∧ glyph code.toByte ≠ '?' := by
        cases code <;> decide +kernel
      have hself := eq_of_encodeChar hc hbyte.symm hglyph.2
      exact absurd (hself ▸ hglyph.1) hacting
  have hend : encodeChar c ≠ Parser.endMark := by
    intro hbyte
    have hself := eq_of_encodeChar hc hbyte (by decide +kernel)
    have hglyph : glyph Parser.endMark ∈ acting := by decide +kernel
    exact absurd (hself ▸ hglyph) hacting
  have hescape : encodeChar c ≠ Parser.escapeByte := by
    intro hbyte
    have hself := eq_of_encodeChar hc hbyte (by decide +kernel)
    have hglyph : glyph Parser.escapeByte = '←' := by decide +kernel
    exact harrow (hself.trans hglyph)
  show Parser.stepGround _ = _
  rw [Parser.stepGround, hcontrol]
  simp only [if_neg hend, if_neg hescape]

end Reading

/-- Whether an action prints a glyph. -/
def prints : Action → Bool
  | .print _ => true
  | _ => false

/-- A character that acts is not printed. -/
theorem step_ground_of_acting : ∀ c ∈ acting,
    ∃ a, (Parser.ground.step (encodeChar c)).2 = [a] ∧ prints a = false := by
  have hactions : acting.map (fun c => (Parser.ground.step (encodeChar c)).2) =
      [[.control .bell], [.control .backspace], [.control .tab], [.control .lineFeed],
        [.control .formFeed], [.control .carriageReturn], [.endOfText]] := by
    decide +kernel
  intro c hc
  have hmem := List.mem_map_of_mem (f := fun c => (Parser.ground.step (encodeChar c)).2) hc
  rw [hactions] at hmem
  simp only [List.mem_cons, List.not_mem_nil, or_false] at hmem
  rcases hmem with h | h | h | h | h | h | h <;> exact ⟨_, h, rfl⟩

/-- What is read of a control sequence begins with no glyph. -/
theorem head_parse_params (kept : Array UInt8) (bytes : List UInt8) :
    ((Parser.params kept).parse bytes).2.head?.any prints = false := by
  induction bytes generalizing kept with
  | nil => rfl
  | cons byte rest ih =>
    rw [Parser.parse_cons, Parser.step]
    split
    · rfl
    · split
      · exact ih _
      · exact ih _

/-- **A legible text is printed**, character by character, and no other one is. -/
theorem parse_eq_print_iff {text : List Char} (hprintable : ∀ c ∈ text, Printable c) :
    (Parser.ground.parse (text.map encodeChar)).2 = text.map (fun c => .print (encodeChar c)) ↔
      Legible text := by
  have harrow : Parser.ground.step (encodeChar '←') = (.escape, []) := by decide +kernel
  have hbyte : encodeChar '←' = Parser.escapeByte := by decide +kernel
  induction text using Legible.induct with
  | case1 => exact iff_of_true rfl trivial
  | case2 =>
    refine iff_of_false ?_ (by simp [Legible])
    rw [List.map_singleton, Parser.parse_cons, harrow]
    exact (List.cons_ne_nil _ _).symm
  | case3 d rest ih =>
    have hrest := ih fun c hc => hprintable c (List.mem_cons_of_mem _ (List.mem_cons_of_mem _ hc))
    have hd : Printable d := hprintable d (List.mem_cons_of_mem _ List.mem_cons_self)
    rw [Legible, if_pos rfl, List.map_cons, List.map_cons, Parser.parse_cons, harrow,
      Parser.parse_cons, List.map_cons, List.map_cons, hbyte]
    by_cases hbracket : d = '['
    · subst hbracket
      have hopened : Parser.escape.step (encodeChar '[') = (.params #[], []) := by decide +kernel
      refine iff_of_false ?_ fun h => h.1 rfl
      intro hactions
      have hhead := head_parse_params #[] (rest.map encodeChar)
      rw [hopened] at hactions
      have hsame := congrArg (fun actions : List Action => actions.head?.any prints) hactions
      exact absurd (hhead.symm.trans hsame) Bool.false_ne_true
    · rw [step_escape_encodeChar hd hbracket]
      constructor
      · intro hactions
        exact ⟨hbracket, hrest.1 (List.cons.inj (List.cons.inj hactions).2).2⟩
      · rintro ⟨-, hlegible⟩
        exact congrArg ([.print Parser.escapeByte, .print (encodeChar d)] ++ ·) (hrest.2 hlegible)
  | case4 c rest hother ih =>
    have hrest := ih fun d hd => hprintable d (List.mem_cons_of_mem _ hd)
    have hc : Printable c := hprintable c List.mem_cons_self
    unfold Legible
    rw [if_neg hother, List.map_cons, Parser.parse_cons, List.map_cons]
    by_cases hacting : c ∈ acting
    · obtain ⟨a, ha, hsilent⟩ := step_ground_of_acting c hacting
      refine iff_of_false ?_ fun h => h.1 hacting
      intro hactions
      rw [ha] at hactions
      have hsame := (List.cons.inj hactions).1
      rw [hsame] at hsilent
      exact absurd hsilent.symm Bool.false_ne_true
    · rw [step_ground_encodeChar hc hacting hother]
      constructor
      · intro hactions
        exact ⟨hacting, hrest.1 (List.cons.inj hactions).2⟩
      · rintro ⟨-, hlegible⟩
        exact congrArg ([.print (encodeChar c)] ++ ·) (hrest.2 hlegible)

end CodePage

/-- Strokes that print glyphs one behind the other, in rows of `width` places, from
place number `k` on. -/
def typed (width k : Nat) : List UInt8 → List Stroke
  | [] => []
  | byte :: rest => .put (k % width) (k / width) byte {} :: typed width (k + 1) rest

/-- The place behind place number `k`: one to the right, or in front of the next row. -/
theorem next_place {width : Nat} (hwidth : 0 < width) (k : Nat) :
    if width ≤ k % width + 1 then (k + 1) % width = 0 ∧ (k + 1) / width = k / width + 1
    else (k + 1) % width = k % width + 1 ∧ (k + 1) / width = k / width := by
  have hk := Nat.div_add_mod k width
  have hcol := Nat.mod_lt k hwidth
  split
  case isTrue hlast =>
    have hnext : k + 1 = width * (k / width + 1) := by
      rw [Nat.mul_add, Nat.mul_one]
      omega
    rw [hnext]
    exact ⟨Nat.mul_mod_right _ _, Nat.mul_div_cancel_left _ hwidth⟩
  case isFalse hroom =>
    have hnext : k + 1 = width * (k / width) + (k % width + 1) := by omega
    have hlt : k % width + 1 < width := by omega
    rw [hnext, Nat.mul_add_mod, Nat.mod_eq_of_lt hlt, Nat.mul_add_div hwidth,
      Nat.div_eq_of_lt hlt, Nat.add_zero]
    exact ⟨rfl, rfl⟩

/-- A place by its column and row, and by its number. -/
theorem place_eq_iff {width x y k : Nat} (hx : x < width) :
    y * width + x = k ↔ x = k % width ∧ y = k / width := by
  have hwidth := Nat.zero_lt_of_lt hx
  constructor
  · rintro rfl
    rw [Nat.mul_comm, Nat.mul_add_mod, Nat.mod_eq_of_lt hx, Nat.mul_add_div hwidth,
      Nat.div_eq_of_lt hx]
    exact ⟨rfl, rfl⟩
  · rintro ⟨rfl, rfl⟩
    rw [Nat.mul_comm]
    exact Nat.div_add_mod k width

namespace Head

/-- **What is printed fills the screen in reading order**, as long as it fits. -/
theorem strokes_typed {h : Head} {k : Nat} (hpen : h.pen = {}) (hwidth : 0 < h.maxCols)
    (hcol : h.cursor.col = k % h.maxCols) (hrow : h.cursor.row = k / h.maxCols)
    {bytes : List UInt8} (hfit : k + bytes.length ≤ h.maxCols * h.maxRows) :
    h.strokes (bytes.map .print) = typed h.maxCols k bytes := by
  induction bytes generalizing h k with
  | nil => rfl
  | cons byte rest ih =>
    rw [List.length_cons] at hfit
    have hplace : k / h.maxCols < h.maxRows := by
      rw [Nat.div_lt_iff_lt_mul hwidth, Nat.mul_comm]
      omega
    have hprint : h.print byte =
        (h.advance h.cursor.row, [.put h.cursor.col h.cursor.row byte h.pen]) :=
      if_neg (by omega)
    obtain ⟨hcols, hrows⟩ := h.sameLimits_advance h.cursor.row
    have hnext := next_place hwidth k
    have hadvanced : (h.advance h.cursor.row).pen = h.pen ∧
        (h.advance h.cursor.row).cursor.col = (k + 1) % h.maxCols ∧
        (h.advance h.cursor.row).cursor.row = (k + 1) / h.maxCols := by
      rw [advance, hcol, hrow]
      split at hnext
      case isTrue hlast =>
        rw [if_pos hlast, hnext.1, hnext.2]
        exact ⟨rfl, rfl, rfl⟩
      case isFalse hroom =>
        rw [if_neg hroom, hnext.1, hnext.2]
        exact ⟨rfl, rfl, rfl⟩
    have hrest := ih (hadvanced.1.trans hpen) (hcols ▸ hwidth) (hcols ▸ hadvanced.2.1)
      (hcols ▸ hadvanced.2.2) (show k + 1 + rest.length ≤ _ by rw [hcols, hrows]; omega)
    rw [List.map_cons, strokes, apply, hprint, hrest, hcols, hcol, hrow, hpen]
    rfl

end Head

section Typing

variable {width k : Nat}

theorem mem_typed {bytes : List UInt8} {i : Nat} {byte : UInt8} (hbyte : bytes[i]? = some byte) :
    .put ((k + i) % width) ((k + i) / width) byte {} ∈ typed width k bytes := by
  induction bytes generalizing k i with
  | nil => exact absurd hbyte.symm (Option.some_ne_none byte)
  | cons first rest ih =>
    cases i with
    | zero =>
      obtain rfl : first = byte := Option.some.inj hbyte
      exact List.mem_cons_self
    | succ i =>
      have hlater := ih (k := k + 1) (i := i) hbyte
      rw [Nat.add_right_comm, Nat.add_assoc] at hlater
      exact List.mem_cons_of_mem _ hlater

variable {g : Grid} {x y : Nat} (transparency : Bool)

/-- Places that nothing is printed at stay as they are. -/
theorem get?_typed_of_outside (hg : g.Full) (hx : x < width) {bytes : List UInt8}
    (houtside : y * width + x < k ∨ k + bytes.length ≤ y * width + x) :
    ((typed width k bytes).foldl (Stroke.drawOn transparency) g).get? x y = g.get? x y := by
  induction bytes generalizing k g with
  | nil => rfl
  | cons byte rest ih =>
    rw [List.length_cons] at houtside
    have hother : ¬(x = k % width ∧ y = k / width ∧ g.Inside x y) := by
      intro hhere
      have hplace := (place_eq_iff hx).2 ⟨hhere.1, hhere.2.1⟩
      omega
    rw [typed, List.foldl_cons, ih (Stroke.full_drawOn transparency _ hg) (by omega)]
    exact (Grid.get?_set hg _ _ _ x y).trans (if_neg hother)

/-- Each glyph is found at its place. -/
theorem get?_typed (hg : g.Full) (hx : x < width) (hin : g.Inside x y) {bytes : List UInt8}
    {i : Nat} {byte : UInt8} (hbyte : bytes[i]? = some byte) (hplace : y * width + x = k + i) :
    ((typed width k bytes).foldl (Stroke.drawOn transparency) g).get? x y =
      some (({} : Pen).stamp byte transparency) := by
  induction bytes generalizing k i g with
  | nil => exact absurd hbyte.symm (Option.some_ne_none byte)
  | cons first rest ih =>
    cases i with
    | zero =>
      obtain rfl : first = byte := Option.some.inj hbyte
      obtain ⟨hcol, hrow⟩ := (place_eq_iff hx).1 hplace
      rw [typed, List.foldl_cons, get?_typed_of_outside transparency
        (Stroke.full_drawOn transparency _ hg) hx (by omega)]
      exact (Grid.get?_set hg _ _ _ x y).trans (if_pos ⟨hcol, hrow, hin⟩)
    | succ i =>
      exact ih (Stroke.full_drawOn transparency _ hg)
        ((Stroke.inside_drawOn transparency _).2 hin) hbyte (by omega)

/-- On an empty screen that is no wider than the rows, every cell has the glyph printed
there, or was never printed to. -/
theorem cell_of_typed {cols rows : Nat} (hcols : max cols 1 ≤ width) {bytes : List UInt8}
    {cell : Cell}
    (hcell : ((typed width 0 bytes).foldl (Stroke.drawOn transparency)
      (.fresh cols rows)).get? x y = some cell) :
    (∃ byte, bytes[y * width + x]? = some byte ∧
        cell = ({} : Pen).stamp byte transparency) ∨
      bytes.length ≤ y * width + x ∧ cell = .untouched := by
  have hfull := Grid.full_fresh cols rows
  have hin : (Grid.fresh cols rows).Inside x y := by
    obtain ⟨hsameCols, hsameRows⟩ := Stroke.size_foldl_drawOn (.fresh cols rows) transparency
      (typed width 0 bytes)
    have hin := Grid.inside_of_get? hcell
    rwa [Grid.Inside, hsameCols, hsameRows] at hin
  have hx : x < width := Nat.lt_of_lt_of_le hin.1 hcols
  by_cases hplace : y * width + x < bytes.length
  · have hbyte := List.getElem?_eq_getElem hplace
    have htyped := get?_typed transparency hfull hx hin hbyte (Nat.zero_add _).symm
    exact .inl ⟨_, hbyte, Option.some.inj (hcell.symm.trans htyped)⟩
  · have hbehind : 0 + bytes.length ≤ y * width + x := by omega
    have hkept := get?_typed_of_outside transparency hfull hx (.inr hbehind)
    have hempty := hkept.trans (Grid.get?_fresh hin)
    exact .inr ⟨Nat.le_of_not_lt hplace, Option.some.inj (hcell.symm.trans hempty)⟩

end Typing

/-- A printed character is drawn like the empty screen, but for its glyph. -/
theorem View.draw_stamp (view : View) {c : Char} (hc : CodePage.Printable c)
    (transparency : Bool) :
    view.draw (({} : Pen).stamp (CodePage.encodeChar c) transparency) =
      { view.draw .untouched with glyph := CodePage.shown c } := by
  obtain ⟨hglyph, hne⟩ := CodePage.glyph_encodeChar hc
  have hstamp : ({} : Pen).stamp (CodePage.encodeChar c) transparency =
      Cell.pack (CodePage.encodeChar c) 7 0 false false := by
    cases transparency <;> rfl
  have hprinted : Grid.glyphOf (Cell.pack (CodePage.encodeChar c) 7 0 false false) =
      CodePage.shown c := by
    rw [Grid.glyphOf, Cell.isUntouched, Cell.codepoint_pack, beq_false_of_ne hne]
    exact hglyph
  rw [hstamp]
  simp only [View.draw, hprinted, Cell.untouched, Cell.fg_pack, Cell.bg_pack, Cell.fgExplicit_pack,
    Cell.bgExplicit_pack, Cell.blinkBit_eq]

/-- A cell on black does not blink. -/
theorem Cell.blinkBit_pack (codepoint : UInt8) (fg : Nat) (fgExplicit bgExplicit : Bool) :
    (Cell.pack codepoint fg 0 fgExplicit bgExplicit).blinkBit = false := by
  rw [Cell.blinkBit_eq, Cell.bg_pack]
  rfl

/-- Settings without a fault leave a screen of at least one cell. -/
theorem Config.limits_of_fault? {config : Config} (h : config.fault? = none) :
    (1 ≤ config.maxWidth ∧ 1 ≤ config.maxHeight) ∧
      config.minWidth ≤ config.maxWidth ∧ config.minHeight ≤ config.maxHeight := by
  obtain ⟨hmaximum, hminimum, -⟩ := fault?_eq_none_iff.1 h
  exact ⟨hmaximum, hminimum⟩

namespace Session

section Legible

variable {config : Config} (hfault : config.fault? = none)
include hfault

/-- A legible text that fits is printed in rows of the largest width. -/
theorem strokes_legible {text : List Char} (hprintable : ∀ c ∈ text, CodePage.Printable c)
    (hlegible : CodePage.Legible text)
    (hfit : text.length ≤ config.maxWidth * config.maxHeight) :
    (Head.fresh config.maxWidth config.maxHeight).strokes
        (Parser.initial.parse (text.map CodePage.encodeChar)).2 =
      typed config.maxWidth 0 (text.map CodePage.encodeChar) := by
  obtain ⟨⟨hwidth, hheight⟩, -⟩ := Config.limits_of_fault? hfault
  let head := Head.fresh config.maxWidth config.maxHeight
  have hcols : head.maxCols = config.maxWidth := Nat.max_eq_left hwidth
  have hrows : head.maxRows = config.maxHeight := Nat.max_eq_left hheight
  have hparse : (Parser.initial.parse (text.map CodePage.encodeChar)).2 =
      (text.map CodePage.encodeChar).map .print := by
    rw [List.map_map]
    exact (CodePage.parse_eq_print_iff hprintable).2 hlegible
  have hroom : 0 + (text.map CodePage.encodeChar).length ≤ head.maxCols * head.maxRows := by
    rw [hcols, hrows, List.length_map, Nat.zero_add]
    exact hfit
  have htyped := head.strokes_typed rfl (hcols ▸ hwidth) (Nat.zero_mod _).symm
    (Nat.zero_div _).symm hroom
  rw [hcols] at htyped
  rw [hparse]
  exact htyped

/-- The measured screen has every place that is printed to. -/
theorem inside_of_typed {data : List UInt8}
    (hstrokes : (Head.fresh config.maxWidth config.maxHeight).strokes
      (Parser.initial.parse data).2 = typed config.maxWidth 0 data)
    (hfit : data.length ≤ config.maxWidth * config.maxHeight) {k : Nat} {byte : UInt8}
    (hbyte : data[k]? = some byte) :
    (Grid.fresh (sizeFor config data).1 (sizeFor config data).2).Inside (k % config.maxWidth)
      (k / config.maxWidth) := by
  obtain ⟨⟨hwidth, -⟩, -⟩ := Config.limits_of_fault? hfault
  have hput : .put ((0 + k) % config.maxWidth) ((0 + k) / config.maxWidth) byte {} ∈
      typed config.maxWidth 0 data := mem_typed hbyte
  have hreach := Stroke.put_le_foldl_reach hput (0, 0)
  rw [← hstrokes, Nat.zero_add] at hreach
  have hk : k < data.length := (List.getElem?_eq_some_iff.1 hbyte).1
  have hcol := Nat.mod_lt k hwidth
  have hrow : k / config.maxWidth < config.maxHeight := by
    rw [Nat.div_lt_iff_lt_mul hwidth, Nat.mul_comm]
    omega
  exact lt_sizeFor config data (by omega) (by omega) hreach.1 hreach.2

/-- **The screen of a legible text**: its characters in reading order, and nothing
else. -/
theorem screen_legible {text : List Char} (hprintable : ∀ c ∈ text, CodePage.Printable c)
    (hlegible : CodePage.Legible text)
    (hfit : text.length ≤ config.maxWidth * config.maxHeight) :
    let data := text.map CodePage.encodeChar
    let printed := fun c => ({} : Pen).stamp (CodePage.encodeChar c) config.transparency
    ∃ g, (snapshot config data data.length).grid? = some g ∧ g.Full ∧
      (∀ (k : Nat) c, text[k]? = some c →
        g.get? (k % config.maxWidth) (k / config.maxWidth) = some (printed c)) ∧
      ∀ col row cell, g.get? col row = some cell →
        (∃ c, text[row * config.maxWidth + col]? = some c ∧ cell = printed c) ∨
          text.length ≤ row * config.maxWidth + col ∧ cell = .untouched := by
  intro data printed
  obtain ⟨⟨hwidth, hheight⟩, hminWidth, hminHeight⟩ := Config.limits_of_fault? hfault
  have hlength : data.length = text.length := List.length_map _
  have hstrokes := strokes_legible hfault hprintable hlegible hfit
  let empty := Grid.fresh (sizeFor config data).1 (sizeFor config data).2
  have hfull : empty.Full := Grid.full_fresh _ _
  have hgrid : (snapshot config data data.length).grid? =
      some ((typed config.maxWidth 0 data).foldl (Stroke.drawOn config.transparency) empty) := by
    rw [snapshot, List.take_length, Terminal.grid?_process_rendering, hstrokes]
  refine ⟨_, hgrid, Stroke.full_foldl_drawOn hfull _ _, ?_, ?_⟩
  · intro k c hc
    have hbyte : data[k]? = some (CodePage.encodeChar c) := by
      rw [List.getElem?_map, hc, Option.map_some]
    have hplace : k / config.maxWidth * config.maxWidth + k % config.maxWidth = 0 + k := by
      rw [Nat.zero_add]
      exact (place_eq_iff (Nat.mod_lt k hwidth)).2 ⟨rfl, rfl⟩
    exact get?_typed _ hfull (Nat.mod_lt k hwidth)
      (inside_of_typed hfault hstrokes (hlength ▸ hfit) hbyte) hbyte hplace
  · intro col row cell hcell
    have hsize := (sizeFor_le data hwidth hheight hminWidth hminHeight).1
    rcases cell_of_typed config.transparency (by omega) hcell with ⟨byte, hbyte, rfl⟩ | hbehind
    · rw [List.getElem?_map] at hbyte
      obtain ⟨c, hc, rfl⟩ := Option.map_eq_some_iff.1 hbyte
      exact .inl ⟨c, hc, rfl⟩
    · exact .inr (hlength ▸ hbehind)

end Legible

end Session

namespace Performance

/-- **A failure can be read.**  Let nothing disturb a session over a source that fails
with a message that is not empty, has no control codes of ASCII, is legible and fits
into the largest screen allowed.  The session comes to an end, and on its last frame
character number `k` of the message stands in column `k % maxWidth` of row
`k / maxWidth`, drawn like the empty screen but for its glyph.  Every other place is
empty. -/
theorem legible_failure_is_shown {σ : Type} (stage : Stage σ) (world : σ) (config : Config)
    (sustain : Bool) (error : SourceError) (hfault : config.fault? = none)
    (hresume : config.seek.resume = true) (hsome : error.message.toList ≠ [])
    (hprintable : ∀ c ∈ error.message.toList, CodePage.Printable c)
    (hlegible : CodePage.Legible error.message.toList)
    (hfit : error.message.toList.length ≤ config.maxWidth * config.maxHeight)
    (hfree : ∀ n, (fresh config sustain (.ofLoader (.fails error)) world).RunsFreely stage n) :
    let p := fresh config sustain (.ofLoader (.fails error)) world
    let text := error.message.toList
    let blank := config.view.draw .untouched
    ∃ last f, p.EndsWith stage last f ∧
      (∀ (k : Nat) (c : Char), text[k]? = some c →
        f.drawnAt (k % config.maxWidth) (k / config.maxWidth) =
          some { blank with glyph := CodePage.shown c }) ∧
      ∀ col row drawn, f.drawnAt col row = some drawn →
        text.length ≤ row * config.maxWidth + col → drawn = blank := by
  intro p text blank
  let source : Source := .ofLoader (.fails error)
  let data := (Acquired.failure error).data
  have hacquired : source.resolve.1 = some (.failure error) := rfl
  have hlength : data.length = text.length := List.length_map _
  have hplayed : data.length ≠ 0 := by
    rw [hlength]
    exact fun hzero => hsome (List.length_eq_zero_iff.1 hzero)
  obtain ⟨g, hgrid, hfull, hprinted, hcells⟩ :=
    Session.screen_legible hfault hprintable hlegible hfit
  have hshows : ∀ f, p.result stage
      (source.placeholders + ((Burst.plan config data.length).length - 1)) = .frame f →
        f.Shows (Session.snapshot config data data.length) config.view := by
    intro f hf
    have hend : source.placeholders + (Burst.plan config data.length).length ≤
        source.placeholders + ((Burst.plan config data.length).length - 1) + 1 := by omega
    obtain ⟨hshows, -⟩ := ends_result hacquired hresume (Nat.le_add_right _ _) hend (hfree _) hf
    rwa [Session.ShowsPlayed, if_neg hplayed] at hshows
  have hsteady : ∀ col row cell, g.get? col row = some cell → cell.blinkBit = false := by
    intro col row cell hcell
    rcases hcells col row cell hcell with ⟨c, -, rfl⟩ | ⟨-, rfl⟩
    · exact Cell.blinkBit_pack ..
    · exact Cell.blinkBit_pack ..
  have hstill : ∀ f, p.result stage
      (source.placeholders + ((Burst.plan config data.length).length - 1)) = .frame f →
        f.willBlink = false := by
    intro f hf
    obtain ⟨shown, hshown, -, -, -, hblink⟩ := hshows f hf
    obtain rfl : shown = g := Option.some.inj (hshown.symm.trans hgrid)
    exact hblink.trans (Grid.anyBlinks_lines hfull config.view hsteady)
  obtain ⟨f, hf⟩ := exists_endsWith hacquired hfree (.inr hstill)
  have hdrawn := (hshows f hf.1).drawnAt_eq hgrid hfull
  refine ⟨_, f, hf, ?_, ?_⟩
  · intro k c hc
    have hcPrintable : CodePage.Printable c := hprintable c (List.mem_of_getElem? hc)
    rw [hdrawn, hprinted k c hc, Option.map_some, View.draw_stamp _ hcPrintable]
  · intro col row drawn hplace hbehind
    rw [hdrawn] at hplace
    obtain ⟨cell, hcell, rfl⟩ := Option.map_eq_some_iff.1 hplace
    rcases hcells col row cell hcell with ⟨c, hc, -⟩ | ⟨-, rfl⟩
    · have hlt := (List.getElem?_eq_some_iff.1 hc).1
      exact absurd hbehind (Nat.not_le.2 hlt)
    · rfl

/-- A message with an arrow that takes a heart along, and with a character that the code
page lacks, played byte by byte on two rows. -/
theorem legible_failure_is_shown_wrapped :
    let config : Config :=
      { modemSpeed := .bps 200, minWidth := 4, minHeight := 1, maxWidth := 5, maxHeight := 2 }
    let error : SourceError := .unavailable "no ←♥字!"
    let p := fresh config true (.ofLoader (.fails error)) ()
    let blank := config.view.draw .untouched
    config.fault? = none ∧ CodePage.Legible error.message.toList ∧
      ∃ last f, p.EndsWith .silent last f ∧
        f.drawnAt 4 0 = some { blank with glyph := '♥' } ∧
        f.drawnAt 0 1 = some { blank with glyph := '?' } ∧
        ∀ drawn, f.drawnAt 2 1 = some drawn → drawn = blank := by
  intro config error p blank
  have hfault : config.fault? = none := by decide +kernel
  have htext : error.message.toList = ['n', 'o', ' ', '←', '♥', '字', '!'] := by decide +kernel
  have hlegible : CodePage.Legible error.message.toList := by
    rw [htext]
    simp [CodePage.Legible, CodePage.acting]
  obtain ⟨last, f, hends, hshown, hblank⟩ := legible_failure_is_shown .silent () config true error
    hfault rfl (by rw [htext]; decide) (CodePage.printable_of_all (by decide +kernel)) hlegible
    (by rw [htext]; decide) (runsFreely_silent _)
  rw [htext] at hshown hblank
  have hheart : CodePage.shown '♥' = '♥' := by decide +kernel
  have hlacking : CodePage.shown '字' = '?' :=
    if_neg (by rw [← Array.mem_toList_iff]; decide +kernel)
  have hlast : 4 % config.maxWidth = 4 ∧ 4 / config.maxWidth = 0 := by decide
  have hnext : 5 % config.maxWidth = 0 ∧ 5 / config.maxWidth = 1 := by decide
  refine ⟨hfault, hlegible, last, f, hends, ?_, ?_, ?_⟩
  · rw [← hheart, ← hshown 4 '♥' rfl, hlast.1, hlast.2]
  · rw [← hlacking, ← hshown 5 '字' rfl, hnext.1, hnext.2]
  · intro drawn hdrawn
    exact hblank 2 1 drawn hdrawn (by decide)

/-- A session comes to an end once. -/
theorem EndsWith.unique {σ : Type} {stage : Stage σ} {p : Performance σ} {m n : Nat}
    {f g : Frame} (hf : p.EndsWith stage m f) (hg : p.EndsWith stage n g) : m = n ∧ f = g := by
  obtain ⟨hframe, hover⟩ := hf
  obtain ⟨hframe', hover'⟩ := hg
  rcases Nat.lt_trichotomy m n with hlt | rfl | hgt
  · obtain ⟨k, rfl⟩ := Nat.exists_eq_add_of_le hlt
    exact absurd (hframe'.symm.trans (hover k)) Step.noConfusion
  · exact ⟨rfl, Step.frame.inj (hframe.symm.trans hframe')⟩
  · obtain ⟨k, rfl⟩ := Nat.exists_eq_add_of_le hgt
    exact absurd (hframe.symm.trans (hover' k)) Step.noConfusion

/-- A bullet in a message rings the bell, and the next character stands in its place:
with `a•b` on a row of four, the bullet is nowhere. -/
theorem bullet_is_not_shown :
    let config : Config := { minWidth := 4, minHeight := 1, maxWidth := 4, maxHeight := 1 }
    let error : SourceError := .unavailable "a•b"
    let p := fresh config false (.ofLoader (.fails error)) ()
    let blank := config.view.draw .untouched
    config.fault? = none ∧ (∀ c ∈ error.message.toList, CodePage.Printable c) ∧
      error.message.toList.length ≤ config.maxWidth * config.maxHeight ∧
      ¬∃ last f, p.EndsWith .silent last f ∧
        ∀ (k : Nat) (c : Char), error.message.toList[k]? = some c →
          f.drawnAt (k % config.maxWidth) (k / config.maxWidth) =
            some { blank with glyph := CodePage.shown c } := by
  intro config error p blank
  refine ⟨by decide +kernel, CodePage.printable_of_all (by decide +kernel), by decide +kernel, ?_⟩
  rintro ⟨last, f, hends, hshown⟩
  have hacquired : p.source.resolve.1 = some (.failure error) := rfl
  obtain ⟨f, hf⟩ := exists_endsWith hacquired (runsFreely_silent p) (.inl rfl)
  obtain ⟨rfl, rfl⟩ := hends.unique hf
  obtain ⟨hshows, -⟩ := ends_result hacquired rfl (Nat.le_add_right _ _) (by omega)
    (runsFreely_silent p _) hf.1
  have hdata : (Acquired.failure error).data = [0x61, 0x07, 0x62] := by decide +kernel
  have hscreen : (Session.snapshot config [0x61, 0x07, 0x62] 3).grid?.map
      (Grid.lines · config.view) = some [[⟨"ab  ", some 7, some 0, false, false⟩]] := by
    decide +kernel
  rw [hdata] at hshows
  obtain ⟨g, hg, -, -, hlines, -⟩ := hshows
  have hg' : (Session.snapshot config [0x61, 0x07, 0x62] 3).grid? = some g := hg
  rw [hg', Option.map_some, ← hlines] at hscreen
  have hletter : (f.drawnAt 1 0).map Drawn.glyph = some 'b' := by
    rw [Frame.drawnAt, Option.some.inj hscreen]
    decide +kernel
  have hsecond : 1 % config.maxWidth = 1 ∧ 1 / config.maxWidth = 0 := by decide
  have hbullet := hshown 1 '•' (by decide +kernel)
  rw [hsecond.1, hsecond.2] at hbullet
  rw [hbullet, Option.map_some] at hletter
  exact absurd hletter (by decide +kernel)

end Performance

end BaudReel
