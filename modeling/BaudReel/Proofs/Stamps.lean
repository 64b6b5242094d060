import BaudReel.Proofs.Drawing
import BaudReel.Proofs.Inks

/-!
# Every cell gives its pen back

A cell has four bits for each colour and no room beside them, and a pen has more fields than
a cell has bits to spare.  Nothing is lost all the same.  The pens of a stream are regular,
so that both their colours fit (`Pen.Regular.word_stamp`), and a stamp can be taken apart
into the code point and the colours of its pen again, base and brightness each for itself
(`Pen.Regular.bears_stamp`).

Which pens these are is known too.  A byte draws with the pen that was held in front of it:
those that change the pen draw nothing, and of the two glyphs of an escape the first leaves
the pen alone (`Head.Inbound.pen_of_mem_step`).  So the strokes of a stretch are drawn with
pens that the terminal held on its way (`Terminal.Held`), and cells are only ever stamped
with those or moved.  The main statement is `Terminal.cells_give_pens_back`.
-/

namespace BaudReel

/-- A cell is the stamp of a pen, and tells the code point and the pen that it is from. -/
structure Cell.Bears (c : Cell) (transparency : Bool) (codepoint : UInt8) (p : Pen) : Prop where
  eq_stamp : c = p.stamp codepoint transparency
  /-- The word consists of its fields, each in bits of its own, and nothing else is set. -/
  word : c.bits.toBitVec =
    0#14 ++ BitVec.ofBool (transparency && p.bgExplicit) ++
      BitVec.ofBool (transparency && p.fgExplicit) ++ BitVec.ofNat 4 p.fg ++
      BitVec.ofNat 4 p.bg ++ codepoint.toBitVec
  codepoint_eq : c.codepoint = codepoint
  fg_eq : c.fg = p.fg
  bg_eq : c.bg = p.bg
  /-- Base and brightness of a colour do not run into each other. -/
  fg_parts : c.fg % 8 = p.fgBase ∧ (8 ≤ c.fg ↔ p.fgBright = true)
  bg_parts : c.bg % 8 = p.bgBase ∧ (8 ≤ c.bg ↔ p.bgBright = true)
  fgExplicit_eq : c.fgExplicit = (transparency && p.fgExplicit)
  bgExplicit_eq : c.bgExplicit = (transparency && p.bgExplicit)

namespace Pen

variable {p : Pen}

/-- A colour of a regular pen is its base, and eight more if it is bright. -/
theorem Regular.fg_eq (h : p.Regular) : p.fg = p.fgBase + 8 * p.fgBright.toNat := by
  have hbase := h.fgBase_lt
  rw [fg]
  cases p.fgBright <;> simp <;> omega

/-- The background of a regular pen is its base and its brightness. -/
theorem Regular.bg_eq (h : p.Regular) : p.bg = p.bgBase + 8 * p.bgBright.toNat := by
  have hbase := h.bgBase_lt
  rw [bg]
  cases p.bgBright <;> simp <;> omega

/-- The word of a stamp is made of its fields. -/
theorem Regular.word_stamp (h : p.Regular) (codepoint : UInt8) (transparency : Bool) :
    (p.stamp codepoint transparency).bits.toBitVec =
      0#14 ++ BitVec.ofBool (transparency && p.bgExplicit) ++
        BitVec.ofBool (transparency && p.fgExplicit) ++ BitVec.ofNat 4 p.fg ++
        BitVec.ofNat 4 p.bg ++ codepoint.toBitVec := by
  have hfg : p.fg < 2 ^ 4 := h.fg_lt
  have hbg : p.bg < 2 ^ 4 := h.bg_lt
  have hcode : codepoint.toBitVec.toNat < 2 ^ 8 := codepoint.toBitVec.isLt
  have hset := (transparency && p.fgExplicit).toNat_lt
  have hword : (p.stamp codepoint transparency).bits.toNat =
      codepoint.toBitVec.toNat + p.bg % 16 * 256 + p.fg % 16 * 4096 +
        65536 * (transparency && p.fgExplicit).toNat +
        131072 * (transparency && p.bgExplicit).toNat :=
    Cell.toNat_pack codepoint p.fg p.bg _ _
  apply BitVec.eq_of_toNat_eq
  -- a field shifted in front of others that fit below it is added to them
  simp only [BitVec.toNat_append, BitVec.toNat_ofBool, BitVec.toNat_ofNat, Nat.mod_eq_of_lt hfg,
    Nat.mod_eq_of_lt hbg]
  rw [← Nat.shiftLeft_add_eq_or_of_lt hcode, ← Nat.shiftLeft_add_eq_or_of_lt hbg,
    ← Nat.shiftLeft_add_eq_or_of_lt hfg, ← Nat.shiftLeft_add_eq_or_of_lt hset,
    ← Nat.shiftLeft_add_eq_or_of_lt (Bool.toNat_lt _), UInt32.toNat_toBitVec, hword]
  simp only [Nat.shiftLeft_eq]
  omega

/-- **What a stamp tells.**  The colours of a regular pen fit into a cell, so that they are
read back as they were, base and brightness each for itself. -/
theorem Regular.bears_stamp (h : p.Regular) (codepoint : UInt8) (transparency : Bool) :
    (p.stamp codepoint transparency).Bears transparency codepoint p where
  eq_stamp := rfl
  word := h.word_stamp codepoint transparency
  codepoint_eq := Cell.codepoint_pack ..
  fg_eq := h.fg_stamp codepoint transparency
  bg_eq := h.bg_stamp codepoint transparency
  fg_parts := by
    have hbase := h.fgBase_lt
    rw [h.fg_stamp, h.fg_eq]
    cases p.fgBright <;> simp <;> omega
  bg_parts := by
    have hbase := h.bgBase_lt
    rw [h.bg_stamp, h.bg_eq]
    cases p.bgBright <;> simp <;> omega
  fgExplicit_eq := p.fgExplicit_stamp codepoint transparency
  bgExplicit_eq := p.bgExplicit_stamp codepoint transparency

end Pen

/-- A byte that has been read asks for nothing, for one thing, or for the two glyphs of an
escape that opens no control sequence. -/
theorem Parser.step_snd (p : Parser) (byte : UInt8) :
    (p.step byte).2 = [] ∨ (∃ a, (p.step byte).2 = [a]) ∨
      (p.step byte).2 = [.print escapeByte, .print byte] := by
  cases p with
  | ground =>
    rw [step, stepGround]
    cases ControlCode.ofByte? byte with
    | some code => exact .inr (.inl ⟨_, rfl⟩)
    | none =>
      dsimp only
      split
      · exact .inr (.inl ⟨_, rfl⟩)
      · split
        · exact .inl rfl
        · exact .inr (.inl ⟨_, rfl⟩)
  | escape =>
    rw [step]
    split
    · exact .inl rfl
    · exact .inr (.inr rfl)
  | params kept =>
    rw [step]
    split
    · exact .inr (.inl ⟨_, rfl⟩)
    · split <;> exact .inl rfl
  | trailer begun =>
    rw [step]
    split
    · cases string? begun with
      | none => exact .inl rfl
      | some a => exact .inr (.inl ⟨a, rfl⟩)
    · exact .inl rfl

namespace Head

variable {h : Head}

/-- The strokes of an action are drawn with the pen that was held in front of it. -/
theorem Inbound.pen_of_mem_apply (hin : h.Inbound) {a : Action} {stroke : Stroke}
    (hstroke : stroke ∈ (h.apply a).2) : stroke.pen = h.pen := by
  rcases hin.mem_apply hstroke with ⟨codepoint, -, rfl⟩ | ⟨r, rfl, -⟩ <;> rfl

/-- **One byte** draws with the pen that was held in front of it. -/
theorem Inbound.pen_of_mem_step (hin : h.Inbound) {p : Parser} {byte : UInt8} {stroke : Stroke}
    (hstroke : stroke ∈ h.strokes (p.step byte).2) : stroke.pen = h.pen := by
  rcases p.step_snd byte with hnone | ⟨a, hone⟩ | htwo
  · rw [hnone] at hstroke
    exact absurd hstroke List.not_mem_nil
  · rw [hone, strokes, strokes, List.append_nil] at hstroke
    exact hin.pen_of_mem_apply hstroke
  · rw [htwo, strokes, strokes, strokes, List.append_nil] at hstroke
    rcases List.mem_append.1 hstroke with hfirst | hsecond
    · exact hin.pen_of_mem_apply hfirst
    · rw [(hin.apply _).pen_of_mem_apply hsecond]
      exact h.pen_print _

end Head

namespace Terminal

/-- A pen that the terminal holds somewhere on its way through a stretch of a stream. -/
def Held (t : Terminal) (bytes : List UInt8) (p : Pen) : Prop :=
  ∃ front, front <+: bytes ∧ (t.process front).head.pen = p

/-- The pen in front of a stretch is held in it. -/
theorem held_first (t : Terminal) (bytes : List UInt8) : t.Held bytes t.head.pen :=
  ⟨[], List.nil_prefix, rfl⟩

/-- A pen that is held behind a byte is held in the stretch with this byte. -/
theorem Held.cons {t : Terminal} {byte : UInt8} {rest : List UInt8} {p : Pen}
    (h : (t.feed byte).Held rest p) : t.Held (byte :: rest) p := by
  obtain ⟨front, hfront, hpen⟩ := h
  exact ⟨byte :: front, List.cons_prefix_cons.2 ⟨rfl, hfront⟩, hpen⟩

/-- **A stretch** draws with the pens that are held on the way through it. -/
theorem held_of_mem_strokes {t : Terminal} (hin : t.head.Inbound) {bytes : List UInt8}
    {stroke : Stroke} (hstroke : stroke ∈ t.head.strokes (t.parser.parse bytes).2) :
    t.Held bytes stroke.pen := by
  induction bytes generalizing t with
  | nil => exact absurd hstroke List.not_mem_nil
  | cons byte rest ih =>
    have hhead : (t.feed byte).head = t.head.after (t.parser.step byte).2 :=
      head_foldl_apply _ _
    have hparser : (t.feed byte).parser = (t.parser.step byte).1 := t.parser_process [byte]
    rw [Parser.parse_cons, Head.strokes_append, List.mem_append] at hstroke
    rcases hstroke with hhere | hlater
    · rw [hin.pen_of_mem_step hhere]
      exact t.held_first _
    · refine Held.cons (ih ?_ ?_)
      · rw [hhead]
        exact hin.after _
      · rw [hhead, hparser]
        exact hlater

/-- Every pen that is held in a stretch is regular. -/
theorem Held.regular {t : Terminal} (hpen : t.head.pen.Regular) {bytes : List UInt8} {p : Pen}
    (h : t.Held bytes p) : p.Regular := by
  obtain ⟨front, -, rfl⟩ := h
  rw [head_process]
  exact Head.regular_after hpen _

/-- **Cells give their pens back.**  On a screen of any size and transparency, behind every
byte of every stream:

* The pen is regular: its bases are below eight, and a base that the art has not chosen is
  the default one.
* Every cell is the stamp of a pen that was held on the way, has no bits beyond the fields of
  a stamp, and gives back the code point and the colours of that pen.
* On an opaque screen no cell has recorded a choice, and on a transparent one a cell without
  such a record has the default base. -/
theorem cells_give_pens_back (cols rows maxCols maxRows : Nat) (transparency : Bool)
    (bytes : List UInt8) :
    let fresh := rendering cols rows maxCols maxRows transparency
    (fresh.process bytes).head.pen.Regular ∧
      ∃ g, (fresh.process bytes).grid? = some g ∧
        (g.cols = max cols 1 ∧ g.rows = max rows 1 ∧ g.Full) ∧
        ∀ c ∈ g.cells, c.Inked transparency ∧
          ∃ p codepoint, fresh.Held bytes p ∧ c.Bears transparency codepoint p := by
  intro fresh
  have hin : fresh.head.Inbound := Head.inbound_fresh maxCols maxRows
  have hheld : ∀ p, fresh.Held bytes p → p.Regular := fun p hp => hp.regular Pen.regular_default
  have hlast : fresh.Held bytes (fresh.process bytes).head.pen := ⟨bytes, List.prefix_rfl, rfl⟩
  have hfresh := Grid.full_fresh cols rows
  obtain ⟨hcols, hrows⟩ := Stroke.size_foldl_drawOn (.fresh cols rows) transparency
    (fresh.head.strokes (fresh.parser.parse bytes).2)
  have hfull := Stroke.full_foldl_drawOn hfresh transparency
    (fresh.head.strokes (fresh.parser.parse bytes).2)
  have hstamped : Grid.StampedBy _ transparency (fresh.Held bytes) :=
    Grid.StampedBy.foldl_drawOn (.fresh cols rows (fresh.held_first bytes)) hfresh
      fun stroke hstroke => held_of_mem_strokes hin hstroke
  refine ⟨hheld _ hlast, _, grid?_process_rendering .., ⟨hcols, hrows, hfull⟩, ?_⟩
  intro c hc
  obtain ⟨col, row, hplace⟩ := (Grid.mem_cells_iff hfull).1 hc
  obtain ⟨p, codepoint, hp, rfl⟩ := hstamped col row c hplace
  have hregular := hheld p hp
  exact ⟨hregular.inked_stamp codepoint transparency, p, codepoint, hp,
    hregular.bears_stamp codepoint transparency⟩

end Terminal

end BaudReel
