import BaudReel.Proofs.Sizing
import Mathlib.Algebra.Group.Nat.Defs

/-!
# What the pen leaves in the cells

Rendition codes come in any order, and yet they cannot do everything to a pen.  A base
stays below eight, and a base that the art has not chosen is the one that the pen began
with: whatever else changes a base also records that it was chosen (`Pen.Regular`).  So
it is behind every run of actions, and all strokes of the run are drawn with such pens
(`Head.regular_of_mem_strokes`).

Strokes write stamps of their pens, and otherwise move cells around.  A screen that holds
only stamps of some pens therefore does so behind every run drawn with pens of the same
kind (`Grid.StampedBy.foldl_drawOn`), and the screen of a stream holds stamps of regular
pens (`Terminal.exists_stampedBy`).  What that says of a single cell is `Cell.Inked`.
-/

namespace BaudReel

/-- What no rendition code breaks: bases are below eight, and a base that the art has not
chosen is still the default one. -/
structure Pen.Regular (p : Pen) : Prop where
  fgBase_lt : p.fgBase < 8
  bgBase_lt : p.bgBase < 8
  fgBase_of_unchosen : p.fgExplicit = false → p.fgBase = 7
  bgBase_of_unchosen : p.bgExplicit = false → p.bgBase = 0

/-- What a cell tells of its colours: its word has no bits beyond the flags, a foreground
that the art has not chosen is gray or bright gray and such a background black or bright
black, and an opaque screen keeps no record of choices. -/
structure Cell.Inked (transparency : Bool) (c : Cell) : Prop where
  bits_lt : c.bits.toNat < 2 ^ 18
  fg_of_unchosen : transparency = true → c.fgExplicit = false → c.fg % 8 = 7
  bg_of_unchosen : transparency = true → c.bgExplicit = false → c.bg % 8 = 0
  unrecorded : transparency = false → c.fgExplicit = false ∧ c.bgExplicit = false

/-- Cells that have no bits beyond the flags agree in their attributes if they agree in
the fields. -/
theorem Cell.attributes_eq_of_fields {a b : Cell} (ha : a.bits.toNat < 2 ^ 18)
    (hb : b.bits.toNat < 2 ^ 18) (hfg : a.fg = b.fg) (hbg : a.bg = b.bg)
    (hfgSet : a.fgExplicit = b.fgExplicit) (hbgSet : a.bgExplicit = b.bgExplicit) :
    a.attributes = b.attributes := by
  simp only [fg, bg, fgExplicit, bgExplicit, Bool.beq_eq_decide_eq, decide_eq_decide] at *
  rw [attributes, attributes]
  omega

namespace Pen

variable {p : Pen}

/-- The pen of a new head has colours of the palette. -/
theorem regular_default : ({} : Pen).Regular where
  fgBase_lt := by decide
  bgBase_lt := by decide
  fgBase_of_unchosen _ := rfl
  bgBase_of_unchosen _ := rfl

/-- Each code keeps a pen regular.  Reversing and concealing move bases to the other
side, where they may be any, but they count as chosen there. -/
theorem Regular.select (h : p.Regular) (code : Nat) : (p.select code).Regular := by
  obtain ⟨hfg, hbg, hfgUnchosen, hbgUnchosen⟩ := h
  unfold Pen.select
  split
  · exact regular_default
  split
  · exact ⟨hfg, hbg, hfgUnchosen, hbgUnchosen⟩
  split
  · exact ⟨hfg, hbg, hfgUnchosen, hbgUnchosen⟩
  split
  · exact ⟨hfg, hbg, hfgUnchosen, hbgUnchosen⟩
  split
  · exact ⟨hbg, hfg, (nomatch ·), (nomatch ·)⟩
  split
  · exact ⟨hbg, hbg, (nomatch ·), hbgUnchosen⟩
  split
  · exact ⟨hfg, hbg, hfgUnchosen, hbgUnchosen⟩
  split
  case isTrue hcode => exact ⟨show code - 30 < 8 by omega, hbg, (nomatch ·), hbgUnchosen⟩
  split
  case isTrue hcode => exact ⟨hfg, show code - 40 < 8 by omega, hfgUnchosen, (nomatch ·)⟩
  exact ⟨hfg, hbg, hfgUnchosen, hbgUnchosen⟩

/-- A regular pen stays so under every list of codes. -/
theorem Regular.selectAll (h : p.Regular) (codes : List Nat) : (p.selectAll codes).Regular := by
  induction codes generalizing p with
  | nil => exact h
  | cons code codes ih => exact ih (h.select code)

/-- The foreground of a regular pen is a colour of the palette. -/
theorem Regular.fg_lt (h : p.Regular) : p.fg < 16 := by
  have hbase := h.fgBase_lt
  rw [fg]
  split <;> omega

theorem Regular.bg_lt (h : p.Regular) : p.bg < 16 := by
  have hbase := h.bgBase_lt
  rw [bg]
  split <;> omega

/-- A stamp shows the colours of its pen, undiminished. -/
theorem Regular.fg_stamp (h : p.Regular) (codepoint : UInt8) (transparency : Bool) :
    (p.stamp codepoint transparency).fg = p.fg := by
  rw [stamp, Cell.fg_pack, Nat.mod_eq_of_lt h.fg_lt]

/-- A cell stamped with a regular pen has its background. -/
theorem Regular.bg_stamp (h : p.Regular) (codepoint : UInt8) (transparency : Bool) :
    (p.stamp codepoint transparency).bg = p.bg := by
  rw [stamp, Cell.bg_pack, Nat.mod_eq_of_lt h.bg_lt]

/-- A stamped cell knows of a chosen foreground where that matters. -/
@[simp]
theorem fgExplicit_stamp (p : Pen) (codepoint : UInt8) (transparency : Bool) :
    (p.stamp codepoint transparency).fgExplicit = (transparency && p.fgExplicit) :=
  Cell.fgExplicit_pack ..

@[simp]
theorem bgExplicit_stamp (p : Pen) (codepoint : UInt8) (transparency : Bool) :
    (p.stamp codepoint transparency).bgExplicit = (transparency && p.bgExplicit) :=
  Cell.bgExplicit_pack ..

/-- A stamped cell has 18 bits. -/
theorem toNat_stamp_lt (p : Pen) (codepoint : UInt8) (transparency : Bool) :
    (p.stamp codepoint transparency).bits.toNat < 2 ^ 18 := by
  have hcode := codepoint.toNat_lt
  have hfg := (transparency && p.fgExplicit).toNat_le
  have hbg := (transparency && p.bgExplicit).toNat_le
  rw [stamp, Cell.toNat_pack]
  omega

/-- **The ink of a regular pen.** -/
theorem Regular.inked_stamp (h : p.Regular) (codepoint : UInt8) (transparency : Bool) :
    (p.stamp codepoint transparency).Inked transparency where
  bits_lt := p.toNat_stamp_lt codepoint transparency
  fg_of_unchosen htransparent hunchosen := by
    rw [fgExplicit_stamp, htransparent, Bool.true_and] at hunchosen
    rw [h.fg_stamp, fg, h.fgBase_of_unchosen hunchosen]
    split <;> rfl
  bg_of_unchosen htransparent hunchosen := by
    rw [bgExplicit_stamp, htransparent, Bool.true_and] at hunchosen
    rw [h.bg_stamp, bg, h.bgBase_of_unchosen hunchosen]
    split <;> rfl
  unrecorded hsolid := by
    rw [fgExplicit_stamp, bgExplicit_stamp, hsolid]
    exact ⟨rfl, rfl⟩

/-- A fresh screen looks as if the default pen had blanked it. -/
theorem untouched_eq_stamp (transparency : Bool) :
    Cell.untouched = ({} : Pen).stamp 0 transparency := by
  cases transparency <;> rfl

end Pen

/-- The pen that a stroke is drawn with. -/
def Stroke.pen : Stroke → Pen
  | .put _ _ _ pen => pen
  | .rearrange _ pen => pen

namespace Head

variable {h : Head}

theorem pen_print (h : Head) (codepoint : UInt8) : (h.print codepoint).1.pen = h.pen := by
  have hadvance : ∀ row, (h.advance row).pen = h.pen := by
    intro row
    rw [advance]
    split <;> rfl
  rw [print]
  split <;> exact hadvance _

theorem pen_control (h : Head) (code : ControlCode) : (h.control code).1.pen = h.pen := by
  cases code <;> rfl

theorem pen_eraseInDisplay (h : Head) (mode : EraseMode) :
    (h.eraseInDisplay mode).1.pen = h.pen := by
  cases mode <;> rfl

/-- A control sequence takes up no other pen than by rendition codes. -/
theorem pen_sequence (h : Head) (s : ControlSequence) :
    (h.sequence s).1.pen = h.pen ∨ ∃ codes, (h.sequence s).1.pen = h.pen.selectAll codes := by
  rw [sequence]
  split
  case h_7 =>
    split
    · exact .inl (h.pen_eraseInDisplay _)
    · exact .inl rfl
  case h_8 => split <;> exact .inl rfl
  -- `m`
  case h_15 => exact .inr ⟨_, rfl⟩
  all_goals exact .inl rfl

/-- A regular pen stays so under every action. -/
theorem regular_apply (hpen : h.pen.Regular) (a : Action) : (h.apply a).1.pen.Regular := by
  cases a with
  | print codepoint =>
    rw [apply, pen_print]
    exact hpen
  | control code =>
    rw [apply, pen_control]
    exact hpen
  | sequence s =>
    rw [apply]
    rcases h.pen_sequence s with hsame | ⟨codes, hselected⟩
    · rw [hsame]
      exact hpen
    · rw [hselected]
      exact hpen.selectAll codes
  | endOfText => exact hpen
  | metadata text => exact hpen

/-- A regular pen stays so under every run of actions. -/
theorem regular_after (hpen : h.pen.Regular) (actions : List Action) :
    (h.after actions).pen.Regular := by
  induction actions generalizing h with
  | nil => exact hpen
  | cons a actions ih => exact ih (regular_apply hpen a)

/-- The strokes of a run are drawn with the pens that the head holds on its way. -/
theorem Inbound.exists_pen_eq (hin : h.Inbound) {actions : List Action} {stroke : Stroke}
    (hstroke : stroke ∈ h.strokes actions) :
    ∃ before, before <+: actions ∧ stroke.pen = (h.after before).pen := by
  obtain ⟨before, a, later, rfl, hmem⟩ := mem_strokes hstroke
  refine ⟨before, List.prefix_append _ _, ?_⟩
  rcases (hin.after before).mem_apply hmem with ⟨codepoint, -, rfl⟩ | ⟨r, rfl, -⟩ <;> rfl

/-- All strokes of a head with a regular pen are drawn with regular pens. -/
theorem Inbound.regular_of_mem_strokes (hin : h.Inbound) (hpen : h.pen.Regular)
    {actions : List Action} {stroke : Stroke} (hstroke : stroke ∈ h.strokes actions) :
    stroke.pen.Regular := by
  obtain ⟨before, -, heq⟩ := hin.exists_pen_eq hstroke
  rw [heq]
  exact regular_after hpen before

end Head

/-- Every cell of the grid is a stamp of some pen of the given kind. -/
def Grid.StampedBy (g : Grid) (transparency : Bool) (inks : Pen → Prop) : Prop :=
  ∀ col row c, g.get? col row = some c →
    ∃ pen codepoint, inks pen ∧ c = pen.stamp codepoint transparency

namespace Grid.StampedBy

variable {g : Grid} {transparency : Bool} {inks : Pen → Prop}

/-- The cells of a new grid are stamped with the pen of a new head. -/
theorem fresh (cols rows : Nat) (hdefault : inks {}) :
    (Grid.fresh cols rows).StampedBy transparency inks := by
  intro col row c hc
  rw [Grid.get?_fresh (inside_of_get? hc)] at hc
  exact ⟨{}, 0, hdefault, (Option.some.inj hc).symm.trans (Pen.untouched_eq_stamp transparency)⟩

/-- One stroke: a cell behind it is one from before, or a stamp of the stroke's pen. -/
theorem drawOn (h : g.StampedBy transparency inks) (hg : g.Full) {stroke : Stroke}
    (hpen : inks stroke.pen) : (stroke.drawOn transparency g).StampedBy transparency inks := by
  intro x y c hc
  have hxy : g.Inside x y := (stroke.inside_drawOn transparency).1 (inside_of_get? hc)
  cases stroke with
  | put col row codepoint pen =>
    rw [Stroke.drawOn, get?_set hg] at hc
    split at hc
    · exact ⟨pen, codepoint, hpen, (Option.some.inj hc).symm⟩
    · exact h x y c hc
  | rearrange r pen =>
    rw [Stroke.drawOn, get?_rearrange hg r _ hxy, cellBehind, Option.some.injEq] at hc
    cases horigin : (r.origin x y).bind fun p => g.get? p.1 p.2 with
    | none =>
      rw [horigin] at hc
      exact ⟨pen, 0, hpen, hc.symm⟩
    | some d =>
      obtain ⟨p, -, hp⟩ := Option.bind_eq_some_iff.1 horigin
      rw [horigin] at hc
      obtain rfl : d = c := hc
      exact h p.1 p.2 d hp

/-- **A run of strokes** leaves no other stamps than of its pens. -/
theorem foldl_drawOn (h : g.StampedBy transparency inks) (hg : g.Full) {strokes : List Stroke}
    (hpens : ∀ stroke ∈ strokes, inks stroke.pen) :
    (strokes.foldl (Stroke.drawOn transparency) g).StampedBy transparency inks := by
  induction strokes generalizing g with
  | nil => exact h
  | cons stroke strokes ih =>
    obtain ⟨hfirst, hlater⟩ := List.forall_mem_cons.1 hpens
    exact ih (h.drawOn hg hfirst) (stroke.full_drawOn transparency hg) hlater

end Grid.StampedBy

/-- **What a stream draws.**  The screen of a terminal is full behind every stretch of a
stream, and it holds nothing but stamps of regular pens. -/
theorem Terminal.exists_stampedBy (cols rows maxCols maxRows : Nat) (transparency : Bool)
    (bytes : List UInt8) :
    ∃ g, ((rendering cols rows maxCols maxRows transparency).process bytes).grid? = some g ∧
      g.Full ∧ g.StampedBy transparency Pen.Regular := by
  refine ⟨_, grid?_process_rendering .., ?_, ?_⟩
  · exact Stroke.full_foldl_drawOn (Grid.full_fresh cols rows) transparency _
  · refine Grid.StampedBy.foldl_drawOn (.fresh cols rows Pen.regular_default)
      (Grid.full_fresh cols rows) ?_
    intro stroke hstroke
    exact (Head.inbound_fresh maxCols maxRows).regular_of_mem_strokes Pen.regular_default hstroke

end BaudReel
