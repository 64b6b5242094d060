import BaudReel.Proofs.Bells
import BaudReel.Proofs.Renditions

/-!
# Input that is ignored

Three kinds of tokens leave a screen alone: the bell, control sequences whose letter names no
command, and erasures whose mode is none (`Token.Inert`).  Between two tokens the reader
remembers nothing, so that one of these may be put there and only its own action counts.  The
head does not move for it, and there are no strokes (`Head.sequence_of_unnamed`,
`Head.sequence_of_unmoded`): behind it the terminal is where it was, save that a terminal
that draws has heard the bell (`Terminal.process_inert`).

A bell that was heard has no say in anything that follows.  It is carried along to the end of
the stream and counted there with the others (`Terminal.process_ringing`,
`Terminal.finish_ringing`).  The main statement is
`Terminal.inert_tokens_leave_no_trace`.
-/

namespace BaudReel

/-- The letters of the control sequences that are commands. -/
def ControlSequence.commands : List Char :=
  "ABCDHfJKLMPSTXmsu".toList

/-- What a screen takes no notice of. -/
inductive Token.Inert : Token → Prop
  | bell : Inert (.control .bell)
  /-- A control sequence that is no command, whatever its numbers are. -/
  | unnamed {raw : List UInt8} {finalByte : UInt8}
      (hletter : Char.ofNat finalByte.toNat ∉ ControlSequence.commands) :
      Inert (.sequence raw finalByte)
  /-- An erasure, in the display or in the line, of which the first number is no mode. -/
  | unmoded {raw : List UInt8} {finalByte : UInt8} {mode : Nat}
      (hletter : finalByte = 0x4A ∨ finalByte = 0x4B)
      (hfirst : (ControlSequence.ofRaw (raw.take Parser.maxKept) finalByte).params[0]? =
        some (some mode))
      (hmode : mode ≠ 0 ∧ mode ≠ 1 ∧ mode ≠ 2) :
      Inert (.sequence raw finalByte)

/-- How often a token rings the bell. -/
def Token.bells : Token → Nat
  | .control .bell => 1
  | _ => 0

/-- There are three erase modes. -/
theorem EraseMode.ofParam?_eq_none {mode : Nat} (h : mode ≠ 0 ∧ mode ≠ 1 ∧ mode ≠ 2) :
    ofParam? mode = none := by
  obtain ⟨hzero, hone, htwo⟩ := h
  unfold ofParam?
  split <;> first | rfl | contradiction

namespace Head

variable (h : Head) {s : ControlSequence}

/-- A sequence with another letter than those of the commands does nothing. -/
theorem sequence_of_unnamed (hletter : Char.ofNat s.finalByte.toNat ∉ ControlSequence.commands) :
    h.sequence s = (h, []) := by
  rw [sequence]
  split
  case h_18 => rfl
  -- all the others are in the list
  all_goals
    next heq =>
      rw [heq] at hletter
      exact absurd (by decide) hletter

/-- An erasure without a mode does nothing. -/
theorem sequence_of_unmoded (hletter : s.finalByte = 0x4A ∨ s.finalByte = 0x4B)
    (hmode : EraseMode.ofParam? (s.param 0 0) = none) : h.sequence s = (h, []) := by
  obtain ⟨finalByte, params⟩ := s
  rcases hletter with rfl | rfl <;> simp [sequence, hmode]

end Head

namespace Terminal

/-- The terminal with more bells that have been rung. -/
def ringing (t : Terminal) (count : Nat) : Terminal :=
  { t with bells := t.bells + count }

/-- What an action does does not depend on the bells before it. -/
theorem apply_ringing (t : Terminal) (count : Nat) (a : Action) :
    (t.ringing count).apply a = (t.apply a).ringing count := by
  obtain ⟨parser, head, canvas, endOfText, metadata, bells⟩ := t
  cases hgauge : canvas.isGauge with
  | true => simp [apply, ringing, hgauge]
  | false => simp [apply, ringing, hgauge, Nat.add_right_comm]

/-- What a run of actions does does not depend on the bells before it. -/
theorem foldl_apply_ringing (t : Terminal) (count : Nat) (actions : List Action) :
    actions.foldl apply (t.ringing count) = (actions.foldl apply t).ringing count := by
  induction actions generalizing t with
  | nil => rfl
  | cons a actions ih => rw [List.foldl_cons, apply_ringing, ih, List.foldl_cons]

/-- Bells that were rung before make no difference to a stretch of a stream. -/
theorem process_ringing (t : Terminal) (count : Nat) (bytes : List UInt8) :
    (t.ringing count).process bytes = (t.process bytes).ringing count := by
  have hsame : (t.ringing count).parser = t.parser := rfl
  rw [process_eq, process_eq, hsame, foldl_apply_ringing]
  rfl

theorem finish_ringing (t : Terminal) (count : Nat) :
    (t.ringing count).finish = t.finish.ringing count :=
  foldl_apply_ringing { t with parser := t.parser.finish.1 } count t.parser.finish.2

/-- A bell is heard where something is drawn, and changes nothing else. -/
theorem apply_bell (t : Terminal) :
    t.apply (.control .bell) = t.ringing (if t.isMeasuring then 0 else 1) := by
  obtain ⟨parser, head, canvas, endOfText, metadata, bells⟩ := t
  have hhead : head.apply (.control .bell) = (head, []) := rfl
  cases hgauge : canvas.isGauge with
  | true => simp [apply, ringing, isMeasuring, hgauge, hhead, endsText]
  | false => simp [apply, ringing, isMeasuring, hgauge, hhead, endsText, bellsOf, stringsOf]

/-- A control sequence that leaves the head alone is not even heard. -/
theorem apply_of_still (t : Terminal) {s : ControlSequence}
    (h : t.head.sequence s = (t.head, [])) :
    t.apply (.sequence s) = t.ringing (if t.isMeasuring then 0 else 0) := by
  rw [t.apply_of_strokeless h, ite_self]
  rfl

/-- **An inert token** leaves the terminal where it was, but for the bell. -/
theorem process_inert {t : Terminal} (hground : t.parser = .ground) {token : Token}
    (hvalid : token.Valid) (hinert : token.Inert) :
    t.process token.bytes = t.ringing (if t.isMeasuring then 0 else token.bells) := by
  rw [process_token hground hvalid]
  cases hinert with
  | bell => exact t.apply_bell
  | unnamed hletter => exact t.apply_of_still (t.head.sequence_of_unnamed hletter)
  | @unmoded raw finalByte mode hletter hfirst hmode =>
    let s := ControlSequence.ofRaw (raw.take Parser.maxKept) finalByte
    have hparam : s.param 0 0 = mode := by
      rw [ControlSequence.param, hfirst]
      rfl
    have hnone : EraseMode.ofParam? (s.param 0 0) = none := by
      rw [hparam]
      exact EraseMode.ofParam?_eq_none hmode
    exact t.apply_of_still (t.head.sequence_of_unmoded hletter hnone)

/-- **A token that is put in.**  Where the reader is between two tokens, an inert one may be
put in: the terminal ends as it would have, with its bells more. -/
theorem finish_process_inert (t : Terminal) {token : Token} (hvalid : token.Valid)
    (hinert : token.Inert) {front : List UInt8} (hground : (t.parser.parse front).1 = .ground)
    (rest : List UInt8) :
    (t.process (front ++ token.bytes ++ rest)).finish =
      (t.process (front ++ rest)).finish.ringing (if t.isMeasuring then 0 else token.bells) := by
  have hbetween : (t.process front).parser = .ground := (t.parser_process front).trans hground
  have hpass : (t.process front).isMeasuring = t.isMeasuring := t.isGauge_process front
  rw [process_append, process_append, process_inert hbetween hvalid hinert, hpass,
    process_ringing, finish_ringing, ← process_append]

/-- **Inert tokens leave no trace.**  Between two tokens of any stream, put in a bell, a control
sequence that is no command, or an erasure without a mode.  A terminal that draws ends with
the same screen, head, end-of-text mark and strings, and has rung once more for the bell and
not for the others; a terminal that measures ends as it would have. -/
theorem inert_tokens_leave_no_trace (cols rows maxCols maxRows : Nat) (transparency : Bool)
    {token : Token} (hvalid : token.Valid) (hinert : token.Inert) {front : List UInt8}
    (hground : (Parser.initial.parse front).1 = .ground) (rest : List UInt8) :
    let drawn := fun bytes =>
      ((rendering cols rows maxCols maxRows transparency).process bytes).finish
    let measured := fun bytes => ((measuring maxCols maxRows).process bytes).finish
    drawn (front ++ token.bytes ++ rest) =
        { drawn (front ++ rest) with bells := (drawn (front ++ rest)).bells + token.bells } ∧
      measured (front ++ token.bytes ++ rest) = measured (front ++ rest) :=
  ⟨finish_process_inert _ hvalid hinert hground rest,
    finish_process_inert _ hvalid hinert hground rest⟩

/-- An erasure with a number too large to be kept, of more digits than are kept, between
coloured text and a bell. -/
theorem inert_tokens_leave_no_trace_overlong :
    let token : Token := .sequence (List.replicate 70 0x39) 0x4A
    let front : List UInt8 := [0x1B, 0x5B, 0x33, 0x31, 0x6D, 0x61]
    let drawn := fun bytes => ((rendering 3 1 3 1 true).process bytes).finish
    let measured := fun bytes => ((measuring 3 1).process bytes).finish
    token.Valid ∧ token.Inert ∧ (Parser.initial.parse front).1 = .ground ∧
      drawn (front ++ token.bytes ++ [0x07, 0x62]) = drawn (front ++ [0x07, 0x62]) ∧
      (drawn (front ++ [0x07, 0x62])).bells = 1 ∧
      measured (front ++ token.bytes ++ [0x07, 0x62]) = measured (front ++ [0x07, 0x62]) ∧
      (measured (front ++ [0x07, 0x62])).extent = (2, 1) := by
  intro token front drawn measured
  have hvalid : token.Valid := ⟨by decide +kernel, by decide⟩
  have hinert : token.Inert :=
    @Token.Inert.unmoded _ _ 65535 (.inl rfl) (by decide +kernel) (by decide)
  have hground : (Parser.initial.parse front).1 = .ground := by decide +kernel
  obtain ⟨hdrawn, hmeasured⟩ := inert_tokens_leave_no_trace 3 1 3 1 true hvalid hinert hground
    [0x07, 0x62]
  exact ⟨hvalid, hinert, hground, hdrawn, by decide +kernel, hmeasured, by decide +kernel⟩

end Terminal

end BaudReel
