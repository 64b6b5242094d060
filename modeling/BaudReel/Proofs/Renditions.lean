import BaudReel.Proofs.Strokes
import BaudReel.Proofs.Writing

/-!
# Rendition sequences split freely

A rendition sequence carries any number of codes, and a terminal applies them to its pen from
left to right.  So it should not matter whether codes stand in one sequence or in several.
That they may be cut at any semicolon has three reasons: a semicolon between two texts
separates their pieces (`ControlSequence.pieces_append_cons`), a text without any semicolon
is still one piece, and codes in two lists act as those of the first and then those of the
second (`Pen.selectAll_append`).  Nothing may have been dropped, of course, which is why the
texts together have to be short enough.

Pieces that are empty or cannot be read count as zeros here (`readsAsZero_iff`), and a zero
puts the default pen back, so that no code in front of one matters (`Pen.selectAll_of_zero`).

Everything else of the terminal stays as it is (`Terminal.process_rendition`).  The main
statement is `Terminal.renditions_split`.
-/

namespace BaudReel

namespace ControlSequence

variable {piece : List UInt8}

/-- A semicolon separates what stands in front of it from what stands behind. -/
theorem pieces_append_cons (front rest : List UInt8) :
    pieces (front ++ 0x3B :: rest) = pieces front ++ pieces rest :=
  List.splitOnP_append_cons front rest rfl

/-- The numbers on both sides of a separator. -/
theorem paramsOr_append_cons (front rest : List UInt8) (finalByte : UInt8) (default : Nat) :
    (ofRaw (front ++ 0x3B :: rest) finalByte).paramsOr default =
      (ofRaw front finalByte).paramsOr default ++ (ofRaw rest finalByte).paramsOr default := by
  simp only [paramsOr, ofRaw, pieces_append_cons, List.map_append]

/-- A piece that selects like a zero: it is empty, or something in it is no digit, or all its
digits are zeros. -/
def ReadsAsZero (piece : List UInt8) : Prop :=
  piece = [] ∨ (∃ byte ∈ piece, isDigit byte = false) ∨ ∀ byte ∈ piece, byte = 0x30

theorem foldl_digits_eq_zero_iff (digits : List UInt8) (value : Nat) :
    digits.foldl (fun n d => 10 * n + (d.toNat - 48)) value = 0 ↔
      value = 0 ∧ ∀ d ∈ digits, d.toNat ≤ 48 := by
  induction digits generalizing value with
  | nil => simp
  | cons d digits ih =>
    have hstep : 10 * value + (d.toNat - 48) = 0 ↔ value = 0 ∧ d.toNat ≤ 48 := by omega
    rw [List.foldl_cons, ih, hstep, List.forall_mem_cons, and_assoc]

/-- Digits write zero only if all of them are zeros. -/
theorem decimalValue_eq_zero_iff (hdigits : ∀ byte ∈ piece, isDigit byte = true) :
    decimalValue piece = 0 ↔ ∀ byte ∈ piece, byte = 0x30 := by
  have hzero : ∀ byte ∈ piece, byte.toNat ≤ 48 ↔ byte = 0x30 := by
    intro byte hbyte
    obtain ⟨hleast, -⟩ := isDigit_iff.1 (hdigits byte hbyte)
    rw [← UInt8.toNat_inj]
    show byte.toNat ≤ 48 ↔ byte.toNat = 48
    omega
  rw [decimalValue, foldl_digits_eq_zero_iff]
  simp only [true_and]
  exact forall₂_congr hzero

/-- A piece reads as zero if it has no number, or zero for one. -/
theorem readsAsZero_iff : ReadsAsZero piece ↔ (readParam piece).getD 0 = 0 := by
  rw [ReadsAsZero, readParam]
  by_cases hdigits : ∀ byte ∈ piece, isDigit byte = true
  case pos =>
    have hall : piece.all isDigit = true := List.all_eq_true.2 hdigits
    have hnone : ¬∃ byte ∈ piece, isDigit byte = false := by
      rintro ⟨byte, hbyte, hodd⟩
      exact absurd (hdigits byte hbyte) (hodd ▸ Bool.false_ne_true)
    have hcap : min (decimalValue piece) maxParam = 0 ↔ decimalValue piece = 0 := by
      rw [maxParam]
      omega
    cases piece with
    | nil => simp
    | cons byte piece =>
      simp only [hall, hnone, reduceCtorEq, false_or, List.isEmpty_cons, Bool.not_true,
        Bool.or_false, Bool.false_eq_true, if_false, Option.getD_some, hcap,
        decimalValue_eq_zero_iff hdigits]
  case neg =>
    have hodd : ∃ byte ∈ piece, isDigit byte = false := by
      simpa only [not_forall, Bool.not_eq_true, exists_prop] using hdigits
    have hall : piece.all isDigit = false := by
      rw [← Bool.not_eq_true, List.all_eq_true]
      exact hdigits
    simp only [hodd, hall, true_or, or_true, Bool.not_false, Bool.or_true, if_true,
      Option.getD_none]

end ControlSequence

namespace Pen

theorem selectAll_append (p : Pen) (front rest : List Nat) :
    p.selectAll (front ++ rest) = (p.selectAll front).selectAll rest :=
  List.foldl_append

/-- Behind a zero the pen is the default one, whatever was selected before. -/
theorem selectAll_of_zero (p : Pen) {codes : List Nat} {i : Nat} (hzero : codes[i]? = some 0) :
    p.selectAll codes = ({} : Pen).selectAll (codes.drop (i + 1)) := by
  obtain ⟨hi, hcode⟩ := List.getElem?_eq_some_iff.1 hzero
  have hreset : ∀ held : Pen, held.select 0 = {} := fun _ => rfl
  calc p.selectAll codes
      = p.selectAll (codes.take i ++ 0 :: codes.drop (i + 1)) := by
        rw [← hcode, ← List.drop_eq_getElem_cons hi, List.take_append_drop]
    _ = ((p.selectAll (codes.take i)).select 0).selectAll (codes.drop (i + 1)) :=
        p.selectAll_append _ _
    _ = ({} : Pen).selectAll (codes.drop (i + 1)) := by rw [hreset]

end Pen

/-- The token of a rendition sequence with the given bytes between its ends. -/
def Token.rendition (raw : List UInt8) : Token :=
  .sequence raw 0x6D

/-- A sequence of renditions is a token, whatever numbers it has. -/
theorem Token.valid_rendition {raw : List UInt8}
    (hraw : ∀ byte ∈ raw, Parser.isFinal byte = false) : (rendition raw).Valid :=
  ⟨hraw, rfl⟩

namespace Terminal

variable {t : Terminal}

/-- A terminal that is not in the middle of anything does what a token asks for, and is not
in the middle of anything then. -/
theorem process_token (hground : t.parser = .ground) {token : Token} (h : token.Valid) :
    t.process token.bytes = token.actions.foldl apply t := by
  have hkept := foldl_apply_reading t t.parser token.actions
  rw [process_eq, hground, Token.parse_bytes h, ← hground]
  exact hkept.symm

/-- A control sequence that leaves no strokes changes nothing but the head. -/
theorem apply_of_strokeless (t : Terminal) {s : ControlSequence} {head : Head}
    (h : t.head.sequence s = (head, [])) : t.apply (.sequence s) = { t with head } := by
  obtain ⟨parser, held, canvas, endOfText, metadata, bells⟩ := t
  have hhead : held.apply (.sequence s) = (head, []) := h
  simp only [apply, hhead, endsText, stringsOf, bellsOf, Bool.or_false, List.append_nil,
    Nat.add_zero, ite_self, List.foldl_nil]

/-- The terminal with another pen. -/
def withPen (t : Terminal) (p : Pen) : Terminal :=
  { t with head := { t.head with pen := p } }

/-- **A rendition sequence** changes the pen and nothing else. -/
theorem process_rendition (hground : t.parser = .ground) {raw : List UInt8}
    (hraw : ∀ byte ∈ raw, Parser.isFinal byte = false) :
    t.process (Token.rendition raw).bytes =
      t.withPen (t.head.pen.selectAll
        ((ControlSequence.ofRaw (raw.take Parser.maxKept) 0x6D).paramsOr 0)) := by
  let s := ControlSequence.ofRaw (raw.take Parser.maxKept) 0x6D
  have hselect : t.head.sequence s =
      ({ t.head with pen := t.head.pen.selectAll (s.paramsOr 0) }, []) := rfl
  rw [process_token hground (Token.valid_rendition hraw)]
  exact t.apply_of_strokeless hselect

/-- **Rendition sequences split freely.**  A terminal, whatever it draws on, is between two
tokens.  Then one rendition sequence may be cut at any of its semicolons into two, unless
together they are too long to be kept: the terminal ends in the same state.  And a sequence of
any length only changes the pen; at every piece that is empty, cannot be read or writes zero,
and so at the last such piece, the pen starts again from the default one, and only the codes
behind that piece count. -/
theorem renditions_split (hground : t.parser = .ground) :
    (∀ front rest : List UInt8, (∀ byte ∈ front ++ rest, Parser.isFinal byte = false) →
      front.length + 1 + rest.length ≤ Parser.maxKept →
        t.process (Token.rendition (front ++ 0x3B :: rest)).bytes =
          t.process ((Token.rendition front).bytes ++ (Token.rendition rest).bytes)) ∧
    ∀ raw : List UInt8, (∀ byte ∈ raw, Parser.isFinal byte = false) →
      ∀ i piece, (ControlSequence.pieces (raw.take Parser.maxKept))[i]? = some piece →
        ControlSequence.ReadsAsZero piece →
          t.process (Token.rendition raw).bytes =
            t.withPen (({} : Pen).selectAll
              (((ControlSequence.ofRaw (raw.take Parser.maxKept) 0x6D).paramsOr 0).drop
                (i + 1))) := by
  constructor
  · intro front rest hraw hkept
    obtain ⟨hfront, hrest⟩ := List.forall_mem_append.1 hraw
    have hboth : ∀ byte ∈ front ++ 0x3B :: rest, Parser.isFinal byte = false :=
      List.forall_mem_append.2 ⟨hfront, List.forall_mem_cons.2 ⟨rfl, hrest⟩⟩
    have hwhole : (front ++ 0x3B :: rest).length ≤ Parser.maxKept := by
      rw [List.length_append, List.length_cons]
      omega
    have hstill : (t.process (Token.rendition front).bytes).parser = .ground := by
      rw [process_rendition hground hfront]
      exact hground
    rw [process_append, process_rendition hstill hrest, process_rendition hground hfront,
      process_rendition hground hboth, List.take_of_length_le hwhole,
      List.take_of_length_le (by omega), List.take_of_length_le (by omega),
      ControlSequence.paramsOr_append_cons, Pen.selectAll_append]
    rfl
  · intro raw hraw i piece hpiece hzero
    have hcode : ((ControlSequence.ofRaw (raw.take Parser.maxKept) 0x6D).paramsOr 0)[i]? =
        some 0 := by
      rw [ControlSequence.paramsOr, ControlSequence.ofRaw, List.map_map, List.getElem?_map, hpiece,
        Option.map_some, Function.comp_apply, ControlSequence.readsAsZero_iff.1 hzero]
    rw [process_rendition hground hraw, Pen.selectAll_of_zero _ hcode]

/-- Coloured text in front of a sequence with an empty and an unreadable piece: it may be cut
in front of the latter, and only its last code counts. -/
theorem renditions_split_unreadable :
    let t := (rendering 2 1 2 1 true).process [0x1B, 0x5B, 0x34, 0x31, 0x6D, 0x61]
    let front : List UInt8 := [0x33, 0x31, 0x3B]
    let rest : List UInt8 := [0x3F, 0x3B, 0x31]
    let whole := front ++ 0x3B :: rest
    t.parser = .ground ∧ (∀ byte ∈ front ++ rest, Parser.isFinal byte = false) ∧
      (∀ byte ∈ whole, Parser.isFinal byte = false) ∧
      front.length + 1 + rest.length ≤ Parser.maxKept ∧
      (ControlSequence.pieces (whole.take Parser.maxKept))[2]? = some [0x3F] ∧
      ControlSequence.ReadsAsZero [0x3F] ∧
      t.process (Token.rendition whole).bytes =
        t.process ((Token.rendition front).bytes ++ (Token.rendition rest).bytes) ∧
      t.head.pen = { bgBase := 1, bgExplicit := true } ∧
      t.process (Token.rendition whole).bytes = t.withPen { fgBright := true } := by
  intro t front rest whole
  have hground : t.parser = .ground := by decide +kernel
  have hraw : ∀ byte ∈ front ++ rest, Parser.isFinal byte = false := by decide +kernel
  have hwhole : ∀ byte ∈ whole, Parser.isFinal byte = false := by decide +kernel
  have hkept : front.length + 1 + rest.length ≤ Parser.maxKept := by decide
  have hpiece : (ControlSequence.pieces (whole.take Parser.maxKept))[2]? = some [0x3F] := by
    decide +kernel
  have hzero : ControlSequence.ReadsAsZero [0x3F] := .inr (.inl ⟨0x3F, by decide, by decide⟩)
  obtain ⟨hsplit, hreset⟩ := renditions_split hground
  have hcodes : ((ControlSequence.ofRaw (whole.take Parser.maxKept) 0x6D).paramsOr 0).drop 3 =
      [1] := by
    decide +kernel
  have hlast := hreset whole hwhole 2 [0x3F] hpiece hzero
  rw [hcodes] at hlast
  exact ⟨hground, hraw, hwhole, hkept, hpiece, hzero, hsplit front rest hraw hkept,
    by decide +kernel, hlast⟩

end Terminal

end BaudReel
