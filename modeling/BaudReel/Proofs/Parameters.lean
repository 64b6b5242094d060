import BaudReel.Checked.Parameters
import BaudReel.Proofs.Words
import BaudReel.Proofs.Writing
import Mathlib.Data.Nat.Digits.Defs

/-!
# Numbers of a control sequence are read exactly

Three things stand between the bytes of a control sequence and its numbers.

* Semicolons cut the bytes into pieces.  Only one cut has pieces without semicolons that
  are the bytes again where semicolons join them (`cutsInto_iff`), and it has a piece more
  than there are semicolons (`length_pieces`).
* Digits write a number, each of them a tenth of the place in front of it
  (`decimalValue_eq_ofDigits`).
* A machine cannot hold that number.  But a word that has stopped at the largest one stays
  there, whatever digits follow, so that after every digit it is the number so far, or the
  largest word if that is less (`pushDigit?_eq`).  And what is cut off in the end lies beyond
  the limit (`readParam?_eq`).

The main statement is `parameters_are_read_exactly`.
-/

namespace BaudReel

namespace ControlSequence

section Cutting

variable {raw : List UInt8}

/-- Pieces that semicolons cut bytes into: one at least, none of them with a semicolon in
it, and joined by semicolons they are the bytes. -/
structure CutsInto (raw : List UInt8) (cut : List (List UInt8)) : Prop where
  ne_nil : cut ≠ []
  uncut : ∀ piece ∈ cut, (0x3B : UInt8) ∉ piece
  joined : [0x3B].intercalate cut = raw

theorem pieces_cons (byte : UInt8) (raw : List UInt8) :
    pieces (byte :: raw) =
      if byte == 0x3B then [] :: pieces raw else (pieces raw).modifyHead (byte :: ·) :=
  List.splitOn_cons_eq_if_modifyHead ..

theorem exists_pieces_eq (raw : List UInt8) : ∃ first later, pieces raw = first :: later :=
  List.exists_cons_of_ne_nil (List.splitOn_ne_nil 0x3B raw)

/-- No piece has a separator in it. -/
theorem not_mem_of_mem_pieces {piece : List UInt8} (h : piece ∈ pieces raw) :
    (0x3B : UInt8) ∉ piece := by
  induction raw generalizing piece with
  | nil =>
    obtain rfl : piece = [] := List.mem_singleton.1 h
    exact List.not_mem_nil
  | cons byte raw ih =>
    obtain ⟨first, later, hpieces⟩ := exists_pieces_eq raw
    rw [hpieces] at ih
    rw [pieces_cons, hpieces] at h
    split at h
    case isTrue =>
      rcases List.mem_cons.1 h with rfl | hrest
      · exact List.not_mem_nil
      · exact ih hrest
    case isFalse hbyte =>
      rcases List.mem_cons.1 h with rfl | hrest
      · rw [List.mem_cons, not_or]
        exact ⟨fun heq => hbyte (beq_iff_eq.2 heq.symm), ih List.mem_cons_self⟩
      · exact ih (List.mem_cons_of_mem _ hrest)

/-- **Bytes have one cut.** -/
theorem cutsInto_iff {cut : List (List UInt8)} : CutsInto raw cut ↔ cut = pieces raw := by
  constructor
  · rintro ⟨hsome, huncut, rfl⟩
    exact (List.splitOn_intercalate 0x3B huncut hsome).symm
  · rintro rfl
    exact ⟨List.splitOn_ne_nil 0x3B raw, fun _ => not_mem_of_mem_pieces,
      List.intercalate_splitOn 0x3B⟩

/-- There is a piece in front of every semicolon, and one behind the last. -/
theorem length_pieces (raw : List UInt8) : (pieces raw).length = raw.count 0x3B + 1 := by
  induction raw with
  | nil => rfl
  | cons byte raw ih =>
    rw [pieces_cons, List.count_cons]
    split
    case isTrue => rw [List.length_cons, ih]
    case isFalse => rw [List.length_modifyHead, ih, Nat.add_zero]

end Cutting

section Reading

variable {piece : List UInt8}

/-- The digits of a piece, the last one first. -/
def digits (piece : List UInt8) : List Nat :=
  piece.reverse.map fun byte => byte.toNat - 48

/-- The value of a piece is that of its decimal digits. -/
theorem decimalValue_eq_ofDigits (piece : List UInt8) :
    decimalValue piece = Nat.ofDigits 10 (digits piece) := by
  rw [Nat.ofDigits_eq_foldr, digits, List.foldr_map, List.foldr_reverse, decimalValue]
  congr 1
  funext value byte
  exact Nat.add_comm _ _

/-- **One digit more.**  A word that has stopped stays where it is. -/
theorem pushDigit?_eq {byte : UInt8} (hdigit : isDigit byte = true) (value : Nat) :
    pushDigit? (min value Word.max32) byte =
      some (min (10 * value + (byte.toNat - 48)) Word.max32) := by
  obtain ⟨hleast, -⟩ := isDigit_iff.1 hdigit
  -- it does not matter that the product has stopped, since the sum stops then too
  have hword : Word.addUpTo32 (Word.mulUpTo32 (min value Word.max32) 10) (byte.toNat - 48) =
      min (10 * value + (byte.toNat - 48)) Word.max32 := by
    unfold Word.addUpTo32 Word.mulUpTo32
    omega
  rw [pushDigit?, Word.sub?_eq hleast, ← hword]
  rfl

/-- **A run of digits.**  The number so far is the exact one, cut to the word. -/
theorem foldlM_pushDigit?_eq (hdigits : ∀ byte ∈ piece, isDigit byte = true) (value : Nat) :
    piece.foldlM pushDigit? (min value Word.max32) =
      some (min (piece.foldl (fun n d => 10 * n + (d.toNat - 48)) value) Word.max32) := by
  induction piece generalizing value with
  | nil => rfl
  | cons byte piece ih =>
    rw [List.foldlM_cons, pushDigit?_eq (hdigits byte List.mem_cons_self), List.foldl_cons]
    exact ih (fun d hd => hdigits d (List.mem_cons_of_mem _ hd)) _

/-- **One number.**  Nothing is lost that lies below the limit. -/
theorem readParam?_eq (piece : List UInt8) : readParam? piece = some (readParam piece) := by
  unfold readParam? readParam
  split
  case isTrue => rfl
  case isFalse hdigits =>
    have hall : ∀ byte ∈ piece, isDigit byte = true := by
      simpa using (not_or.1 (Bool.or_eq_true_iff.not.1 hdigits)).2
    have hnarrow : Word.lower16 (min (min (decimalValue piece) Word.max32) Word.max16) =
        min (decimalValue piece) maxParam := by
      unfold Word.lower16 Word.max32 Word.max16 maxParam
      omega
    have hvalue : piece.foldlM pushDigit? 0 = some (min (decimalValue piece) Word.max32) :=
      foldlM_pushDigit?_eq hall 0
    rw [hvalue, ← hnarrow]
    rfl

/-- What is no digit leaves no number, and digits leave theirs. -/
theorem readParam_eq_none_iff :
    readParam piece = none ↔ piece = [] ∨ ∃ byte ∈ piece, isDigit byte = false := by
  unfold readParam
  split <;> simp_all

/-- A number that is read is the exact one, cut to the largest that is kept. -/
theorem eq_of_readParam {n : Nat} (h : readParam piece = some n) :
    n = min (Nat.ofDigits 10 (digits piece)) maxParam := by
  unfold readParam at h
  split at h
  case isTrue => exact absurd h.symm (Option.some_ne_none n)
  case isFalse => rw [← decimalValue_eq_ofDigits, Option.some.inj h]

end Reading

/-- A machine reads all the numbers. -/
theorem ofRaw?_eq (raw : List UInt8) (finalByte : UInt8) :
    ofRaw? raw finalByte = some (ofRaw raw finalByte) := by
  have hread : readParam? = fun piece => pure (readParam piece) := funext readParam?_eq
  rw [ofRaw?, hread, List.mapM_pure]
  rfl

/-- **Numbers are read exactly.**  There is one way to cut bytes into pieces at their
semicolons, and with the pieces come the numbers, one more than there are semicolons.

* A number is left out exactly where the piece is empty, or something in it is no digit.
* Any other piece has the number that its digits write, however many there are and
  whichever zeros they begin with, or 65535 if that is less.

A machine that has words of 32 bits to read them with reads the same. -/
theorem parameters_are_read_exactly (raw : List UInt8) (finalByte : UInt8) :
    ofRaw? raw finalByte = some (ofRaw raw finalByte) ∧
      (ofRaw raw finalByte).params.length = raw.count 0x3B + 1 ∧
      ∃ cut : List (List UInt8), (∀ other, CutsInto raw other ↔ other = cut) ∧
        cut.length = (ofRaw raw finalByte).params.length ∧
        ∀ (i : Nat) (piece : List UInt8), cut[i]? = some piece →
          ∃ param, (ofRaw raw finalByte).params[i]? = some param ∧
            (param = none ↔ piece = [] ∨ ∃ byte ∈ piece, isDigit byte = false) ∧
            ∀ n, param = some n → n = min (Nat.ofDigits 10 (digits piece)) 65535 := by
  have hlength : (pieces raw).length = (ofRaw raw finalByte).params.length :=
    (List.length_map _).symm
  refine ⟨ofRaw?_eq raw finalByte, hlength.symm.trans (length_pieces raw), pieces raw,
    fun _ => cutsInto_iff, hlength, fun i piece hpiece => ?_⟩
  refine ⟨readParam piece, ?_, readParam_eq_none_iff, fun n hn => eq_of_readParam hn⟩
  show ((pieces raw).map readParam)[i]? = _
  rw [List.getElem?_map, hpiece]
  rfl

/-- Zeros in front, an empty piece, one that is no number, more than 32 bits, and an empty
piece behind the last semicolon. -/
example :
    (ofRaw? [0x30, 0x30, 0x37, 0x3B, 0x3B, 0x3F, 0x32, 0x3B, 0x39, 0x39, 0x39, 0x39, 0x39, 0x39,
        0x39, 0x39, 0x39, 0x39, 0x39, 0x3B] 0x48).map params =
      some [some 7, none, none, some 65535, none] := by
  decide

end ControlSequence

end BaudReel
