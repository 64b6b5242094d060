import BaudReel.Proofs.Grammar
import BaudReel.Script
import Mathlib.Data.List.Basic

/-!
# Reading undoes writing

What a script writes, the reader reads back.  Three things could go wrong on the way,
and each has a lemma that says why it does not.

* Numbers: digits read back to the number they write (`decimalValue_writeNat`), and
  semicolons keep numbers apart, also where one is left out (`pieces_writeParams`).
* Tokens: no byte of written numbers could end a control sequence, so that the token of
  every item is valid, and stands for the actions of the item (`Item.Valid.token`,
  `Item.Valid.actions_token`).
* Strings: behind each the reader waits for a new one, with nothing begun
  (`Script.parse_strings`).  So there is nothing left to tell at the end.

The main statement is `reading_undoes_writing`.
-/

namespace BaudReel

namespace ControlSequence

/-- The characters of a written number are those from `0` to `9`. -/
theorem toNat_of_mem_toDigits {n : Nat} {c : Char} (h : c ∈ Nat.toDigits 10 n) :
    48 ≤ c.toNat ∧ c.toNat ≤ 57 :=
  Char.isDigit_iff_toNat.1 (Nat.isDigit_of_mem_toDigits (by decide) (by decide) h)

theorem isDigit_iff {byte : UInt8} :
    isDigit byte = true ↔ 48 ≤ byte.toNat ∧ byte.toNat ≤ 57 := by
  simp only [isDigit, Bool.and_eq_true, decide_eq_true_eq, UInt8.le_iff_toNat_le]
  rfl

/-- A written number consists of digits. -/
theorem isDigit_of_mem_writeNat {n : Nat} {byte : UInt8} (h : byte ∈ writeNat n) :
    isDigit byte = true := by
  obtain ⟨c, hc, rfl⟩ := List.mem_map.1 h
  obtain ⟨hleast, hmost⟩ := toNat_of_mem_toDigits hc
  have hsmall : c.toNat < 2 ^ 8 := Nat.lt_of_le_of_lt hmost (by decide)
  rw [isDigit_iff, UInt8.toNat_ofNat_of_lt' hsmall]
  exact ⟨hleast, hmost⟩

theorem writeNat_ne_nil (n : Nat) : writeNat n ≠ [] :=
  fun h => Nat.toDigits_ne_nil (List.map_eq_nil_iff.1 h)

/-- Characters that fit into bytes are read as digits like the bytes are. -/
theorem foldl_digits_eq {digits : List Char} (h : ∀ c ∈ digits, c.toNat ≤ 57) (value : Nat) :
    (digits.map fun c => UInt8.ofNat c.toNat).foldl (fun n d => 10 * n + (d.toNat - 48)) value =
      Nat.ofDigitChars 10 digits value := by
  induction digits generalizing value with
  | nil => rfl
  | cons c digits ih =>
    have hsmall : c.toNat < 2 ^ 8 :=
      Nat.lt_of_le_of_lt (h c List.mem_cons_self) (by decide)
    rw [List.map_cons, List.foldl_cons, Nat.ofDigitChars_cons, UInt8.toNat_ofNat_of_lt' hsmall]
    exact ih (fun d hd => h d (List.mem_cons_of_mem _ hd)) _

/-- Digits read back to the number that they write. -/
theorem decimalValue_writeNat (n : Nat) : decimalValue (writeNat n) = n := by
  rw [decimalValue, writeNat, foldl_digits_eq fun c hc => (toNat_of_mem_toDigits hc).2]
  exact Nat.ofDigitChars_ten_toDigits

/-- A number within the limit is read as it was written, and one left out as left out. -/
theorem readParam_writeParam {param : Option Nat} (h : ∀ n, param = some n → n ≤ maxParam) :
    readParam (writeParam param) = param := by
  cases param with
  | none => rfl
  | some n =>
    have hsome : (writeNat n).isEmpty = false :=
      List.isEmpty_eq_false_iff.2 (writeNat_ne_nil n)
    have hdigits : (writeNat n).all isDigit = true :=
      List.all_eq_true.2 fun byte hbyte => isDigit_of_mem_writeNat hbyte
    rw [writeParam, readParam, hsome, hdigits, decimalValue_writeNat, Nat.min_eq_left (h n rfl)]
    rfl

/-- A number is written in digits, and a missing one in none. -/
theorem isDigit_of_mem_writeParam {param : Option Nat} {byte : UInt8}
    (h : byte ∈ writeParam param) : isDigit byte = true := by
  cases param with
  | none => exact absurd h List.not_mem_nil
  | some n => exact isDigit_of_mem_writeNat h

/-- Semicolons keep the numbers apart. -/
theorem pieces_writeParams {params : List (Option Nat)} (h : params ≠ []) :
    pieces (writeParams params) = params.map writeParam := by
  apply List.splitOn_intercalate
  · intro piece hpiece hsemicolon
    obtain ⟨param, -, rfl⟩ := List.mem_map.1 hpiece
    exact absurd (isDigit_of_mem_writeParam hsemicolon) (by decide)
  · exact fun hnil => h (List.map_eq_nil_iff.1 hnil)

/-- A control sequence is read with the numbers that it was written with. -/
theorem ofRaw_writeParams {params : List (Option Nat)} (hsome : params ≠ [])
    (hlimit : ∀ n, some n ∈ params → n ≤ maxParam) (finalByte : UInt8) :
    ofRaw (writeParams params) finalByte = ⟨finalByte, params⟩ := by
  have hread : ∀ param ∈ params, readParam (writeParam param) = param := by
    intro param hmem
    exact readParam_writeParam fun n hn => hlimit n (hn ▸ hmem)
  have hparams : (params.map writeParam).map readParam = params := by
    rw [List.map_map]
    exact (List.map_congr_left hread).trans (List.map_id _)
  rw [ofRaw, pieces_writeParams hsome, hparams]

/-- Numbers are written in digits and separators. -/
theorem mem_writeParams {params : List (Option Nat)} {byte : UInt8}
    (h : byte ∈ writeParams params) : byte = 0x3B ∨ isDigit byte = true := by
  unfold writeParams at h
  induction params with
  | nil => exact absurd h List.not_mem_nil
  | cons param params ih =>
    cases params with
    | nil =>
      rw [List.map_singleton, List.intercalate_singleton] at h
      exact .inr (isDigit_of_mem_writeParam h)
    | cons next params =>
      rw [List.map_cons, List.map_cons, List.intercalate_cons_cons, List.append_assoc,
        List.mem_append, List.mem_append, List.mem_singleton] at h
      rcases h with hfirst | hsemicolon | hrest
      · exact .inr (isDigit_of_mem_writeParam hfirst)
      · exact .inl hsemicolon
      · exact ih hrest

/-- Digits and semicolons end no control sequence. -/
theorem isFinal_of_mem_writeParams {params : List (Option Nat)} {byte : UInt8}
    (h : byte ∈ writeParams params) : Parser.isFinal byte = false := by
  rcases mem_writeParams h with rfl | hdigit
  · rfl
  · obtain ⟨-, hmost⟩ := isDigit_iff.1 hdigit
    have hbelow : ¬0x40 ≤ byte := by
      rw [UInt8.le_iff_toNat_le]
      exact Nat.not_le.2 (Nat.lt_of_le_of_lt hmost (by decide))
    rw [Parser.isFinal, decide_eq_false hbelow, Bool.false_and]

end ControlSequence

namespace Item

variable {i : Item}

/-- What can be written is written as a token of the grammar. -/
theorem Valid.token (h : i.Valid) : i.token.Valid := by
  cases i with
  | control code => trivial
  | escaped byte => exact h
  | sequence params finalByte =>
    obtain ⟨-, -, -, hfinal⟩ := h
    exact ⟨fun byte hbyte => ControlSequence.isFinal_of_mem_writeParams hbyte, hfinal⟩
  | glyph byte => exact h

/-- The token stands for what the item stands for: its numbers are kept as a whole. -/
theorem Valid.actions_token (h : i.Valid) : i.token.actions = i.actions := by
  cases i with
  | control code => rfl
  | escaped byte => rfl
  | sequence params finalByte =>
    obtain ⟨hsome, hlimit, hkept, -⟩ := h
    rw [Item.token, Token.actions, List.take_of_length_le hkept,
      ControlSequence.ofRaw_writeParams hsome hlimit, Item.actions]
  | glyph byte => rfl

/-- Items are read as the actions that they stand for, one behind the other. -/
theorem parse_items {items : List Item} (h : ∀ i ∈ items, i.Valid) :
    Parser.ground.parse (items.flatMap fun i => i.token.bytes) =
      (.ground, items.flatMap Item.actions) := by
  have htokens : ∀ t ∈ items.map Item.token, t.Valid := by
    intro t ht
    obtain ⟨i, hi, rfl⟩ := List.mem_map.1 ht
    exact (h i hi).token
  have hread := Token.parse_flatMap_bytes htokens
  rw [List.flatMap_map, List.flatMap_map] at hread
  rw [hread, List.flatMap_congr fun i hi => (h i hi).actions_token]

end Item

namespace Script

/-- A string is told when it ends, and none is begun then. -/
theorem parse_string {s : List UInt8} (h : ValidString s) :
    (Parser.trailer #[]).parse (s ++ [0]) =
      (.trailer #[], [.metadata (CodePage.decode s)]) := by
  obtain ⟨hsome, hunended⟩ := h
  have hkept : ∀ begun : Array UInt8,
      (Parser.trailer begun).parse s = (.trailer (begun ++ s.toArray), []) := by
    clear hsome
    induction s with
    | nil =>
      intro begun
      rw [Array.append_empty, Parser.parse_nil]
    | cons byte s ih =>
      intro begun
      have hstep : (Parser.trailer begun).step byte = (.trailer (begun.push byte), []) :=
        if_neg (by rw [hunended byte List.mem_cons_self]; exact Bool.false_ne_true)
      rw [Parser.parse_cons, hstep, ih fun b hb => hunended b (List.mem_cons_of_mem _ hb)]
      simp
  have hends : (Parser.trailer s.toArray).step 0 =
      (.trailer #[], (Parser.string? s.toArray).toList) := rfl
  have hstring : Parser.string? s.toArray = some (.metadata (CodePage.decode s)) := by
    rw [Parser.string?, if_neg (by simpa using hsome), List.toList_toArray]
  rw [Parser.parse_append, hkept, Array.empty_append, Parser.parse_cons, hends, hstring]
  rfl

/-- Behind the end-of-text mark the strings are told in order, and none is begun then. -/
theorem parse_strings {strings : List (List UInt8)} (h : ∀ s ∈ strings, ValidString s) :
    (Parser.trailer #[]).parse (strings.flatMap fun s => s ++ [0]) =
      (.trailer #[], strings.map fun s => .metadata (CodePage.decode s)) := by
  induction strings with
  | nil => rfl
  | cons s strings ih =>
    rw [List.flatMap_cons, Parser.parse_append, parse_string (h s List.mem_cons_self),
      ih fun t ht => h t (List.mem_cons_of_mem _ ht)]
    rfl

/-- The end of a script is read as the actions that it stands for.  Nothing is begun
then that is still to be told. -/
theorem parse_ending {strings : Option (List (List UInt8))}
    (h : ∀ list, strings = some list → ∀ s ∈ list, ValidString s) :
    ∃ p, Parser.ground.parse (endingBytes strings) = (p, endingActions strings) ∧
      p.finish.2 = [] := by
  cases strings with
  | none => exact ⟨.ground, rfl, rfl⟩
  | some list =>
    have hmark : Parser.ground.step Parser.endMark = (.trailer #[], [.endOfText]) := by decide
    refine ⟨.trailer #[], ?_, rfl⟩
    rw [endingBytes, Parser.parse_cons, hmark, parse_strings (h list rfl)]
    rfl

end Script

namespace Parser

/-- Reads bytes that come in pieces, and collects the actions of every piece. -/
def parsePieces (p : Parser) : List (List UInt8) → Parser × List Action
  | [] => (p, [])
  | piece :: pieces =>
    let (next, actions) := p.parse piece
    let (last, later) := next.parsePieces pieces
    (last, actions ++ later)

/-- It does not matter how a stream is cut into pieces. -/
theorem parsePieces_eq (p : Parser) (pieces : List (List UInt8)) :
    p.parsePieces pieces = p.parse pieces.flatten := by
  induction pieces generalizing p with
  | nil => rfl
  | cons piece pieces ih =>
    rw [List.flatten_cons, parse_append, ← ih]
    rfl

end Parser

namespace Script

/-- **Reading undoes writing.**  What a script writes is read as the actions that the
script stands for, no others and in the same order, in whatever pieces the bytes come.
All of them are told by then: the end of the stream adds none. -/
theorem reading_undoes_writing {s : Script} (h : s.Valid) {pieces : List (List UInt8)}
    (hpieces : pieces.flatten = s.bytes) :
    (Parser.initial.parsePieces pieces).2 = s.actions ∧
      (Parser.initial.parsePieces pieces).1.finish.2 = [] := by
  obtain ⟨hitems, hstrings⟩ := h
  obtain ⟨p, hending, hfinish⟩ := parse_ending hstrings
  have hread : Parser.initial.parsePieces pieces = (p, s.actions) := by
    rw [Parser.parsePieces_eq, hpieces, Parser.initial, bytes, Parser.parse_append,
      Item.parse_items hitems, hending]
    rfl
  rw [hread]
  exact ⟨rfl, hfinish⟩

/-- Escaped bytes that mean something else elsewhere, a control sequence with the largest
number among ones left out, and strings, all read byte by byte. -/
theorem reading_undoes_writing_bytewise :
    let s : Script :=
      ⟨[.escaped Parser.escapeByte, .glyph 0x5B, .escaped Parser.endMark,
          .sequence [none, some 65535, none, some 0] 0x7E, .control .bell, .glyph 0x3B],
        some [[0x5B, 0x1B], [0x07]]⟩
    s.Valid ∧
      (Parser.initial.parsePieces (s.bytes.map fun byte => [byte])).2 = s.actions ∧
      (Parser.initial.parsePieces (s.bytes.map fun byte => [byte])).1.finish.2 = [] := by
  intro s
  have hvalid : s.Valid := by
    refine ⟨?_, ?_⟩
    · intro i hi
      simp only [s, List.mem_cons, List.not_mem_nil, or_false] at hi
      rcases hi with rfl | rfl | rfl | rfl | rfl | rfl
      · exact (by decide : Parser.escapeByte ≠ Parser.bracket)
      · exact ⟨by decide, by decide, by decide⟩
      · exact (by decide : Parser.endMark ≠ Parser.bracket)
      · refine ⟨List.cons_ne_nil _ _, ?_, by decide +kernel, by decide⟩
        intro n hn
        simp only [List.mem_cons, reduceCtorEq, Option.some.injEq, List.not_mem_nil, false_or,
          or_false] at hn
        rcases hn with rfl | rfl <;> decide
      · trivial
      · exact ⟨by decide, by decide, by decide⟩
    · intro strings hstrings
      obtain rfl := Option.some.inj hstrings
      intro t ht
      simp only [List.mem_cons, List.not_mem_nil, or_false] at ht
      rcases ht with rfl | rfl
      · exact ⟨List.cons_ne_nil _ _, by decide +kernel⟩
      · exact ⟨List.cons_ne_nil _ _, by decide +kernel⟩
  have hpieces : (s.bytes.map fun byte => [byte]).flatten = s.bytes := by decide +kernel
  exact ⟨hvalid, reading_undoes_writing hvalid hpieces⟩

end Script

end BaudReel
