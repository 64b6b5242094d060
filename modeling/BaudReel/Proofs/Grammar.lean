import BaudReel.Token
import Mathlib.Logic.ExistsUnique

/-!
# The reader recognises the grammar

Every byte string is the spelling of one stream and of no other.  A stream grows
byte by byte (`Stream.push`): a byte begins a token, goes on with the one that is
unfinished, or finishes it.  What so grows from the bytes is valid and spells them
(`valid_ofBytes`, `bytes_ofBytes`), and the bytes of a valid stream grow to that
stream again (`ofBytes_bytes`).

The reader gives the actions of that stream, and it does not matter in which
pieces the bytes come.  Of the ending only the trailer has actions: the string
begun so far is what the reader carries from byte to byte (`parse_trailer`).
-/

namespace BaudReel

namespace Parser

/-- Reads a stream that comes in pieces, to its end. -/
def readPieces (p : Parser) : List (List UInt8) → List Action
  | [] => p.finish.2
  | piece :: pieces => (p.parse piece).2 ++ (p.parse piece).1.readPieces pieces

/-- All actions of a stream that comes in one piece. -/
def readAll (p : Parser) (bytes : List UInt8) : List Action :=
  (p.parse bytes).2 ++ (p.parse bytes).1.finish.2

/-- It does not matter how a stream is cut into pieces. -/
theorem readPieces_eq (p : Parser) (pieces : List (List UInt8)) :
    p.readPieces pieces = p.readAll pieces.flatten := by
  induction pieces generalizing p with
  | nil => rfl
  | cons piece pieces ih =>
    rw [readPieces, ih, readAll, readAll, List.flatten_cons, parse_append, List.append_assoc]

/-- A stream is read on from where its front part left the reader. -/
theorem readAll_append (p : Parser) (front rest : List UInt8) :
    p.readAll (front ++ rest) = (p.parse front).2 ++ (p.parse front).1.readAll rest := by
  rw [readAll, readAll, parse_append, List.append_assoc]

end Parser

namespace Ending

/-- The strings on both sides of a byte that ends a string. -/
theorem strings_append_cons {byte : UInt8} (h : Parser.endsString byte = true)
    (front rest : List UInt8) :
    strings (front ++ byte :: rest) = strings front ++ strings rest := by
  unfold strings
  rw [List.splitOnP_append_cons front rest h, List.filter_append]

/-- Where nothing ends it, what was begun is the only string, unless it is empty. -/
theorem strings_of_unended {begun : List UInt8}
    (h : ∀ byte ∈ begun, Parser.endsString byte = false) :
    strings begun = if begun.isEmpty then [] else [begun] := by
  unfold strings
  rw [List.splitOnP_eq_singleton h]
  cases begun <;> rfl

/-- The action of a string of a trailer. -/
def told (piece : List UInt8) : Action :=
  .metadata (CodePage.decode piece)

/-- Bytes without an end of a string are one string, or none if there are none. -/
theorem toList_string? {begun : Array UInt8}
    (h : ∀ byte ∈ begun.toList, Parser.endsString byte = false) :
    (Parser.string? begun).toList = (strings begun.toList).map told := by
  rw [strings_of_unended h, Parser.string?]
  obtain ⟨_ | ⟨byte, bytes⟩⟩ := begun <;> rfl

/-- Behind the end-of-text mark the reader tells the strings, with the one begun
before in front. -/
theorem parse_trailer (begun : Array UInt8) (rest : List UInt8)
    (hbegun : ∀ byte ∈ begun.toList, Parser.endsString byte = false) :
    (Parser.trailer begun).readAll rest = (strings (begun.toList ++ rest)).map told := by
  induction rest generalizing begun with
  | nil =>
    rw [List.append_nil, ← toList_string? hbegun]
    rfl
  | cons byte rest ih =>
    rw [Parser.readAll, Parser.parse_cons]
    by_cases hends : Parser.endsString byte
    case pos =>
      have hstep : (Parser.trailer begun).step byte =
          (.trailer #[], (Parser.string? begun).toList) := if_pos hends
      have hrest := ih #[] (fun _ h => absurd h List.not_mem_nil)
      rw [strings_append_cons hends, List.map_append, ← toList_string? hbegun, hstep,
        List.append_assoc]
      exact congrArg _ hrest
    case neg =>
      have hstep : (Parser.trailer begun).step byte = (.trailer (begun.push byte), []) :=
        if_neg hends
      have hpushed : ∀ b ∈ (begun.push byte).toList, Parser.endsString b = false := by
        intro b hb
        rw [Array.toList_push, List.mem_append, List.mem_singleton] at hb
        rcases hb with hb | rfl
        · exact hbegun b hb
        · exact Bool.not_eq_true _ ▸ hends
      have hrest := ih (begun.push byte) hpushed
      rw [Array.toList_push, List.append_assoc] at hrest
      rw [hstep]
      exact hrest

/-- **The end of a stream.**  From the ground state the reader gives the actions
of an ending. -/
theorem readAll_bytes {e : Ending} (h : e.Valid) :
    Parser.ground.readAll e.bytes = e.actions := by
  cases e with
  | clean => rfl
  | trailer rest =>
    have hmark : Parser.ground.step Parser.endMark = (.trailer #[], [.endOfText]) := by decide
    have hstrings := parse_trailer #[] rest (fun _ h => absurd h List.not_mem_nil)
    rw [Parser.readAll, bytes, Parser.parse_cons, hmark]
    exact congrArg (Action.endOfText :: ·) hstrings
  | openEscape => rfl
  | openSequence raw =>
    have hopen : Parser.ground.step Parser.escapeByte = (.escape, []) := by decide
    have hbracket : Parser.escape.step Parser.bracket = (.params #[], []) := by decide
    have hparams := Token.parse_params #[] h (Nat.zero_le _)
    rw [Parser.readAll, bytes, Parser.parse_cons, hopen, Parser.parse_cons, hbracket, hparams]
    rfl

end Ending

namespace Stream

/-- The reader gives the actions of a valid stream. -/
theorem readAll_bytes {s : Stream} (h : s.Valid) :
    Parser.initial.readAll s.bytes = s.actions := by
  have htokens := Token.parse_flatMap_bytes h.1
  have hending := Ending.readAll_bytes h.2
  rw [bytes, Parser.readAll_append, Parser.initial, htokens, hending]
  rfl

/-- The stream with a token behind the others, and nothing unfinished. -/
def add (s : Stream) (t : Token) : Stream :=
  ⟨s.tokens ++ [t], .clean⟩

/-- The stream with another ending. -/
def endIn (s : Stream) (e : Ending) : Stream :=
  ⟨s.tokens, e⟩

/-- A byte where nothing is unfinished. -/
def pushClean (s : Stream) (byte : UInt8) : Stream :=
  match ControlCode.ofByte? byte with
  | some code => s.add (.control code)
  | none =>
    if byte = Parser.endMark then s.endIn (.trailer [])
    else if byte = Parser.escapeByte then s.endIn .openEscape
    else s.add (.glyph byte)

/-- The stream with one more byte. -/
def push (s : Stream) (byte : UInt8) : Stream :=
  match s.ending with
  | .clean => s.pushClean byte
  | .trailer rest => s.endIn (.trailer (rest ++ [byte]))
  | .openEscape =>
    if byte = Parser.bracket then s.endIn (.openSequence []) else s.add (.escaped byte)
  | .openSequence raw =>
    if Parser.isFinal byte then s.add (.sequence raw byte)
    else s.endIn (.openSequence (raw ++ [byte]))

/-- The stream before its first byte. -/
def empty : Stream := ⟨[], .clean⟩

/-- The stream that bytes spell. -/
def ofBytes (bytes : List UInt8) : Stream :=
  bytes.foldl push empty

section Push

variable {s : Stream}

/-- A stream stays valid when a valid token is put behind it. -/
theorem Valid.add (h : s.Valid) {t : Token} (ht : t.Valid) : (s.add t).Valid := by
  refine ⟨?_, trivial⟩
  intro u hu
  rcases List.mem_append.1 hu with hmem | hlast
  · exact h.1 u hmem
  · rw [List.mem_singleton.1 hlast]
    exact ht

/-- A stream stays valid with a valid ending. -/
theorem Valid.endIn (h : s.Valid) {e : Ending} (he : e.Valid) : (s.endIn e).Valid :=
  ⟨h.1, he⟩

/-- The bytes of a stream with one more token. -/
theorem bytes_add (s : Stream) (t : Token) :
    (s.add t).bytes = s.tokens.flatMap Token.bytes ++ t.bytes := by
  simp [bytes, Stream.add, Ending.bytes]

/-- **One byte.**  A stream stays valid. -/
theorem Valid.push (h : s.Valid) (byte : UInt8) : (s.push byte).Valid := by
  obtain ⟨tokens, ending⟩ := s
  cases ending with
  | clean =>
    unfold Stream.push pushClean
    dsimp only
    split
    · exact h.add trivial
    · next hcode =>
      split
      · exact h.endIn trivial
      · next hmark =>
        split
        · exact h.endIn trivial
        · next hescape => exact h.add ⟨hcode, hmark, hescape⟩
  | trailer rest => exact h.endIn trivial
  | openEscape =>
    unfold Stream.push
    dsimp only
    split
    · exact h.endIn (fun _ hb => absurd hb List.not_mem_nil)
    · next hbracket => exact h.add hbracket
  | openSequence raw =>
    have hraw : ∀ b ∈ raw, Parser.isFinal b = false := h.2
    unfold Stream.push
    dsimp only
    split
    · next hfinal => exact h.add ⟨hraw, hfinal⟩
    · next hfinal =>
      apply h.endIn
      intro b hb
      rcases List.mem_append.1 hb with hmem | hlast
      · exact hraw b hmem
      · rw [List.mem_singleton.1 hlast]
        exact Bool.not_eq_true _ ▸ hfinal

/-- A byte is spelled behind those before it. -/
theorem bytes_push (s : Stream) (byte : UInt8) : (s.push byte).bytes = s.bytes ++ [byte] := by
  obtain ⟨tokens, ending⟩ := s
  cases ending with
  | clean =>
    unfold push pushClean
    dsimp only
    split
    · next code hcode =>
      rw [bytes_add, Token.bytes, ControlCode.toByte_of_ofByte? hcode]
      simp [bytes, Ending.bytes]
    · split
      · next hmark => simp [hmark, bytes, endIn, Ending.bytes]
      · split
        · next hescape => simp [hescape, bytes, endIn, Ending.bytes]
        · rw [bytes_add]
          simp [bytes, Token.bytes, Ending.bytes]
  | trailer rest => simp [push, endIn, bytes, Ending.bytes]
  | openEscape =>
    unfold push
    dsimp only
    split
    · next hbracket => simp [hbracket, bytes, endIn, Ending.bytes]
    · rw [bytes_add]
      simp [bytes, Token.bytes, Ending.bytes]
  | openSequence raw =>
    unfold push
    dsimp only
    split
    · rw [bytes_add]
      simp [bytes, Token.bytes, Ending.bytes]
    · simp [bytes, endIn, Ending.bytes]

end Push

/-- The stream of any bytes is valid. -/
theorem valid_ofBytes (bytes : List UInt8) : (ofBytes bytes).Valid := by
  have hrun : ∀ s : Stream, s.Valid → (bytes.foldl push s).Valid := by
    induction bytes with
    | nil =>
      intro s hs
      exact hs
    | cons byte bytes ih =>
      intro s hs
      exact ih _ (hs.push byte)
  exact hrun empty ⟨fun _ h => absurd h List.not_mem_nil, trivial⟩

/-- The stream of any bytes has just these bytes. -/
theorem bytes_ofBytes (bytes : List UInt8) : (ofBytes bytes).bytes = bytes := by
  have hrun : ∀ s : Stream, (bytes.foldl push s).bytes = s.bytes ++ bytes := by
    induction bytes with
    | nil =>
      intro s
      exact (List.append_nil _).symm
    | cons byte bytes ih =>
      intro s
      rw [List.foldl_cons, ih, bytes_push, List.append_assoc]
      rfl
  exact hrun empty

section Unique

variable (tokens : List Token)

/-- The bytes of a control sequence only make it longer. -/
theorem foldl_push_raw {raw : List UInt8} (hraw : ∀ byte ∈ raw, Parser.isFinal byte = false)
    (begun : List UInt8) :
    raw.foldl push ⟨tokens, .openSequence begun⟩ = ⟨tokens, .openSequence (begun ++ raw)⟩ := by
  induction raw generalizing begun with
  | nil => rw [List.append_nil, List.foldl_nil]
  | cons byte raw ih =>
    have hbyte : Parser.isFinal byte = false := hraw byte List.mem_cons_self
    have hpush : push ⟨tokens, .openSequence begun⟩ byte =
        ⟨tokens, .openSequence (begun ++ [byte])⟩ := if_neg (Bool.not_eq_true _ ▸ hbyte)
    rw [List.foldl_cons, hpush, ih (fun b hb => hraw b (List.mem_cons_of_mem _ hb)),
      List.append_assoc]
    rfl

/-- Behind the end of the text all bytes go to the trailer. -/
theorem foldl_push_trailer (begun rest : List UInt8) :
    rest.foldl push ⟨tokens, .trailer begun⟩ = ⟨tokens, .trailer (begun ++ rest)⟩ := by
  induction rest generalizing begun with
  | nil => rw [List.append_nil, List.foldl_nil]
  | cons byte rest ih =>
    have hpush : push ⟨tokens, .trailer begun⟩ byte = ⟨tokens, .trailer (begun ++ [byte])⟩ := rfl
    rw [List.foldl_cons, hpush, ih, List.append_assoc]
    rfl

/-- The escape byte leaves an escape open. -/
theorem push_escape : push ⟨tokens, .clean⟩ Parser.escapeByte = ⟨tokens, .openEscape⟩ :=
  rfl

/-- A bracket behind the escape byte leaves a control sequence open. -/
theorem push_bracket :
    push ⟨tokens, .openEscape⟩ Parser.bracket = ⟨tokens, .openSequence []⟩ :=
  rfl

/-- The bytes of a token grow to that token. -/
theorem foldl_push_token {t : Token} (h : t.Valid) :
    t.bytes.foldl push ⟨tokens, .clean⟩ = ⟨tokens ++ [t], .clean⟩ := by
  cases t with
  | control code =>
    show pushClean ⟨tokens, .clean⟩ code.toByte = _
    rw [pushClean, ControlCode.ofByte?_toByte]
    rfl
  | escaped byte =>
    have hbyte : byte ≠ Parser.bracket := h
    rw [Token.bytes, List.foldl_cons, push_escape]
    exact if_neg hbyte
  | sequence raw finalByte =>
    obtain ⟨hraw, hfinal⟩ := h
    rw [Token.bytes, List.foldl_cons, push_escape, List.foldl_cons, push_bracket,
      List.foldl_append, foldl_push_raw tokens hraw]
    exact if_pos hfinal
  | glyph byte =>
    obtain ⟨hcode, hmark, hescape⟩ := h
    show pushClean ⟨tokens, .clean⟩ byte = _
    rw [pushClean, hcode]
    dsimp only
    rw [if_neg hmark, if_neg hescape]
    rfl

/-- **A run of tokens.**  The bytes of valid tokens are taken as these tokens. -/
theorem foldl_push_tokens {more : List Token} (h : ∀ t ∈ more, t.Valid) :
    (more.flatMap Token.bytes).foldl push ⟨tokens, .clean⟩ = ⟨tokens ++ more, .clean⟩ := by
  induction more generalizing tokens with
  | nil => rw [List.append_nil, List.flatMap_nil, List.foldl_nil]
  | cons t more ih =>
    have ht : t.Valid := h t List.mem_cons_self
    rw [List.flatMap_cons, List.foldl_append, foldl_push_token tokens ht,
      ih _ (fun u hu => h u (List.mem_cons_of_mem _ hu)), List.append_assoc]
    rfl

/-- The bytes of a valid ending are taken as this ending. -/
theorem foldl_push_ending {e : Ending} (h : e.Valid) :
    e.bytes.foldl push ⟨tokens, .clean⟩ = ⟨tokens, e⟩ := by
  cases e with
  | clean => rfl
  | trailer rest =>
    have hmark : push ⟨tokens, .clean⟩ Parser.endMark = ⟨tokens, .trailer []⟩ := rfl
    rw [Ending.bytes, List.foldl_cons, hmark, foldl_push_trailer]
    rfl
  | openEscape => rfl
  | openSequence raw =>
    rw [Ending.bytes, List.foldl_cons, push_escape, List.foldl_cons, push_bracket,
      foldl_push_raw tokens h]
    rfl

end Unique

/-- **Nothing else is spelled so.**  The bytes of a valid stream lead back to
it. -/
theorem ofBytes_bytes {s : Stream} (h : s.Valid) : ofBytes s.bytes = s := by
  rw [ofBytes, bytes, List.foldl_append, empty, foldl_push_tokens [] h.1, List.nil_append,
    foldl_push_ending s.tokens h.2]

/-- **The reader recognises exactly the grammar.**  One stream is spelled by the
bytes, and no other.  In whatever pieces the bytes come, the reader gives the
actions of that stream. -/
theorem reader_recognises_grammar (bytes : List UInt8) :
    (∃! s : Stream, s.Valid ∧ s.bytes = bytes) ∧
      ∀ s : Stream, s.Valid → s.bytes = bytes →
        ∀ pieces : List (List UInt8), pieces.flatten = bytes →
          Parser.initial.readPieces pieces = s.actions := by
  refine ⟨⟨ofBytes bytes, ⟨valid_ofBytes bytes, bytes_ofBytes bytes⟩, ?_⟩, ?_⟩
  · intro s hs
    obtain ⟨hvalid, hbytes⟩ := hs
    rw [← hbytes, ofBytes_bytes hvalid]
  · intro s hvalid hbytes pieces hpieces
    rw [Parser.readPieces_eq, hpieces, ← hbytes, readAll_bytes hvalid]

/-- A stream cut inside its escapes and inside its trailer.  The escape that is
escaped itself is shown, and of the trailer only the strings with bytes are
told. -/
theorem reader_recognises_grammar_cut :
    let s : Stream :=
      ⟨[.escaped Parser.escapeByte, .sequence [0x33, 0x31] 0x6D, .control .bell],
        .trailer [0x53, 0x00, 0x1A, 0x54]⟩
    s.Valid ∧
      Parser.initial.readPieces
          [[0x1B], [0x1B, 0x1B], [], [0x5B, 0x33], [0x31, 0x6D, 0x07, 0x1A, 0x53], [0x00, 0x1A],
            [0x54]] =
        s.actions ∧
      s.actions =
        [.print 0x1B, .print 0x1B, .sequence ⟨0x6D, [some 31]⟩, .control .bell, .endOfText,
          .metadata "S", .metadata "T"] := by
  intro s
  have hvalid : s.Valid := by
    refine ⟨?_, trivial⟩
    intro t ht
    simp only [s, List.mem_cons, List.not_mem_nil, or_false] at ht
    rcases ht with rfl | rfl | rfl
    · exact (by decide : Parser.escapeByte ≠ Parser.bracket)
    · refine ⟨?_, by decide⟩
      rw [List.forall_mem_cons, List.forall_mem_singleton]
      decide
    · trivial
  exact ⟨hvalid, (reader_recognises_grammar _).2 s hvalid rfl _ rfl, by decide +kernel⟩

end Stream

end BaudReel
