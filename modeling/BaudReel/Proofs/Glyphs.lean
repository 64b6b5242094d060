import BaudReel.Proofs.Failure

/-!
# Bytes and glyphs

Reading bytes as text and writing text as bytes undo each other up to what each of them
loses.

* The bytes `00` and `20` show the same space, which is written as `20`.  No other glyph is
  shown by two bytes, so every other byte comes back (`encodeChar_glyph`).
* ASCII is written as itself, also the control codes, which are no glyphs.  Their bytes show
  dingbats, and a dingbat is what such a character comes back as.  A character beyond ASCII
  that is no glyph comes back as a question mark (`glyph_encodeChar_eq`).

So the characters that come back as they were are the glyphs, and no others
(`reread_eq_iff`).  What was read from written text is written as the same bytes again, but
for the zero byte, which only the zero character is written as
(`encodeChar_eq_zero_iff`).  The main statement, `bytes_and_glyphs`, says this of whole
strings and texts.
-/

namespace BaudReel.CodePage

/-- The byte that the glyph of a byte is written as. -/
def settled (byte : UInt8) : UInt8 :=
  if byte = 0 then 0x20 else byte

/-- What a character comes back as when it is written and read: a glyph as itself, another
ASCII character as what its own code shows, and all else as a question mark. -/
def reread (c : Char) : Char :=
  if c ∈ table then c else if c.toNat < 128 then glyph (UInt8.ofNat c.toNat) else '?'

/-- The glyphs are the characters of the table. -/
theorem mem_table_iff {c : Char} : c ∈ table ↔ ∃ byte, glyph byte = c := by
  constructor
  · intro hc
    obtain ⟨k, hk, rfl⟩ := Array.mem_iff_getElem.1 hc
    exact ⟨UInt8.ofNat k, glyph_of_lt hk⟩
  · rintro ⟨byte, rfl⟩
    have hbyte : byte.toNat < table.size := by
      rw [size_table]
      exact byte.toNat_lt
    have hmem := glyph_mem_table hbyte
    rwa [UInt8.ofNat_toNat] at hmem

/-- No glyph is a control code of ASCII. -/
theorem printable_glyph (byte : UInt8) : Printable (glyph byte) := by
  have htable : table.toList.all (Printable ·) = true := by decide +kernel
  exact printable_of_all htable _ (Array.mem_toList_iff.2 (mem_table_iff.2 ⟨byte, rfl⟩))

/-- Of the ASCII characters, those that are no control codes are glyphs. -/
theorem mem_table_iff_printable {c : Char} (hascii : c.toNat < 128) :
    c ∈ table ↔ Printable c := by
  constructor
  · intro hc
    obtain ⟨byte, rfl⟩ := mem_table_iff.1 hc
    exact printable_glyph byte
  · intro hc
    have hself := glyph_ascii c.toNat hascii hc.1 hc.2
    rw [Char.ofNat_toNat] at hself
    exact mem_table_iff.2 ⟨_, hself⟩

/-- Whether no number stands in a list twice. -/
def distinct : List Nat → Bool
  | [] => true
  | n :: rest => !rest.any (Nat.beq n) && distinct rest

theorem nodup_of_distinct {codes : List Nat} (h : distinct codes = true) : codes.Nodup := by
  induction codes with
  | nil => exact List.nodup_nil
  | cons n rest ih =>
    obtain ⟨hfirst, hrest⟩ := Bool.and_eq_true_iff.1 h
    refine List.nodup_cons.2 ⟨fun hmem => ?_, ih hrest⟩
    have hfound : rest.any (Nat.beq n) = true :=
      List.any_eq_true.2 ⟨n, hmem, Nat.beq_refl n⟩
    rw [hfound] at hfirst
    exact Bool.false_ne_true hfirst

/-- Behind the zero byte, every byte has a glyph of its own. -/
theorem nodup_glyphs : table.toList.tail.Nodup := by
  -- compared as numbers, which is quicker than comparing characters
  have hcodes : distinct (table.toList.tail.map Char.toNat) = true := by decide +kernel
  exact List.Pairwise.of_map Char.toNat (fun _ _ hne hsame => hne (congrArg _ hsame))
    (nodup_of_distinct hcodes)

theorem getElem?_tail_table (byte : UInt8) (hbyte : byte ≠ 0) :
    table.toList.tail[byte.toNat - 1]? = some (glyph byte) := by
  have hpos : byte.toNat ≠ 0 := fun hzero => hbyte (UInt8.toNat_inj.1 hzero)
  have hlt : byte.toNat < table.size := by
    rw [size_table]
    exact byte.toNat_lt
  have hglyph := glyph_of_lt hlt
  rw [UInt8.ofNat_toNat] at hglyph
  rw [List.getElem?_tail, Nat.sub_add_cancel (Nat.pos_of_ne_zero hpos), Array.getElem?_toList,
    Array.getElem?_eq_getElem hlt, hglyph]

/-- Two bytes with one glyph are one byte, but for the byte zero. -/
theorem eq_of_glyph_eq {a b : UInt8} (ha : a ≠ 0) (hb : b ≠ 0) (h : glyph a = glyph b) :
    a = b := by
  have hfound := getElem?_tail_table a ha
  have hplace : a.toNat - 1 < table.toList.tail.length :=
    (List.getElem?_eq_some_iff.1 hfound).1
  have hsame : a.toNat - 1 = b.toNat - 1 := by
    apply (List.getElem?_inj hplace nodup_glyphs).1
    rw [hfound, getElem?_tail_table b hb, h]
  have hpos : a.toNat ≠ 0 := fun hzero => ha (UInt8.toNat_inj.1 hzero)
  have hpos' : b.toNat ≠ 0 := fun hzero => hb (UInt8.toNat_inj.1 hzero)
  exact UInt8.toNat_inj.1 (by omega)

/-- A glyph is written as the byte that shows it; of the two bytes that show a space, as
the one that is not zero. -/
theorem encodeChar_glyph (byte : UInt8) : encodeChar (glyph byte) = settled byte := by
  have hsettled : settled byte ≠ 0 ∧ glyph (settled byte) = glyph byte := by
    unfold settled
    split
    case isTrue hzero =>
      subst hzero
      decide +kernel
    case isFalse hsome => exact ⟨hsome, rfl⟩
  obtain ⟨hshown, hsome⟩ := glyph_encodeChar (printable_glyph byte)
  rw [shown, if_pos (mem_table_iff.2 ⟨byte, rfl⟩)] at hshown
  exact eq_of_glyph_eq hsome hsettled.1 (hshown.trans hsettled.2.symm)

/-- The glyph of a character's byte is the character itself, or a question mark. -/
theorem glyph_encodeChar_eq (c : Char) : glyph (encodeChar c) = reread c := by
  by_cases hprintable : Printable c
  · have hshown := (glyph_encodeChar hprintable).1
    by_cases hc : c ∈ table
    · rw [hshown, shown, reread, if_pos hc, if_pos hc]
    · have hbeyond : ¬c.toNat < 128 :=
        fun hascii => hc ((mem_table_iff_printable hascii).2 hprintable)
      rw [hshown, shown, reread, if_neg hc, if_neg hc, if_neg hbeyond]
  · -- a control code is written as itself
    have hascii : c.toNat < 128 := by
      unfold Printable at hprintable
      omega
    have hc : c ∉ table := fun hmem => hprintable ((mem_table_iff_printable hascii).1 hmem)
    rw [encodeChar, reread, if_pos hascii, if_neg hc, if_pos hascii]

/-- A character is reread as itself if it has a glyph. -/
theorem reread_eq_iff {c : Char} : reread c = c ↔ c ∈ table := by
  constructor
  · intro hsame
    by_contra hc
    -- whatever is read is a glyph
    have hread : reread c ∈ table := mem_table_iff.2 ⟨encodeChar c, glyph_encodeChar_eq c⟩
    exact hc (hsame ▸ hread)
  · intro hc
    rw [reread, if_pos hc]

/-- Only the zero character is written as the zero byte. -/
theorem encodeChar_eq_zero_iff {c : Char} : encodeChar c = 0 ↔ c = '\x00' := by
  constructor
  · intro hzero
    by_cases hprintable : Printable c
    · exact absurd hzero (glyph_encodeChar hprintable).2
    · have hascii : c.toNat < 128 := by
        unfold Printable at hprintable
        omega
      rw [encodeChar, if_pos hascii] at hzero
      have hvalue := congrArg UInt8.toNat hzero
      rw [UInt8.toNat_ofNat_of_lt' (show c.toNat < 256 by omega)] at hvalue
      rw [← Char.ofNat_toNat c, hvalue]
      rfl
  · rintro rfl
    rfl

/-- The byte zero is the only one that does not settle as itself. -/
theorem settled_ne_iff {byte : UInt8} : settled byte ≠ byte ↔ byte = 0 := by
  unfold settled
  split
  case isTrue hzero =>
    subst hzero
    decide
  case isFalse hsome => exact iff_of_false (fun h => h rfl) hsome

/-- Decoding loses nothing of bytes but the zeros. -/
theorem encode_decode (bytes : List UInt8) : encode (decode bytes) = bytes.map settled := by
  rw [encode, decode, String.toList_ofList, List.map_map]
  refine List.map_congr_left fun byte _ => ?_
  rw [Function.comp_apply, encodeChar_glyph]

/-- Encoding loses the characters that have no glyph, and no others. -/
theorem decode_encode (text : String) :
    decode (encode text) = String.ofList (text.toList.map reread) := by
  rw [decode, encode, List.map_map]
  refine congrArg String.ofList (List.map_congr_left fun c _ => ?_)
  rw [Function.comp_apply, glyph_encodeChar_eq]

/-- A text survives encoding if all its characters have glyphs. -/
theorem decode_encode_eq_iff (text : String) :
    decode (encode text) = text ↔ ∀ c ∈ text.toList, c ∈ table := by
  rw [decode_encode, ← String.toList_inj, String.toList_ofList]
  calc text.toList.map reread = text.toList
    _ ↔ text.toList.map reread = text.toList.map id := by rw [List.map_id]
    _ ↔ ∀ c ∈ text.toList, reread c = id c := List.map_inj_left
    _ ↔ ∀ c ∈ text.toList, c ∈ table := forall₂_congr fun c _ => reread_eq_iff

/-- **Bytes and glyphs.**  For every string of bytes and every text:

* The bytes come back from the text they show, but that `20` comes back for `00`.
* The text is written as one byte for each character.
* From these bytes every glyph comes back.  A character that is no glyph comes back as what
  its own code shows if it is ASCII, which are the control codes, and else as a question mark.
* So the text comes back as it was exactly if it consists of glyphs.
* The bytes of what came back are those of the text, except where the text has the zero
  character. -/
theorem bytes_and_glyphs (bytes : List UInt8) (text : String) :
    encode (decode bytes) = bytes.map (fun byte => if byte = 0 then 0x20 else byte) ∧
    (encode text).length = text.length ∧
    ((decode (encode text)).toList = text.toList.map reread ∧
      ∀ c, (c ∈ table ↔ ∃ byte, glyph byte = c) ∧
        (c.toNat < 128 → (c ∉ table ↔ c.toNat < 32 ∨ c.toNat = 127))) ∧
    (decode (encode text) = text ↔ ∀ c ∈ text.toList, ∃ byte, glyph byte = c) ∧
    ∀ i : Nat, (encode (decode (encode text)))[i]? ≠ (encode text)[i]? ↔
      text.toList[i]? = some '\x00' := by
  refine ⟨encode_decode bytes, ?_, ⟨?_, fun c => ⟨mem_table_iff, ?_⟩⟩, ?_, ?_⟩
  · rw [encode, List.length_map, String.length_toList]
  · rw [decode_encode, String.toList_ofList]
  · intro hascii
    rw [mem_table_iff_printable hascii, Printable]
    omega
  · simp only [← mem_table_iff]
    exact decode_encode_eq_iff text
  · intro i
    rw [encode_decode, List.getElem?_map, encode, List.getElem?_map]
    cases text.toList[i]? with
    | none => simp
    | some c =>
      simp only [Option.map_some, ne_eq, Option.some.injEq]
      exact settled_ne_iff.trans encodeChar_eq_zero_iff

end BaudReel.CodePage
