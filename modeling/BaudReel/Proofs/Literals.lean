import BaudReel.Decimal.Double
import BaudReel.Json.Printer
import BaudReel.Json.Reader

/-!
# Literals are read as they were written

A reader of documents has to find where a token ends.  For a number the next character decides,
so that a number is read back in front of everything that does not go on with it
(`Json.numeral?_text`).  A string literal ends itself: each of its characters is written as one
piece, which spells that character and no other (`Json.isPiece_escapeChar`), and no piece begins
with the quotation mark that ends the literal (`Json.stringBody?_append`).

Numbers come with any digits a document may have; those that doubles are written with are
digits in the usual sense (`Json.plain_of_ofFloat?`).
-/

namespace BaudReel

open Decimal (Numeral)

theorem isDigit_of_mem_toDigits {n : Nat} {c : Char} (h : c ∈ Nat.toDigits 10 n) :
    c.isDigit = true :=
  Nat.isDigit_of_mem_toDigits (by decide) (by decide) h

/-- A natural number is written with its decimal digits. -/
theorem toList_toString (n : Nat) : (toString n).toList = Nat.toDigits 10 n := by
  rw [Nat.toString_eq_repr, Nat.repr, String.toList_ofList]

namespace Json

/-- A run of characters of a kind stops in front of these. -/
def Stops (kind : Char → Bool) (cs : List Char) : Prop :=
  ∀ c ∈ cs.head?, kind c = false

theorem stops_nil (kind : Char → Bool) : Stops kind [] := by
  intro c hc
  cases hc

/-- A run stops in front of a character that is not of its kind. -/
theorem stops_cons {kind : Char → Bool} {c : Char} (h : kind c = false) (cs : List Char) :
    Stops kind (c :: cs) := by
  intro d hd
  cases hd
  exact h

/-- No character is taken where a run has stopped. -/
theorem Stops.takeWhile {kind : Char → Bool} {rest : List Char} (hrest : Stops kind rest) :
    rest.takeWhile kind = [] ∧ rest.dropWhile kind = rest := by
  cases rest with
  | nil => exact ⟨rfl, rfl⟩
  | cons c rest =>
    have hc : ¬kind c = true := by
      rw [hrest c rfl]
      exact Bool.false_ne_true
    exact ⟨List.takeWhile_cons_of_neg hc, List.dropWhile_cons_of_neg hc⟩

section Numbers

/-- The characters that a number could go on with. -/
def continues (c : Char) : Bool :=
  isDecimal c || c == '.' || c == 'e' || c == 'E'

/-- What does not continue a number does not continue digits. -/
theorem Stops.decimal {rest : List Char} (h : Stops continues rest) : Stops isDecimal rest := by
  intro c hc
  have hcontinues := h c hc
  simp only [continues, Bool.or_eq_false_iff] at hcontinues
  exact hcontinues.1.1.1

/-- What does not continue a number does not begin with a character that would. -/
theorem Stops.ne {rest : List Char} (h : Stops continues rest) {c : Char}
    (hc : continues c = true) (cs : List Char) : rest ≠ c :: cs := by
  rintro rfl
  exact Bool.false_ne_true ((h c rfl).symm.trans hc)

/-- Digits are read as far as they go. -/
theorem someDigits?_append {cs rest : List Char} (hsome : cs ≠ [])
    (hdigits : ∀ c ∈ cs, isDecimal c = true) (hrest : Stops isDecimal rest) :
    someDigits? (cs ++ rest) = some (cs.map digitValue, rest) := by
  have hfound : digits (cs ++ rest) = (cs.map digitValue, rest) := by
    rw [digits, List.takeWhile_append_of_pos hdigits, List.dropWhile_append_of_pos hdigits,
      hrest.takeWhile.1, hrest.takeWhile.2, List.append_nil]
  cases cs with
  | nil => exact absurd rfl hsome
  | cons c cs => rw [someDigits?, hfound]; rfl

/-- The digits of a number are read as this number. -/
theorem someDigits?_toDigits (n : Nat) {rest : List Char} (hrest : Stops isDecimal rest) :
    ∃ ds, someDigits? (Nat.toDigits 10 n ++ rest) = some (ds, rest) ∧ Decimal.valueOf ds = n := by
  have hdigits : ∀ c ∈ Nat.toDigits 10 n, isDecimal c = true := fun _ => isDigit_of_mem_toDigits
  refine ⟨_, someDigits?_append Nat.toDigits_ne_nil hdigits hrest, ?_⟩
  rw [Decimal.valueOf, List.foldl_map]
  exact Nat.ofDigitChars_ten_toDigits

/-- The character of a digit is read as that digit. -/
theorem digitValue_digitChar :
    ∀ d < 10, isDecimal (Nat.digitChar d) = true ∧ digitValue (Nat.digitChar d) = d := by
  decide

/-- A number begins with a zero only if it is zero. -/
theorem toDigits_ne_zero_cons {n : Nat} (h : 0 < n) (cs : List Char) :
    Nat.toDigits 10 n ≠ '0' :: cs := by
  induction n using Nat.strongRecOn generalizing cs with
  | ind n ih =>
    by_cases hsmall : n < 10
    · have hdigit : ∀ d < 10, 0 < d → Nat.digitChar d ≠ '0' := by decide
      rw [Nat.toDigits_of_lt_base hsmall]
      intro hzero
      exact hdigit n hsmall h (List.cons.inj hzero).1
    · rw [Nat.toDigits_of_base_le (by decide) (Nat.le_of_not_lt hsmall)]
      intro hzero
      rcases List.append_eq_cons_iff.1 hzero with ⟨hnil, -⟩ | ⟨front, hfront, -⟩
      · exact Nat.toDigits_ne_nil hnil
      · exact ih (n / 10) (by omega) (by omega) front hfront

/-- The whole part of a number is read as it was written. -/
theorem whole?_toDigits (n : Nat) {rest : List Char} (hrest : Stops isDecimal rest) :
    whole? (Nat.toDigits 10 n ++ rest) = some (n, rest) := by
  rcases Nat.eq_zero_or_pos n with rfl | hpos
  · rfl
  · obtain ⟨ds, hread, rfl⟩ := someDigits?_toDigits n hrest
    rw [whole?, hread]
    · rfl
    · intro tail hzero
      rcases List.append_eq_cons_iff.1 hzero with ⟨hnil, -⟩ | ⟨front, hfront, -⟩
      · exact Nat.toDigits_ne_nil hnil
      · exact toDigits_ne_zero_cons hpos front hfront

/-- The digits behind a point, with the point. -/
def fractionChars (ds : List Nat) : List Char :=
  if ds.isEmpty then [] else '.' :: ds.map Nat.digitChar

/-- An exponent with its letter and its sign. -/
def exponentChars : Option Int → List Char
  | none => []
  | some e => 'e' :: (if e < 0 then '-' else '+') :: Nat.toDigits 10 e.natAbs

/-- An exponent is read as it was written, or as none. -/
theorem exponent?_exponentChars (exponent : Option Int) {rest : List Char}
    (hrest : Stops continues rest) :
    exponent? (exponentChars exponent ++ rest) = some (exponent, rest) := by
  cases exponent with
  | none =>
    rw [exponentChars, List.nil_append, exponent?]
    · exact fun tail => hrest.ne rfl tail
    · exact fun tail => hrest.ne rfl tail
  | some e =>
    obtain ⟨ds, hread, hvalue⟩ := someDigits?_toDigits e.natAbs hrest.decimal
    rw [exponentChars, List.cons_append, List.cons_append, exponent?]
    split
    case isTrue hneg =>
      have he : -(Decimal.valueOf ds : Int) = e := by omega
      simp only [power?, hread, Option.map_some, he]
    case isFalse hpos =>
      have he : (Decimal.valueOf ds : Int) = e := by omega
      simp only [power?, hread, Option.map_some, he]

/-- Digits behind a point are read as they were written, or as none. -/
theorem fraction?_fractionChars {ds : List Nat} (hds : ∀ d ∈ ds, d < 10) {rest : List Char}
    (hrest : Stops isDecimal rest) (hpoint : ∀ tail, rest ≠ '.' :: tail) :
    fraction? (fractionChars ds ++ rest) = some (ds, rest) := by
  unfold fractionChars
  split
  case isTrue hnil =>
    rw [List.nil_append, fraction?, List.isEmpty_iff.1 hnil]
    exact hpoint
  case isFalse hsome =>
    have hne : ds.map Nat.digitChar ≠ [] := by
      intro hnil
      exact hsome (List.isEmpty_iff.2 (List.map_eq_nil_iff.1 hnil))
    have hdecimal : ∀ c ∈ ds.map Nat.digitChar, isDecimal c = true := by
      intro c hc
      obtain ⟨d, hd, rfl⟩ := List.mem_map.1 hc
      exact (digitValue_digitChar d (hds d hd)).1
    have hvalues : (ds.map Nat.digitChar).map digitValue = ds := by
      rw [List.map_map]
      exact (List.map_congr_left fun d hd => (digitValue_digitChar d (hds d hd)).2).trans
        (List.map_id ds)
    rw [List.cons_append, fraction?, someDigits?_append hne hdecimal hrest, hvalues]

/-- A numeral is written as sign, whole part, fraction and exponent, in this order. -/
theorem toList_text (n : Numeral) :
    n.text.toList = (if n.negative then ['-'] else []) ++
      (Nat.toDigits 10 n.whole ++ (fractionChars n.fraction ++ exponentChars n.exponent)) := by
  obtain ⟨negative, whole, fraction, exponent⟩ := n
  simp only [Numeral.text, String.toList_append, toList_toString, List.append_assoc]
  congr 1
  · split <;> decide
  congr 2
  · have hdigits : (Decimal.digitText fraction).toList = fraction.map Nat.digitChar :=
      String.toList_ofList
    unfold fractionChars
    split
    · rfl
    · rw [String.toList_append, hdigits]
      rfl
  · cases exponent with
    | none => rfl
    | some e =>
      simp only [String.toList_append, toList_toString, exponentChars]
      split <;> rfl

/-- What stands behind the digits of the whole part is not one of them. -/
theorem stops_exponentChars (exponent : Option Int) {rest : List Char}
    (hrest : Stops continues rest) :
    Stops isDecimal (exponentChars exponent ++ rest) ∧
      ∀ tail, exponentChars exponent ++ rest ≠ '.' :: tail := by
  cases exponent with
  | none => exact ⟨hrest.decimal, fun tail => hrest.ne rfl tail⟩
  | some e =>
    refine ⟨stops_cons rfl _, fun tail hpoint => ?_⟩
    exact absurd (List.cons.inj hpoint).1 (by decide)

/-- A numeral behind its sign is read as it was written. -/
theorem magnitude?_text {n : Numeral} (h : n.Plain) {rest : List Char}
    (hrest : Stops continues rest) :
    magnitude? n.negative (Nat.toDigits 10 n.whole ++
      (fractionChars n.fraction ++ (exponentChars n.exponent ++ rest))) = some (n, rest) := by
  obtain ⟨hexponent, hpoint⟩ := stops_exponentChars n.exponent hrest
  have hfraction :
      Stops isDecimal (fractionChars n.fraction ++ (exponentChars n.exponent ++ rest)) := by
    unfold fractionChars
    split
    · exact hexponent
    · exact stops_cons rfl _
  simp only [magnitude?, whole?_toDigits n.whole hfraction, Option.bind_eq_bind, Option.bind_some,
    fraction?_fractionChars h hexponent hpoint, exponent?_exponentChars n.exponent hrest]
  rfl

/-- **Numbers** are read back in front of everything that does not continue them. -/
theorem numeral?_text {n : Numeral} (h : n.Plain) {rest : List Char}
    (hrest : Stops continues rest) : numeral? (n.text.toList ++ rest) = some (n, rest) := by
  have hread := magnitude?_text h hrest
  simp only [toList_text, List.append_assoc]
  cases hsign : n.negative with
  | true =>
    rw [hsign] at hread
    exact hread
  | false =>
    rw [hsign] at hread
    rw [if_neg Bool.false_ne_true, List.nil_append, numeral?]
    · exact hread
    · intro tail hminus
      rcases List.append_eq_cons_iff.1 hminus with ⟨hnil, -⟩ | ⟨front, hfront, -⟩
      · exact Nat.toDigits_ne_nil hnil
      · have hdigit : '-' ∈ Nat.toDigits 10 n.whole := hfront ▸ List.mem_cons_self
        exact absurd (isDigit_of_mem_toDigits hdigit) (by decide)

end Numbers

section Doubles

open Decimal (Digits Interval Tie shortest)

/-- The decimal digits of a number are below ten. -/
theorem lt_ten_of_mem_ofNat {n d : Nat} (h : d ∈ Digits.ofNat n) : d < 10 := by
  obtain ⟨c, hc, rfl⟩ := List.mem_map.1 h
  have hle := (Char.isDigit_iff_toNat.1 (isDigit_of_mem_toDigits hc)).2
  have hnine : ('9' : Char).toNat = 57 := rfl
  omega

/-- The digits of a shortest decimal are below ten. -/
theorem lt_ten_of_mem_shortest {i : Interval} {tie : Tie} {d : Nat}
    (h : d ∈ (shortest i tie).digits) : d < 10 := by
  unfold shortest at h
  simp only at h
  generalize hhit : (List.range 18).findSome? _ = hit at h
  cases hit with
  | none =>
    rw [List.mem_singleton.1 h]
    decide
  | some digits =>
    obtain ⟨_, -, hfound⟩ := List.exists_of_findSome?_eq_some hhit
    obtain ⟨n, -, rfl⟩ := Option.map_eq_some_iff.1 hfound
    have hkept := (List.dropWhile_sublist _).subset (List.mem_reverse.1 h)
    exact lt_ten_of_mem_ofNat (List.mem_reverse.1 hkept)

/-- Digits below ten make a numeral that can be written. -/
theorem plain_ofDigits (negative : Bool) {d : Digits} (h : ∀ n ∈ d.digits, n < 10) :
    (Numeral.ofDigits negative d).Plain := by
  have hbehind : ∀ n ∈ d.positional.2, n < 10 := by
    unfold Digits.positional
    split
    · intro n hn
      rcases List.mem_append.1 hn with hzero | hdigit
      · rw [List.eq_of_mem_replicate hzero]
        decide
      · exact h n hdigit
    · exact fun n hn => h n (List.mem_of_mem_drop hn)
  unfold Numeral.ofDigits
  split
  · show ∀ n ∈ if d.positional.2.isEmpty then [0] else d.positional.2, n < 10
    split
    · decide
    · exact hbehind
  · exact fun n hn => h n (List.mem_of_mem_tail hn)

/-- **Doubles** are written with digits. -/
theorem plain_of_ofFloat? {x : Float} {n : Numeral} (h : Numeral.ofFloat? x = some n) :
    n.Plain := by
  obtain ⟨⟨negative, digits⟩, hdigits, rfl⟩ := Option.map_eq_some_iff.1 h
  refine plain_ofDigits negative ?_
  unfold Decimal.ofFloat? at hdigits
  simp only at hdigits
  split at hdigits
  · cases hdigits
  split at hdigits
  · cases hdigits
    decide
  · cases hdigits
    exact fun _ hn => lt_ten_of_mem_shortest hn

end Doubles

section Strings

/-- A text is read as one piece of a string, which spells a character. -/
def IsPiece (text : List Char) (c : Char) : Prop :=
  text ≠ [] ∧ ∃ p, (∀ more, spell? (p :: more) = (spell? more).map (c :: ·)) ∧
    ∀ budget rest, pieces? (budget + 1) (text ++ rest) =
      (pieces? budget rest).map fun (more, rest) => (p :: more, rest)

/-- A character that needs no escape is its own piece. -/
theorem IsPiece.plain {c : Char} (hquote : c ≠ '"') (hbackslash : c ≠ '\\')
    (hcontrol : ¬c.toNat < 0x20) : IsPiece [c] c := by
  refine ⟨List.cons_ne_nil _ _, .char c, fun _ => rfl, fun budget rest => ?_⟩
  simp only [List.singleton_append, pieces?, if_neg hquote, if_neg hbackslash, if_neg hcontrol]
  cases pieces? budget rest <;> rfl

/-- A one-letter escape is a piece. -/
theorem IsPiece.short {letter c : Char} (h : shortEscape? letter = some c) :
    IsPiece ['\\', letter] c := by
  refine ⟨List.cons_ne_nil _ _, .char c, fun _ => rfl, fun budget rest => ?_⟩
  have hquote : '\\' ≠ '"' := by decide
  -- no unit with four digits follows
  have hletter : letter ≠ 'u' := by
    rintro rfl
    cases h
  simp only [List.cons_append, List.nil_append, pieces?, if_neg hquote, if_true, h,
    Option.bind_eq_bind, Option.bind_some]
  cases pieces? budget rest <;> rfl

/-- The character of a hexadecimal digit is read as that digit. -/
theorem hexValue?_digitChar : ∀ d < 16, hexValue? (Nat.digitChar d) = some d := by
  decide

/-- Four hexadecimal digits are read as one unit. -/
theorem hexUnit?_digitChar {high low : Nat} (hhigh : high < 16) (hlow : low < 16)
    (rest : List Char) :
    hexUnit? ('0' :: '0' :: Nat.digitChar high :: Nat.digitChar low :: rest) =
      some (16 * high + low, rest) := by
  have hzero : hexValue? '0' = some 0 := rfl
  have hvalue : ((0 * 16 + 0) * 16 + high) * 16 + low = 16 * high + low := by omega
  simp only [hexUnit?, hzero, hexValue?_digitChar _ hhigh, hexValue?_digitChar _ hlow,
    Option.bind_eq_bind, Option.bind_some, hvalue]
  rfl

/-- An escape with four digits is a piece. -/
theorem IsPiece.code {c : Char} (h : c.toNat < 0x20) : IsPiece (escapeCode c).toList c := by
  let high := c.toNat / 16 % 16
  let low := c.toNat % 16
  have hdigits : (String.ofList [Nat.digitChar high, Nat.digitChar low]).toList =
      [Nat.digitChar high, Nat.digitChar low] := String.toList_ofList
  have htext : (escapeCode c).toList =
      ['\\', 'u', '0', '0', Nat.digitChar high, Nat.digitChar low] := by
    rw [escapeCode, String.toList_append, hdigits]
    rfl
  have hvalue : 16 * high + low = c.toNat := by omega
  have hhigh : high < 16 := by omega
  have hlow : low < 16 := by omega
  rw [htext]
  refine ⟨List.cons_ne_nil _ _, .unit c.toNat, fun more => ?_, fun budget rest => ?_⟩
  · have hscalar : c.toNat < 0xD800 ∨ 0xE000 ≤ c.toNat := by omega
    rw [spell?.eq_def]
    simp only [if_pos hscalar, Char.ofNat_toNat]
  · have hquote : '\\' ≠ '"' := by decide
    simp only [List.cons_append, List.nil_append, pieces?, if_neg hquote, if_true,
      hexUnit?_digitChar hhigh hlow, hvalue, Option.bind_eq_bind, Option.bind_some]
    cases pieces? budget rest <;> rfl

/-- **Characters** are written in one piece each. -/
theorem isPiece_escapeChar (c : Char) : IsPiece (escapeChar c).toList c := by
  have hshort : ∀ n letter, shortEscape? letter = some (Char.ofNat n) → c.toNat = n →
      IsPiece ['\\', letter] c := by
    rintro _ letter hletter rfl
    rw [Char.ofNat_toNat] at hletter
    exact .short hletter
  unfold escapeChar
  split
  case h_1 h => exact hshort 0x22 '"' rfl h
  case h_2 h => exact hshort 0x5C '\\' rfl h
  case h_3 h => exact hshort 0x08 'b' rfl h
  case h_4 h => exact hshort 0x0C 'f' rfl h
  case h_5 h => exact hshort 0x0A 'n' rfl h
  case h_6 h => exact hshort 0x0D 'r' rfl h
  case h_7 h => exact hshort 0x09 't' rfl h
  case h_8 hquote hbackslash _ _ _ _ _ =>
    split
    case isTrue hcontrol => exact .code hcontrol
    case isFalse hcontrol =>
      rw [Char.toString_eq_singleton, String.toList_singleton]
      refine .plain ?_ ?_ hcontrol
      · rintro rfl
        exact hquote rfl
      · rintro rfl
        exact hbackslash rfl

/-- **Strings** are read back, up to the quotation mark that ends them. -/
theorem stringBody?_append (cs rest : List Char) :
    stringBody? (cs.flatMap (fun c => (escapeChar c).toList) ++ '"' :: rest) =
      some (some (String.ofList cs), rest) := by
  have hread : ∀ budget, (cs.flatMap fun c => (escapeChar c).toList).length < budget →
      ∃ ps, spell? ps = some cs ∧
        pieces? budget (cs.flatMap (fun c => (escapeChar c).toList) ++ '"' :: rest) =
          some (ps, rest) := by
    induction cs with
    | nil =>
      intro budget hbudget
      obtain ⟨budget, rfl⟩ := Nat.exists_eq_succ_of_ne_zero (Nat.ne_of_gt hbudget)
      refine ⟨[], rfl, ?_⟩
      simp only [List.flatMap_nil, List.nil_append, pieces?, if_true]
    | cons c cs ih =>
      intro budget hbudget
      obtain ⟨hsome, p, hspell, hpiece⟩ := isPiece_escapeChar c
      have hlength := List.length_pos_iff.2 hsome
      rw [List.flatMap_cons, List.length_append] at hbudget
      have hpos := Nat.ne_of_gt (Nat.zero_lt_of_lt hbudget)
      obtain ⟨budget, rfl⟩ := Nat.exists_eq_succ_of_ne_zero hpos
      obtain ⟨ps, hps, hmore⟩ := ih budget (by omega)
      refine ⟨p :: ps, ?_, ?_⟩
      · rw [hspell, hps, Option.map_some]
      · rw [List.flatMap_cons, List.append_assoc, hpiece, hmore, Option.map_some]
  obtain ⟨ps, hps, hpieces⟩ := hread
    ((cs.flatMap (fun c => (escapeChar c).toList) ++ '"' :: rest).length + 1)
    (by rw [List.length_append]; omega)
  simp only [stringBody?, hpieces, Option.map_some, hps]

/-- The characters of a string literal. -/
theorem toList_quote (s : String) :
    (quote s).toList = '"' :: (s.toList.flatMap (fun c => (escapeChar c).toList) ++ ['"']) := by
  rw [quote, String.toList_append, String.toList_append, String.toList_join, List.flatMap_map]
  rfl

end Strings

end Json

end BaudReel
