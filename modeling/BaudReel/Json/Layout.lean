import BaudReel.Json.Value
/-!
# Texts that lay documents out

Which texts write a document is said without a reader and without a printer
(`Json.LaysOut`): literals have one spelling each, and between the tokens there
may be any blanks.  In strings only the quotation mark, the backslash and the
control characters below `20` are escaped.
-/

namespace BaudReel

open Decimal (Numeral)

/-- The digits behind the point are digits. -/
def Decimal.Numeral.Plain (n : Numeral) : Prop :=
  ∀ d ∈ n.fraction, d < 10

namespace Json

section Literals

/-- A control character as four hexadecimal digits. -/
def escapeCode (c : Char) : String :=
  "\\u00" ++ String.ofList [Nat.digitChar (c.toNat / 16 % 16), Nat.digitChar (c.toNat % 16)]

/-- One character of a string literal. -/
def escapeChar (c : Char) : String :=
  match c.toNat with
  | 0x22 => "\\\""
  | 0x5C => "\\\\"
  | 0x08 => "\\b"
  | 0x0C => "\\f"
  | 0x0A => "\\n"
  | 0x0D => "\\r"
  | 0x09 => "\\t"
  | n => if n < 0x20 then escapeCode c else c.toString

/-- A string literal. -/
def quote (s : String) : String :=
  "\"" ++ String.join (s.toList.map escapeChar) ++ "\""

/-- `true` or `false`. -/
def boolText (b : Bool) : String :=
  if b then "true" else "false"

end Literals

section Texts

/-- The four characters that may stand between tokens. -/
def isBlank (c : Char) : Bool :=
  c == ' ' || c == '\n' || c == '\t' || c == '\r'

/-- Blanks, or nothing. -/
def Blanks (cs : List Char) : Prop :=
  ∀ c ∈ cs, isBlank c = true

mutual

/-- A text writes a document. -/
inductive Writes : List Char → Json → Prop where
  | null : Writes "null".toList .null
  | bool (b : Bool) : Writes (boolText b).toList (.bool b)
  | number {n : Numeral} (h : n.Plain) : Writes n.text.toList (.number n)
  | text (s : String) : Writes (quote s).toList (.text s)
  | noItems {a : List Char} (ha : Blanks a) : Writes ('[' :: (a ++ [']'])) (.array [])
  | items {cs : List Char} {items : List Json} (h : WritesItems cs items) :
      Writes ('[' :: (cs ++ [']'])) (.array items)
  | noFields {a : List Char} (ha : Blanks a) : Writes ('\x7b' :: (a ++ ['\x7d'])) (.object [])
  | fields {cs : List Char} {fields : List (Option String × Json)} (h : WritesFields cs fields) :
      Writes ('\x7b' :: (cs ++ ['\x7d'])) (.object fields)

/-- A text writes the items of an array, at least one. -/
inductive WritesItems : List Char → List Json → Prop where
  | last {a b cs : List Char} {j : Json} (ha : Blanks a) (hb : Blanks b) (hj : Writes cs j) :
      WritesItems (a ++ (cs ++ b)) [j]
  | more {a b cs ds : List Char} {j : Json} {items : List Json} (ha : Blanks a) (hb : Blanks b)
      (hj : Writes cs j) (hitems : WritesItems ds items) :
      WritesItems (a ++ (cs ++ (b ++ ',' :: ds))) (j :: items)

/-- A text writes the fields of an object, at least one. -/
inductive WritesFields : List Char → List (Option String × Json) → Prop where
  | last (name : String) {a b c d cs : List Char} {j : Json} (ha : Blanks a) (hb : Blanks b)
      (hc : Blanks c) (hd : Blanks d) (hj : Writes cs j) :
      WritesFields (a ++ ((quote name).toList ++ (b ++ ':' :: (c ++ (cs ++ d))))) [(some name, j)]
  | more (name : String) {a b c d cs ds : List Char} {j : Json}
      {fields : List (Option String × Json)} (ha : Blanks a) (hb : Blanks b)
      (hc : Blanks c) (hd : Blanks d) (hj : Writes cs j) (hfields : WritesFields ds fields) :
      WritesFields (a ++ ((quote name).toList ++ (b ++ ':' :: (c ++ (cs ++ (d ++ ',' :: ds))))))
        ((some name, j) :: fields)

end

/-- A text lays a document out: it writes it, with blanks around it. -/
def LaysOut (s : String) (j : Json) : Prop :=
  ∃ a cs b, Blanks a ∧ Writes cs j ∧ Blanks b ∧ s.toList = a ++ (cs ++ b)

end Texts

/-- A document that can be written: its strings name texts, and its numbers have digits. -/
inductive Plain : Json → Prop where
  | null : Plain .null
  | bool (b : Bool) : Plain (.bool b)
  | number {n : Numeral} (h : n.Plain) : Plain (.number n)
  | text (s : String) : Plain (.text s)
  | array {items : List Json} (h : ∀ j ∈ items, Plain j) : Plain (.array items)
  | record {fields : List (String × Json)} (h : ∀ f ∈ fields, Plain f.2) : Plain (.record fields)

end Json

end BaudReel
