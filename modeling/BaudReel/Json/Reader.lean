import BaudReel.Json.Layout
/-!
# Reading documents

The reader accepts exactly the JSON grammar: one document, blanks only around
tokens, no leading zeros, no bare control characters in strings.  Nesting may
be as deep as it likes.

Each reader takes the characters from where its value begins and gives the
value with the characters behind it.  The nested readers count down a budget
that starts at the length of the text; every level and every item uses up at
least one character of it.
-/

namespace BaudReel.Json

open Decimal (Numeral)

/-- Drops blanks. -/
def skipBlanks (cs : List Char) : List Char :=
  cs.dropWhile isBlank

/-- Drops an expected beginning. -/
def expect? (word : List Char) (cs : List Char) : Option (List Char) :=
  if word.isPrefixOf cs then some (cs.drop word.length) else none

/-- Whether a character is a decimal digit. -/
def isDecimal (c : Char) : Bool :=
  '0' ≤ c && c ≤ '9'

/-- The value of a digit character. -/
def digitValue (c : Char) : Nat :=
  c.toNat - 48

/-- The digits at the beginning, which may be none. -/
def digits (cs : List Char) : List Nat × List Char :=
  ((cs.takeWhile isDecimal).map digitValue, cs.dropWhile isDecimal)

/-- The digits at the beginning, at least one. -/
def someDigits? (cs : List Char) : Option (List Nat × List Char) :=
  match digits cs with
  | ([], _) => none
  | found => some found

/-- The whole part of a number: a single zero, or digits that begin with no
zero. -/
def whole? (cs : List Char) : Option (Nat × List Char) :=
  match cs with
  | '0' :: rest => some (0, rest)
  | cs => (someDigits? cs).map fun (ds, rest) => (Decimal.valueOf ds, rest)

/-- The digits behind a point, if there is a point. -/
def fraction? (cs : List Char) : Option (List Nat × List Char) :=
  match cs with
  | '.' :: rest => someDigits? rest
  | cs => some ([], cs)

/-- The exponent of a number behind its letter. -/
def power? (cs : List Char) : Option (Int × List Char) :=
  match cs with
  | '-' :: rest => (someDigits? rest).map fun (ds, rest) => (-(Decimal.valueOf ds : Int), rest)
  | '+' :: rest => (someDigits? rest).map fun (ds, rest) => ((Decimal.valueOf ds : Int), rest)
  | cs => (someDigits? cs).map fun (ds, rest) => ((Decimal.valueOf ds : Int), rest)

/-- The exponent of a number, if it has one. -/
def exponent? (cs : List Char) : Option (Option Int × List Char) :=
  match cs with
  | 'e' :: rest => (power? rest).map fun (e, rest) => (some e, rest)
  | 'E' :: rest => (power? rest).map fun (e, rest) => (some e, rest)
  | cs => some (none, cs)

/-- A number without its sign. -/
def magnitude? (negative : Bool) (cs : List Char) : Option (Numeral × List Char) := do
  let (whole, cs) ← whole? cs
  let (fraction, cs) ← fraction? cs
  let (exponent, cs) ← exponent? cs
  return ({ negative, whole, fraction, exponent }, cs)

/-- A number. -/
def numeral? (cs : List Char) : Option (Numeral × List Char) :=
  match cs with
  | '-' :: rest => magnitude? true rest
  | cs => magnitude? false cs

/-- The value of a hexadecimal digit. -/
def hexValue? (c : Char) : Option Nat :=
  if '0' ≤ c && c ≤ '9' then some (c.toNat - 48)
  else if 'a' ≤ c && c ≤ 'f' then some (c.toNat - 87)
  else if 'A' ≤ c && c ≤ 'F' then some (c.toNat - 55)
  else none

/-- Four hexadecimal digits. -/
def hexUnit? (cs : List Char) : Option (Nat × List Char) :=
  match cs with
  | a :: b :: c :: d :: rest => do
    let a ← hexValue? a
    let b ← hexValue? b
    let c ← hexValue? c
    let d ← hexValue? d
    return (((a * 16 + b) * 16 + c) * 16 + d, rest)
  | _ => none

/-- A piece of a string literal: a character written out, or a 16-bit unit
written as an escape. -/
inductive Piece where
  | char (c : Char)
  | unit (n : Nat)
deriving DecidableEq, Inhabited

/-- The one-letter escapes. -/
def shortEscape? (c : Char) : Option Char :=
  match c with
  | '"' => some '"'
  | '\\' => some '\\'
  | '/' => some '/'
  | 'b' => some (Char.ofNat 8)
  | 'f' => some (Char.ofNat 12)
  | 'n' => some '\n'
  | 'r' => some '\r'
  | 't' => some '\t'
  | _ => none

/-- The pieces of a string literal behind its opening quotation mark, with the
characters behind the closing one. -/
def pieces? (budget : Nat) (cs : List Char) : Option (List Piece × List Char) :=
  match budget, cs with
  | 0, _ => none
  | _, [] => none
  | budget + 1, c :: rest =>
    if c = '"' then some ([], rest)
    else if c = '\\' then
      match rest with
      | 'u' :: rest => do
        let (n, rest) ← hexUnit? rest
        let (more, rest) ← pieces? budget rest
        return (.unit n :: more, rest)
      | letter :: rest => do
        let c ← shortEscape? letter
        let (more, rest) ← pieces? budget rest
        return (.char c :: more, rest)
      | [] => none
    else if c.toNat < 0x20 then none
    else do
      let (more, rest) ← pieces? budget rest
      return (.char c :: more, rest)

/-- The character of a surrogate pair. -/
def pairValue (high low : Nat) : Char :=
  Char.ofNat (0x10000 + (high - 0xD800) * 0x400 + (low - 0xDC00))

/-- The text that pieces spell; none if a surrogate stands alone. -/
def spell? : List Piece → Option (List Char)
  | [] => some []
  | .char c :: rest => (spell? rest).map (c :: ·)
  | .unit n :: rest =>
    if n < 0xD800 ∨ 0xE000 ≤ n then (spell? rest).map (Char.ofNat n :: ·)
    else
      match rest with
      | .unit low :: rest =>
        if n < 0xDC00 ∧ 0xDC00 ≤ low ∧ low < 0xE000 then
          (spell? rest).map (pairValue n low :: ·)
        else none
      | _ => none

/-- A string literal behind its opening quotation mark. -/
def stringBody? (cs : List Char) : Option (Option String × List Char) :=
  (pieces? (cs.length + 1) cs).map fun (pieces, rest) => ((spell? pieces).map String.ofList, rest)

mutual

/-- One value, with blanks allowed in front of it. -/
def value? (budget : Nat) (cs : List Char) : Option (Json × List Char) :=
  match budget with
  | 0 => none
  | budget + 1 =>
    match skipBlanks cs with
    | 'n' :: rest => (expect? ['u', 'l', 'l'] rest).map fun rest => (.null, rest)
    | 't' :: rest => (expect? ['r', 'u', 'e'] rest).map fun rest => (.bool true, rest)
    | 'f' :: rest => (expect? ['a', 'l', 's', 'e'] rest).map fun rest => (.bool false, rest)
    | '"' :: rest => (stringBody? rest).map fun (s, rest) => (.string s, rest)
    | '[' :: rest =>
      match skipBlanks rest with
      | ']' :: rest => some (.array [], rest)
      | rest => (items? budget rest).map fun (items, rest) => (.array items, rest)
    | '\x7b' :: rest =>
      match skipBlanks rest with
      | '\x7d' :: rest => some (.object [], rest)
      | rest => (fields? budget rest).map fun (fields, rest) => (.object fields, rest)
    | cs => (numeral? cs).map fun (n, rest) => (.number n, rest)

/-- The items of an array up to its closing bracket, at least one. -/
def items? (budget : Nat) (cs : List Char) : Option (List Json × List Char) :=
  match budget with
  | 0 => none
  | budget + 1 => do
    let (item, rest) ← value? budget cs
    match skipBlanks rest with
    | ',' :: rest =>
      let (more, rest) ← items? budget rest
      return (item :: more, rest)
    | ']' :: rest => return ([item], rest)
    | _ => none

/-- The fields of an object up to its closing brace, at least one. -/
def fields? (budget : Nat) (cs : List Char) : Option (List (Option String × Json) × List Char) :=
  match budget with
  | 0 => none
  | budget + 1 =>
    match skipBlanks cs with
    | '"' :: rest => do
      let (name, rest) ← stringBody? rest
      match skipBlanks rest with
      | ':' :: rest =>
        let (value, rest) ← value? budget rest
        match skipBlanks rest with
        | ',' :: rest =>
          let (more, rest) ← fields? budget rest
          return ((name, value) :: more, rest)
        | '\x7d' :: rest => return ([(name, value)], rest)
        | _ => none
      | _ => none
    | _ => none

end

/-- Reads a text as one document. -/
def read? (s : String) : Option Json :=
  let cs := s.toList
  match value? (2 * cs.length + 2) cs with
  | some (j, rest) => if (skipBlanks rest).isEmpty then some j else none
  | none => none

end BaudReel.Json
