import BaudReel.Decimal.Numeral
/-!
# Documents

Configurations, frames and the other values of this library are exchanged as
JSON documents.  Numbers are kept as they are written, so that no reader is
committed to a number type before it knows which one is wanted.

A string literal may spell half of a surrogate pair.  Such a literal is well
formed but names no text; it is kept as `none`, and only a reader that wants
the text refuses it.
-/

namespace BaudReel

open Decimal (Numeral)

/-- A JSON document. -/
inductive Json where
  | null
  | bool (value : Bool)
  | number (numeral : Numeral)
  /-- A string literal, `none` if it names no text. -/
  | string (literal : Option String)
  | array (items : List Json)
  /-- Fields in the order they are written, repeated names included. -/
  | object (fields : List (Option String × Json))
deriving Inhabited

namespace Json

/-- A text. -/
def text (s : String) : Json :=
  .string (some s)

/-- A natural number. -/
def nat (n : Nat) : Json :=
  .number (.ofNat n)

/-- An object with the given fields, in order. -/
def record (fields : List (String × Json)) : Json :=
  .object (fields.map fun (name, value) => (some name, value))

/-- A value that may be missing, `null` if it is. -/
def optional (write : α → Json) : Option α → Json
  | none => .null
  | some a => write a

/-- An array of values. -/
def list (write : α → Json) (items : List α) : Json :=
  .array (items.map write)

end Json

end BaudReel
