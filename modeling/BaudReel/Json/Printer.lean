import BaudReel.Json.Layout
/-!
# Writing documents

Two layouts: `compact` without any blanks, and `pretty` with one item a line,
indented by two spaces a level.  Both write the same literals.
-/

namespace BaudReel.Json

/-- A literal that names no text is written as the empty string. -/
def literal (s : Option String) : String :=
  quote (s.getD "")

mutual

/-- The document without blanks. -/
def compact : Json → String
  | .null => "null"
  | .bool b => boolText b
  | .number n => n.text
  | .string s => literal s
  | .array items => "[" ++ ",".intercalate (compactItems items) ++ "]"
  | .object fields => "\x7b" ++ ",".intercalate (compactFields fields) ++ "\x7d"

/-- The items of an array without blanks. -/
def compactItems : List Json → List String
  | [] => []
  | item :: rest => compact item :: compactItems rest

/-- The fields of an object without blanks. -/
def compactFields : List (Option String × Json) → List String
  | [] => []
  | (name, value) :: rest => (literal name ++ ":" ++ compact value) :: compactFields rest

end

/-- A new line at a level of indentation. -/
def newLine (level : Nat) : String :=
  String.ofList ('\n' :: List.replicate (2 * level) ' ')

/-- Items between brackets, one a line; empty brackets stay together. -/
def enclose (opening closing : String) (level : Nat) (items : List String) : String :=
  match items with
  | [] => opening ++ closing
  | items =>
    let inner := newLine (level + 1)
    opening ++ inner ++ ("," ++ inner).intercalate items ++ newLine level ++ closing

mutual

/-- The document with one item a line, at a level of indentation. -/
def prettyAt (level : Nat) : Json → String
  | .null => "null"
  | .bool b => boolText b
  | .number n => n.text
  | .string s => literal s
  | .array items => enclose "[" "]" level (prettyItems (level + 1) items)
  | .object fields => enclose "\x7b" "\x7d" level (prettyFields (level + 1) fields)

/-- The items of an array, each at a level of indentation. -/
def prettyItems (level : Nat) : List Json → List String
  | [] => []
  | item :: rest => prettyAt level item :: prettyItems level rest

/-- The fields of an object, each at a level of indentation. -/
def prettyFields (level : Nat) : List (Option String × Json) → List String
  | [] => []
  | (name, value) :: rest =>
    (literal name ++ ": " ++ prettyAt level value) :: prettyFields level rest

end

/-- The document with one item a line. -/
def pretty (j : Json) : String :=
  prettyAt 0 j

end BaudReel.Json
