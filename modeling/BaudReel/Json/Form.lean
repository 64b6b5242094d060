import BaudReel.Json.Value
import BaudReel.Word
/-!
# Declared forms

A type that appears in documents declares its form once, and a JSON library
makes the reader from it.  A *choice* is written as the name of an alternative,
or as an object with that name as its only field and the content as the field's
value.  A *record* is an object; a field that is not there has the value it has
in the unset record.

`Form.Means` says which documents stand for which value.  It asks for no order
of the fields, but for names that are given once, both by the declaration and by
the document, and by the document only if they are declared.  The declared
fields have to be all there are.  How a number is read as a double is a
parameter.
-/

namespace BaudReel.Json

mutual

/-- How the values of a type appear in documents. -/
inductive Form : Type → Type 1 where
  | bool : Form Bool
  /-- A natural number within 32 bits. -/
  | word32 : Form Nat
  /-- A natural number within 64 bits. -/
  | word64 : Form Nat
  | double : Form Float
  | choice {α : Type} (cases : Cases α) : Form α
  | record {α : Type} (unset : α) (fields : Fields α) : Form α

/-- The alternatives of a choice. -/
inductive Cases : Type → Type 1 where
  | none {α : Type} : Cases α
  /-- An alternative without content. -/
  | plain {α : Type} (name : String) (value : α) (more : Cases α) : Cases α
  /-- An alternative that holds a value of another type. -/
  | holding {α β : Type} (name : String) (content : Form β) (make : β → α) (more : Cases α) :
      Cases α

/-- The fields of a record, each with its value in a record and the way to put another one
there. -/
inductive Fields : Type → Type 1 where
  | none {α : Type} : Fields α
  | field {α β : Type} (name : String) (content : Form β) (get : α → β) (put : β → α → α)
      (more : Fields α) : Fields α

end

variable {α : Type}

/-- The names of the alternatives. -/
def Cases.names : Cases α → List String
  | .none => []
  | .plain name _ more => name :: more.names
  | .holding name _ _ more => name :: more.names

/-- Alternatives without content, by name. -/
def Cases.ofNames : List (String × α) → Cases α
  | [] => .none
  | (name, value) :: rest => .plain name value (.ofNames rest)

/-- The names of the fields, in their fixed order. -/
def Fields.names : Fields α → List String
  | .none => []
  | .field name _ _ _ more => name :: more.names

/-- Puts the fields of one record over those of another. -/
def Fields.copy (source : α) : Fields α → α → α
  | .none, a => a
  | .field _ _ get put more, a => more.copy source (put (get source) a)

mutual

/-- How deep objects are nested in a document of a form. -/
def Form.depth {α : Type} : Form α → Nat
  | .bool | .word32 | .word64 | .double => 0
  | .choice cases => cases.depth
  | .record _ fields => fields.depth + 1

/-- How deep objects are nested in a document of one of the alternatives. -/
def Cases.depth {α : Type} : Cases α → Nat
  | .none => 0
  | .plain _ _ more => more.depth
  | .holding _ content _ more => max (content.depth + 1) more.depth

/-- How deep objects are nested in the fields of a record. -/
def Fields.depth {α : Type} : Fields α → Nat
  | .none => 0
  | .field _ content _ _ more => max content.depth more.depth

end

section Meaning

variable (ReadsDouble : Json → Float → Prop)

mutual

/-- A document of a form stands for a value. -/
def Form.Means {α : Type} : Form α → Json → α → Prop
  | .bool, j, b => j = .bool b
  | .word32, j, n => j = .nat n ∧ n ≤ Word.max32
  | .word64, j, n => j = .nat n ∧ n ≤ Word.max64
  | .double, j, x => ReadsDouble j x
  | .choice cases, j, a => cases.names.Nodup ∧ cases.Means j a
  | .record unset fields, j, a =>
    fields.names.Nodup ∧ fields.copy a unset = a ∧ ∃ part : List (String × Json),
      j = .record part ∧ (part.map Prod.fst).Nodup ∧ part.map Prod.fst ⊆ fields.names ∧
        fields.Mean part unset a

/-- A document of one of the alternatives stands for a value. -/
def Cases.Means {α : Type} : Cases α → Json → α → Prop
  | .none, _, _ => False
  | .plain name value more, j, a => j = .text name ∧ a = value ∨ more.Means j a
  | .holding name content make more, j, a =>
    (∃ inner b, j = .record [(name, inner)] ∧ content.Means inner b ∧ a = make b) ∨ more.Means j a

/-- The fields of a document stand for those of a record, or for those of the unset one if they
are not there. -/
def Fields.Mean {α : Type} : Fields α → List (String × Json) → α → α → Prop
  | .none, _, _, _ => True
  | .field name content get _ more, part, unset, a =>
    ((∀ j, part.lookup name = some j → content.Means j (get a)) ∧
      (part.lookup name = Option.none → get a = get unset)) ∧ more.Mean part unset a

end

end Meaning

end BaudReel.Json
