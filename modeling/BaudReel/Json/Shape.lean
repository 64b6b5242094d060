import BaudReel.Decimal.Double
import BaudReel.Json.Form
/-!
# Shapes of documents

How the values of this library appear in documents.

A *record* may be written with its fields named, in any order, or as an array
of its fields in their fixed order.  With names, fields of other names are
passed over, and a field given twice is refused.  As an array it may be cut
short, but it may not be too long.  `record?` finds the fields; whether one may
be missing is for the reader of the record to say.

An *alternative* is written as its name, or as an object with the name as its
only field and the content as that field's value.

`Form.ofJson?` puts these readers together into one for every declared form.
-/

namespace BaudReel.Json

/-- The value of a field name, which must not be given twice. -/
def field? (fields : List (Option String × Json)) (name : String) : Option (Option Json) :=
  match fields.filter (fun f => f.1 == some name) with
  | [] => some none
  | [(_, value)] => some (some value)
  | _ => none

/-- The fields of a record, in the order of `names`, and whether they were
named. -/
def record? (names : List String) (j : Json) : Option (Bool × List (Option Json)) :=
  match j with
  | .object fields =>
    if fields.all (fun f => f.1.isSome) then
      (names.mapM (field? fields)).map fun values => (true, values)
    else none
  | .array items =>
    if items.length ≤ names.length then
      some (false, items.map some ++ List.replicate (names.length - items.length) none)
    else none
  | _ => none

/-- An alternative by its name and, if any was written, its content. -/
def alternative? (j : Json) : Option (String × Option Json) :=
  match j with
  | .string (some name) => some (name, none)
  | .object [(some name, content)] => some (name, some content)
  | _ => none

/-- Whether the content of an alternative may stand for none at all. -/
def isEmptyContent : Option Json → Bool
  | none => true
  | some .null => true
  | some _ => false

/-- An alternative without content, looked up in a list of names. -/
def choice? (choices : List (String × α)) (j : Json) : Option α :=
  match alternative? j with
  | some (name, content) => if isEmptyContent content then choices.lookup name else none
  | none => none

/-- A natural number up to a limit. -/
def nat? (limit : Nat) (j : Json) : Option Nat :=
  match j with
  | .number n => n.toNat?.filter (· ≤ limit)
  | _ => none

/-- A double, which may be written as any number. -/
def float? (j : Json) : Option Float :=
  match j with
  | .number n => n.toFloat?
  | _ => none

/-- A truth value. -/
def bool? (j : Json) : Option Bool :=
  match j with
  | .bool b => some b
  | _ => none

/-- A text. -/
def text? (j : Json) : Option String :=
  match j with
  | .string s => s
  | _ => none

/-- An array, every item read alike. -/
def list? (read : Json → Option α) (j : Json) : Option (List α) :=
  match j with
  | .array items => items.mapM read
  | _ => none

/-- A value or `null`. -/
def nullable? (read : Json → Option α) (j : Json) : Option (Option α) :=
  match j with
  | .null => some none
  | j => (read j).map some

/-- A field that has to be there. -/
def required (read : Json → Option α) (field : Option Json) : Option α :=
  field.bind read

mutual

/-- Reads a document of a declared form. -/
def Form.ofJson? {α : Type} : Form α → Json → Option α
  | .bool, j => bool? j
  | .word32, j => nat? Word.max32 j
  | .word64, j => nat? Word.max64 j
  | .double, j => float? j
  | .choice cases, j =>
    match alternative? j with
    | some (name, content) => cases.ofContent? name content
    | none => none
  | .record unset fields, j =>
    match record? fields.names j with
    | some (_, values) => fields.fill? unset values unset
    | none => none

/-- Reads the content of a named alternative. -/
def Cases.ofContent? {α : Type} : Cases α → String → Option Json → Option α
  | .none, _, _ => none
  | .plain known value more, name, content =>
    if name = known then if isEmptyContent content then some value else none
    else more.ofContent? name content
  | .holding known form make more, name, content =>
    if name = known then content.bind fun j => (form.ofJson? j).map make
    else more.ofContent? name content

/-- Puts the fields that were found into a record, and those of the unset one for the others. -/
def Fields.fill? {α : Type} : Fields α → α → List (Option Json) → α → Option α
  | .none, _, _, a => some a
  | .field _ content get put more, unset, values, a =>
    match values with
    | some j :: values =>
      match content.ofJson? j with
      | some b => more.fill? unset values (put b a)
      | none => none
    | values => more.fill? unset values.tail (put (get unset) a)

end

@[simp]
theorem bool?_bool (b : Bool) : bool? (.bool b) = some b := rfl

/-- A number within the limit is read as it was written. -/
theorem nat?_nat {limit n : Nat} (h : n ≤ limit) : nat? limit (nat n) = some n := by
  simp [nat?, nat, Decimal.Numeral.ofNat, Decimal.Numeral.toNat?, h]

/-- A name that is not among the fields is not found. -/
theorem filter_eq_nil_of_not_mem {part : List (String × Json)} {name : String}
    (h : name ∉ part.map Prod.fst) :
    (part.map fun f => ((some f.1 : Option String), f.2)).filter (fun f => f.1 == some name) =
      [] := by
  refine List.filter_eq_nil_iff.2 fun f hf hsame => h ?_
  obtain ⟨g, hg, rfl⟩ := List.mem_map.1 hf
  exact List.mem_map.2 ⟨g, hg, Option.some.inj (beq_iff_eq.1 hsame)⟩

/-- In a record that gives no field twice the first field of a name is the only one. -/
theorem field?_eq_lookup {part : List (String × Json)} (hnames : (part.map Prod.fst).Nodup)
    (name : String) :
    field? (part.map fun f => (some f.1, f.2)) name = some (part.lookup name) := by
  induction part with
  | nil => rfl
  | cons first rest ih =>
    obtain ⟨hnew, hrest⟩ := List.nodup_cons.1 hnames
    by_cases hname : first.1 = name
    · subst hname
      have honly : (((first :: rest).map fun f => ((some f.1 : Option String), f.2)).filter
          fun f => f.1 == some first.1) = [(some first.1, first.2)] := by
        rw [List.map_cons, List.filter_cons_of_pos (by simp), filter_eq_nil_of_not_mem hnew]
      rw [List.lookup_cons_self, field?, honly]
    · have hlater : (name == first.1) = false := beq_false_of_ne (Ne.symm hname)
      have hskipped : (((first :: rest).map fun f => (some f.1, f.2)).filter
          fun f => f.1 == some name) =
          (rest.map fun f => (some f.1, f.2)).filter fun f => f.1 == some name :=
        List.filter_cons_of_neg (by simpa using hname)
      rw [List.lookup_cons, hlater, ← ih hrest, field?, field?, hskipped]

/-- A record is read field by field, in whatever order they are written. -/
theorem record?_eq_lookup {part : List (String × Json)} (hnames : (part.map Prod.fst).Nodup)
    (names : List String) :
    record? names (.record part) = some (true, names.map fun name => part.lookup name) := by
  have hnamed : (part.map fun f => ((some f.1 : Option String), f.2)).all
      (fun f => f.1.isSome) = true := by simp
  have hfound : names.mapM (field? (part.map fun f => (some f.1, f.2))) =
      some (names.map fun name => part.lookup name) := by
    induction names with
    | nil => rfl
    | cons name names ih =>
      rw [List.mapM_cons, field?_eq_lookup hnames, ih]
      rfl
  rw [Json.record, record?, if_pos hnamed, hfound, Option.map_some]

end BaudReel.Json
