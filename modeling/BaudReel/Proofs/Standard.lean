import BaudReel.Json.Standard
import BaudReel.Proofs.Documents

/-!
# The library that programs run with is faithful

What is relied on of a JSON library holds of the one that is put together here
(`Json.standard_faithful`).  Texts are laid out by both printers and are read as the tree that was
written (`Json.Plain.laysOut`, `Json.read?_of_laysOut`).  What is left is a statement about trees:
a document that stands for a value of a declared form is read as this value
(`Json.Form.ofJson?_of_means`).  It is proved along the form.  A choice finds its alternative by
name, past those that come before it, and a record finds its fields in the order in which they are
declared.
-/

namespace BaudReel.Json

open Library (ReadsDouble)

/-- Doubles are written with digits, or as `null`. -/
theorem plain_float (x : Float) : (Json.float x).Plain := by
  unfold Json.float
  split
  case h_1 n hn => exact .number (plain_of_ofFloat? hn)
  case h_2 => exact .null

/-- A text is read as the tree that it lays out. -/
theorem readForm_of_laysOut {α : Type} (form : Form α) {text : String} {j : Json}
    (htext : LaysOut text j) {a : α} :
    readForm form text = .ok a ↔ form.ofJson? j = some a := by
  rw [readForm, read?_of_laysOut htext, Option.bind_some]
  cases form.ofJson? j <;> simp

/-- A double that is read from a text is read from the tree of the text. -/
theorem float?_of_readsDouble {j : Json} {x : Float} (h : ReadsDouble j x) : float? j = some x := by
  obtain ⟨text, htext, hread⟩ := h
  exact (readForm_of_laysOut .double htext).1 hread

/-- A tree names an alternative, and the content is read as a value. -/
def Cases.Finds {α : Type} (cases : Cases α) (j : Json) (a : α) : Prop :=
  ∃ name content, alternative? j = some (name, content) ∧ name ∈ cases.names ∧
    cases.ofContent? name content = some a

/-- An alternative is found behind one of another name, which is passed over. -/
theorem Cases.Finds.later {α : Type} {cases more : Cases α} {known : String} {j : Json} {a : α}
    (h : more.Finds j a) (hnew : known ∉ more.names) (hnames : cases.names = known :: more.names)
    (hpast : ∀ name content, name ≠ known →
      cases.ofContent? name content = more.ofContent? name content) : cases.Finds j a := by
  obtain ⟨name, content, hj, hname, hread⟩ := h
  have hother : name ≠ known := fun hsame => hnew (hsame ▸ hname)
  exact ⟨name, content, hj, hnames ▸ List.mem_cons_of_mem known hname,
    (hpast name content hother).trans hread⟩

mutual

/-- **Trees** of a declared form are read as what they stand for. -/
theorem Form.ofJson?_of_means {α : Type} :
    ∀ {form : Form α} {j : Json} {a : α}, form.Means ReadsDouble j a → form.ofJson? j = some a
  | .bool, _, b, h => h ▸ bool?_bool b
  | .word32, _, _, ⟨h, hn⟩ => h ▸ nat?_nat hn
  | .word64, _, _, ⟨h, hn⟩ => h ▸ nat?_nat hn
  | .double, _, _, h => float?_of_readsDouble h
  | .choice cases, j, a, h => by
    obtain ⟨hnames, h⟩ := h
    obtain ⟨name, content, hj, -, hread⟩ := Cases.finds_of_means hnames h
    rw [Form.ofJson?, hj]
    exact hread
  | .record unset fields, j, a, h => by
    obtain ⟨-, hcopy, part, hj, hnames, -, h⟩ := h
    rw [hj, Form.ofJson?, record?_eq_lookup hnames]
    exact (Fields.fill?_of_mean h unset).trans (congrArg some hcopy)

/-- An alternative is found by its name. -/
theorem Cases.finds_of_means {α : Type} :
    ∀ {cases : Cases α} {j : Json} {a : α}, cases.names.Nodup → cases.Means ReadsDouble j a →
      cases.Finds j a
  | .plain known value more, j, a, hnames, h => by
    obtain ⟨hnew, hrest⟩ := List.nodup_cons.1 hnames
    rcases h with ⟨rfl, rfl⟩ | h
    · exact ⟨known, none, rfl, List.mem_cons_self, if_pos rfl⟩
    · exact (Cases.finds_of_means hrest h).later hnew rfl fun _ _ hother => if_neg hother
  | .holding known form make more, j, a, hnames, h => by
    obtain ⟨hnew, hrest⟩ := List.nodup_cons.1 hnames
    rcases h with ⟨inner, b, rfl, hinner, rfl⟩ | h
    · refine ⟨known, some inner, rfl, List.mem_cons_self, ?_⟩
      rw [Cases.ofContent?, if_pos rfl, Option.bind_some, Form.ofJson?_of_means hinner,
        Option.map_some]
    · exact (Cases.finds_of_means hrest h).later hnew rfl fun _ _ hother => if_neg hother

/-- Fields are put into the record one after the other. -/
theorem Fields.fill?_of_mean {α : Type} :
    ∀ {fields : Fields α} {part : List (String × Json)} {unset a : α},
      fields.Mean ReadsDouble part unset a → ∀ b,
        fields.fill? unset (fields.names.map fun name => part.lookup name) b =
          some (fields.copy a b)
  | .none, _, _, _, _, _ => rfl
  | .field name content get put more, part, unset, a, h, b => by
    obtain ⟨⟨hfound, hmissing⟩, hmore⟩ := h
    rw [Fields.names, List.map_cons, Fields.copy, ← Fields.fill?_of_mean hmore]
    cases hfield : part.lookup name with
    | some j => rw [Fields.fill?, Form.ofJson?_of_means (hfound j hfield)]
    | none =>
      rw [Fields.fill?, hmissing hfield]
      · rfl
      · exact nofun

end

/-- **The library of this development is faithful.** -/
theorem standard_faithful : Library.Faithful where
  plain_double := plain_float
  laysOut_compact h := h.laysOut.1
  laysOut_pretty h := h.laysOut.2
  read_eq _ hmeans htext := (readForm_of_laysOut _ htext).2 (Form.ofJson?_of_means hmeans)

end BaudReel.Json
