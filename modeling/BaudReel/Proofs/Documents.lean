import BaudReel.Proofs.Literals
import Mathlib.Data.List.DropRight

/-!
# Documents are read as they were written

Which texts write a document is said without a reader (`Json.Writes`): literals are written as
the printer has them, and between tokens there may be any blanks.  Both layouts of the printer
are such texts (`Json.Plain.laysOut`).

What comes behind a value is a blank, a comma or a bracket, and none of them goes on with a
number, so that every literal is read to its end (`Json.stops_append`).  The budget is the other
thing to watch: a level of nesting and an item take one each.  Either has at least one character
of its own, and so a budget of twice the length of a text is enough (`Json.reads_of_writes`).
-/

namespace BaudReel

open Decimal (Numeral)

namespace Json

theorem blanks_nil : Blanks [] :=
  fun _ hc => absurd hc List.not_mem_nil

section Reading

/-- Blanks in front of a text are skipped with those it begins with. -/
theorem skipBlanks_append {a : List Char} (ha : Blanks a) (cs : List Char) :
    skipBlanks (a ++ cs) = skipBlanks cs :=
  List.dropWhile_append_of_pos ha

theorem skipBlanks_skipBlanks (cs : List Char) : skipBlanks (skipBlanks cs) = skipBlanks cs :=
  List.dropWhile_idempotent isBlank cs

/-- Nothing is skipped in front of a token. -/
theorem skipBlanks_cons {c : Char} (h : isBlank c = false) (cs : List Char) :
    skipBlanks (c :: cs) = c :: cs :=
  (Stops.takeWhile (stops_cons h cs)).2

/-- Values are read behind blanks as they are without. -/
theorem value?_skipBlanks (budget : Nat) (cs : List Char) :
    value? budget (skipBlanks cs) = value? budget cs := by
  cases budget with
  | zero => simp only [value?]
  | succ budget => simp only [value?, skipBlanks_skipBlanks]

theorem items?_skipBlanks (budget : Nat) (cs : List Char) :
    items? budget (skipBlanks cs) = items? budget cs := by
  cases budget with
  | zero => simp only [items?]
  | succ budget => simp only [items?, value?_skipBlanks]

theorem fields?_skipBlanks (budget : Nat) (cs : List Char) :
    fields? budget (skipBlanks cs) = fields? budget cs := by
  cases budget with
  | zero => simp only [fields?]
  | succ budget => simp only [fields?, skipBlanks_skipBlanks]

/-- A value is found behind any blanks. -/
theorem value?_append {a : List Char} (ha : Blanks a) (budget : Nat) (cs : List Char) :
    value? budget (a ++ cs) = value? budget cs := by
  rw [← value?_skipBlanks, skipBlanks_append ha, value?_skipBlanks]

theorem items?_append {a : List Char} (ha : Blanks a) (budget : Nat) (cs : List Char) :
    items? budget (a ++ cs) = items? budget cs := by
  rw [← items?_skipBlanks, skipBlanks_append ha, items?_skipBlanks]

theorem fields?_append {a : List Char} (ha : Blanks a) (budget : Nat) (cs : List Char) :
    fields? budget (a ++ cs) = fields? budget cs := by
  rw [← fields?_skipBlanks, skipBlanks_append ha, fields?_skipBlanks]

theorem eq_of_isBlank {c : Char} (h : isBlank c = true) :
    c = ' ' ∨ c = '\n' ∨ c = '\t' ∨ c = '\r' := by
  simpa [isBlank, or_assoc] using h

/-- Blanks do not continue a number. -/
theorem stops_append {a rest : List Char} (ha : Blanks a) (hrest : Stops continues rest) :
    Stops continues (a ++ rest) := by
  cases a with
  | nil => exact hrest
  | cons c a =>
    refine stops_cons ?_ _
    rcases eq_of_isBlank (ha c List.mem_cons_self) with rfl | rfl | rfl | rfl <;> rfl

/-- Skipping blanks leads to the next token. -/
theorem skipBlanks_to {a : List Char} (ha : Blanks a) {c : Char} (hc : isBlank c = false)
    (rest : List Char) : skipBlanks (a ++ c :: rest) = c :: rest := by
  rw [skipBlanks_append ha, skipBlanks_cons hc]

/-- A number begins with its sign or with a digit. -/
theorem exists_cons_text (n : Numeral) :
    ∃ c cs, n.text.toList = c :: cs ∧ (c = '-' ∨ isDecimal c = true) := by
  rw [toList_text]
  cases n.negative with
  | true => exact ⟨'-', _, rfl, .inl rfl⟩
  | false =>
    rcases hdigits : Nat.toDigits 10 n.whole with _ | ⟨c, cs⟩
    · exact absurd hdigits Nat.toDigits_ne_nil
    · have hc : c ∈ Nat.toDigits 10 n.whole := hdigits ▸ List.mem_cons_self
      exact ⟨c, _, rfl, .inr (isDigit_of_mem_toDigits hc)⟩

/-- No number begins with a blank. -/
theorem isBlank_eq_false_of_number {c : Char} (h : c = '-' ∨ isDecimal c = true) :
    isBlank c = false := by
  cases hblank : isBlank c with
  | false => rfl
  | true =>
    rcases eq_of_isBlank hblank with rfl | rfl | rfl | rfl <;> exact absurd h (by decide)

/-- A number is read back in front of everything that does not continue it. -/
theorem value?_text {budget : Nat} {n : Numeral} (h : n.Plain) {rest : List Char}
    (hrest : Stops continues rest) :
    value? (budget + 1) (n.text.toList ++ rest) = some (.number n, rest) := by
  have hread := numeral?_text h hrest
  obtain ⟨c, cs, htext, hc⟩ := exists_cons_text n
  have hother : ∀ d, ¬(d = '-' ∨ isDecimal d = true) → ∀ tail, c :: (cs ++ rest) ≠ d :: tail := by
    intro d hd tail hsame
    exact hd ((List.cons.inj hsame).1 ▸ hc)
  rw [htext, List.cons_append] at hread ⊢
  rw [value?, skipBlanks_cons (isBlank_eq_false_of_number hc)]
  -- no other kind of value begins like a number
  split
  case h_1 hsame => exact absurd hsame (hother _ (by decide) _)
  case h_2 hsame => exact absurd hsame (hother _ (by decide) _)
  case h_3 hsame => exact absurd hsame (hother _ (by decide) _)
  case h_4 hsame => exact absurd hsame (hother _ (by decide) _)
  case h_5 hsame => exact absurd hsame (hother _ (by decide) _)
  case h_6 hsame => exact absurd hsame (hother _ (by decide) _)
  case h_7 => rw [hread, Option.map_some]

/-- A string literal is read back as its text. -/
theorem value?_quote (budget : Nat) (s : String) (rest : List Char) :
    value? (budget + 1) ((quote s).toList ++ rest) = some (.text s, rest) := by
  have hread := stringBody?_append s.toList rest
  rw [String.ofList_toList] at hread
  rw [toList_quote, List.cons_append, List.append_assoc, List.singleton_append, value?,
    skipBlanks_cons rfl]
  simp only [hread]
  rfl

theorem value?_null (budget : Nat) (rest : List Char) :
    value? (budget + 1) ("null".toList ++ rest) = some (.null, rest) :=
  rfl

theorem value?_bool (budget : Nat) (b : Bool) (rest : List Char) :
    value? (budget + 1) ((boolText b).toList ++ rest) = some (.bool b, rest) := by
  cases b <;> rfl

/-- An array without items is read back, whatever blanks it holds. -/
theorem value?_noItems (budget : Nat) {a : List Char} (ha : Blanks a) (rest : List Char) :
    value? (budget + 1) ('[' :: (a ++ [']']) ++ rest) = some (.array [], rest) := by
  have hclosed : skipBlanks (a ++ ']' :: rest) = ']' :: rest := by
    rw [skipBlanks_append ha, skipBlanks_cons rfl]
  rw [List.cons_append, List.append_assoc, List.singleton_append, value?, skipBlanks_cons rfl]
  simp only [hclosed]

/-- An object without fields is read back, whatever blanks it holds. -/
theorem value?_noFields (budget : Nat) {a : List Char} (ha : Blanks a) (rest : List Char) :
    value? (budget + 1) ('\x7b' :: (a ++ ['\x7d']) ++ rest) = some (.object [], rest) := by
  have hclosed : skipBlanks (a ++ '\x7d' :: rest) = '\x7d' :: rest := by
    rw [skipBlanks_append ha, skipBlanks_cons rfl]
  rw [List.cons_append, List.append_assoc, List.singleton_append, value?, skipBlanks_cons rfl]
  simp only [hclosed]

/-- What an opening bracket begins are items, unless it is closed at once. -/
theorem value?_items {budget : Nat} {cs : List Char} (h : ∀ tail, skipBlanks cs ≠ ']' :: tail) :
    value? (budget + 1) ('[' :: cs) =
      (items? budget cs).map fun (items, rest) => (.array items, rest) := by
  rw [value?, skipBlanks_cons rfl]
  simp only [items?_skipBlanks]

/-- What an opening brace begins are fields, unless it is closed at once. -/
theorem value?_fields {budget : Nat} {cs : List Char}
    (h : ∀ tail, skipBlanks cs ≠ '\x7d' :: tail) :
    value? (budget + 1) ('\x7b' :: cs) =
      (fields? budget cs).map fun (fields, rest) => (.object fields, rest) := by
  rw [value?, skipBlanks_cons rfl]
  simp only [fields?_skipBlanks]

section Items

variable {budget : Nat} {b cs tail : List Char} {j : Json}

/-- The item in front of the closing bracket is the last one. -/
theorem items?_last (hb : Blanks b) (hvalue : value? budget cs = some (j, b ++ ']' :: tail)) :
    items? (budget + 1) cs = some ([j], tail) := by
  simp only [items?, hvalue, Option.bind_eq_bind, Option.bind_some, skipBlanks_to hb (c := ']') rfl]
  rfl

/-- Behind a comma there are more items. -/
theorem items?_more {items : List Json} {rest : List Char} (hb : Blanks b)
    (hvalue : value? budget cs = some (j, b ++ ',' :: tail))
    (hitems : items? budget tail = some (items, rest)) :
    items? (budget + 1) cs = some (j :: items, rest) := by
  simp only [items?, hvalue, Option.bind_eq_bind, Option.bind_some,
    skipBlanks_to hb (c := ',') rfl, hitems]
  rfl

end Items

section Fields

variable {budget : Nat} {b d cs tail : List Char} {name : String} {j : Json}

/-- The field in front of the closing brace is the last one. -/
theorem fields?_last (hb : Blanks b) (hd : Blanks d)
    (hvalue : value? budget cs = some (j, d ++ '\x7d' :: tail)) :
    fields? (budget + 1) ((quote name).toList ++ (b ++ ':' :: cs)) =
      some ([(some name, j)], tail) := by
  have hname := stringBody?_append name.toList (b ++ ':' :: cs)
  rw [String.ofList_toList] at hname
  rw [toList_quote, List.cons_append, List.append_assoc, List.singleton_append, fields?,
    skipBlanks_cons rfl]
  simp only [hname, Option.bind_eq_bind, Option.bind_some, skipBlanks_to hb (c := ':') rfl, hvalue,
    skipBlanks_to hd (c := '\x7d') rfl]
  rfl

/-- Behind a comma there are more fields. -/
theorem fields?_more {fields : List (Option String × Json)} {rest : List Char} (hb : Blanks b)
    (hd : Blanks d) (hvalue : value? budget cs = some (j, d ++ ',' :: tail))
    (hfields : fields? budget tail = some (fields, rest)) :
    fields? (budget + 1) ((quote name).toList ++ (b ++ ':' :: cs)) =
      some ((some name, j) :: fields, rest) := by
  have hname := stringBody?_append name.toList (b ++ ':' :: cs)
  rw [String.ofList_toList] at hname
  rw [toList_quote, List.cons_append, List.append_assoc, List.singleton_append, fields?,
    skipBlanks_cons rfl]
  simp only [hname, Option.bind_eq_bind, Option.bind_some, skipBlanks_to hb (c := ':') rfl, hvalue,
    skipBlanks_to hd (c := ',') rfl, hfields]
  rfl

end Fields

/-- No value begins with a blank or with a closing bracket. -/
theorem Writes.exists_cons {cs : List Char} {j : Json} (h : Writes cs j) :
    ∃ c tail, cs = c :: tail ∧ isBlank c = false ∧ c ≠ ']' := by
  cases h with
  | null => exact ⟨'n', _, rfl, rfl, by decide⟩
  | bool b => cases b <;> exact ⟨_, _, rfl, rfl, by decide⟩
  | @number n hn =>
    obtain ⟨c, cs, htext, hc⟩ := exists_cons_text n
    refine ⟨c, cs, htext, isBlank_eq_false_of_number hc, ?_⟩
    rintro rfl
    exact absurd hc (by decide)
  | text s => exact ⟨'"', _, toList_quote s, rfl, by decide⟩
  | noItems ha => exact ⟨'[', _, rfl, rfl, by decide⟩
  | items h => exact ⟨'[', _, rfl, rfl, by decide⟩
  | noFields ha => exact ⟨'\x7b', _, rfl, rfl, by decide⟩
  | fields h => exact ⟨'\x7b', _, rfl, rfl, by decide⟩

/-- A text of items does not begin with the closing bracket. -/
theorem WritesItems.skipBlanks_ne {cs : List Char} {items : List Json} (h : WritesItems cs items)
    (rest tail : List Char) : skipBlanks (cs ++ rest) ≠ ']' :: tail := by
  have hfirst : ∃ a ds t j, Blanks a ∧ Writes ds j ∧ cs = a ++ (ds ++ t) := by
    cases h with
    | last ha hb hj => exact ⟨_, _, _, _, ha, hj, rfl⟩
    | more ha hb hj hitems => exact ⟨_, _, _, _, ha, hj, rfl⟩
  obtain ⟨a, ds, t, j, ha, hj, rfl⟩ := hfirst
  obtain ⟨c, ds, rfl, hc, hclosed⟩ := hj.exists_cons
  rw [List.append_assoc, skipBlanks_append ha, List.cons_append, List.cons_append,
    skipBlanks_cons hc]
  exact fun hsame => hclosed (List.cons.inj hsame).1

/-- A text of fields does not begin with the closing brace. -/
theorem WritesFields.skipBlanks_ne {cs : List Char} {fields : List (Option String × Json)}
    (h : WritesFields cs fields) (rest tail : List Char) :
    skipBlanks (cs ++ rest) ≠ '\x7d' :: tail := by
  have hfirst : ∃ a name t, Blanks a ∧ cs = a ++ ((quote name).toList ++ t) := by
    cases h with
    | last name ha hb hc hd hj => exact ⟨_, _, _, ha, rfl⟩
    | more name ha hb hc hd hj hfields => exact ⟨_, _, _, ha, rfl⟩
  obtain ⟨a, name, t, ha, rfl⟩ := hfirst
  rw [List.append_assoc, skipBlanks_append ha, toList_quote, List.cons_append, List.cons_append,
    skipBlanks_cons rfl]
  exact fun hsame => absurd (List.cons.inj hsame).1 (by decide)

/-- Within a budget every value is read back. -/
def ReadsValues (budget : Nat) : Prop :=
  ∀ {cs j}, Writes cs j → 2 * cs.length ≤ budget → ∀ {rest}, Stops continues rest →
    value? budget (cs ++ rest) = some (j, rest)

/-- Within a budget the items of an array are read back. -/
def ReadsItems (budget : Nat) : Prop :=
  ∀ {cs items}, WritesItems cs items → 2 * cs.length < budget → ∀ rest,
    items? budget (cs ++ ']' :: rest) = some (items, rest)

/-- Within a budget the fields of an object are read back. -/
def ReadsFields (budget : Nat) : Prop :=
  ∀ {cs fields}, WritesFields cs fields → 2 * cs.length < budget → ∀ rest,
    fields? budget (cs ++ '\x7d' :: rest) = some (fields, rest)

variable {budget : Nat}

/-- With one more in the budget, values are read whose items and fields are read. -/
theorem readsValues_succ (ihitems : ReadsItems budget) (ihfields : ReadsFields budget) :
    ReadsValues (budget + 1) := by
  intro cs j h hbudget rest hrest
  cases h with
  | null => exact value?_null budget rest
  | bool b => exact value?_bool budget b rest
  | number hn => exact value?_text hn hrest
  | text s => exact value?_quote budget s rest
  | noItems ha => exact value?_noItems budget ha rest
  | items h =>
    simp only [List.length_cons, List.length_append] at hbudget
    rw [List.cons_append, List.append_assoc, List.singleton_append,
      value?_items (h.skipBlanks_ne _), ihitems h (by omega), Option.map_some]
  | noFields ha => exact value?_noFields budget ha rest
  | fields h =>
    simp only [List.length_cons, List.length_append] at hbudget
    rw [List.cons_append, List.append_assoc, List.singleton_append,
      value?_fields (h.skipBlanks_ne _), ihfields h (by omega), Option.map_some]

/-- With one more in the budget, one more item is read. -/
theorem readsItems_succ (ihvalues : ReadsValues budget) (ihitems : ReadsItems budget) :
    ReadsItems (budget + 1) := by
  intro cs items h hbudget rest
  cases h with
  | @last a b cs j ha hb hj =>
    simp only [List.length_append] at hbudget
    have hstops := stops_append hb (stops_cons (c := ']') rfl rest)
    have hvalue := ihvalues hj (by omega) hstops
    rw [List.append_assoc, List.append_assoc, items?_append ha, items?_last hb hvalue]
  | @more a b cs ds j items ha hb hj hitems =>
    simp only [List.length_append, List.length_cons] at hbudget
    have hstops := stops_append hb (stops_cons (c := ',') rfl (ds ++ ']' :: rest))
    have hvalue := ihvalues hj (by omega) hstops
    have hmore := ihitems hitems (by omega) rest
    simp only [List.append_assoc, List.cons_append]
    rw [items?_append ha, items?_more hb hvalue hmore]

theorem readsFields_succ (ihvalues : ReadsValues budget) (ihfields : ReadsFields budget) :
    ReadsFields (budget + 1) := by
  intro cs fields h hbudget rest
  cases h with
  | @last name a b c d cs j ha hb hc hd hj =>
    simp only [List.length_append, List.length_cons] at hbudget
    have hstops := stops_append hd (stops_cons (c := '\x7d') rfl rest)
    have hvalue := ihvalues hj (by omega) hstops
    rw [← value?_append hc] at hvalue
    simp only [List.append_assoc, List.cons_append]
    rw [fields?_append ha, fields?_last hb hd hvalue]
  | @more name a b c d cs ds j fields ha hb hc hd hj hfields =>
    simp only [List.length_append, List.length_cons] at hbudget
    have hstops := stops_append hd (stops_cons (c := ',') rfl (ds ++ '\x7d' :: rest))
    have hvalue := ihvalues hj (by omega) hstops
    have hmore := ihfields hfields (by omega) rest
    rw [← value?_append hc] at hvalue
    simp only [List.append_assoc, List.cons_append]
    rw [fields?_append ha, fields?_more hb hd hvalue hmore]

/-- **Values, items and fields** are read back, each with twice the length of its text for a
budget. -/
theorem reads_of_writes (budget : Nat) :
    ReadsValues budget ∧ ReadsItems budget ∧ ReadsFields budget := by
  induction budget with
  | zero =>
    refine ⟨fun h hbudget => ?_, fun _ hbudget => absurd hbudget (Nat.not_lt_zero _),
      fun _ hbudget => absurd hbudget (Nat.not_lt_zero _)⟩
    obtain ⟨c, tail, rfl, -⟩ := h.exists_cons
    exact absurd hbudget (by rw [List.length_cons]; omega)
  | succ budget ih =>
    obtain ⟨ihvalues, ihitems, ihfields⟩ := ih
    exact ⟨readsValues_succ ihitems ihfields, readsItems_succ ihvalues ihitems,
      readsFields_succ ihvalues ihfields⟩

/-- **Documents are read as they were written**, in any layout. -/
theorem read?_of_laysOut {s : String} {j : Json} (h : LaysOut s j) : read? s = some j := by
  obtain ⟨a, cs, b, ha, hj, hb, hs⟩ := h
  have hbudget : 2 * cs.length ≤ 2 * s.toList.length + 2 := by
    rw [hs, List.length_append, List.length_append]
    omega
  have hstops : Stops continues b := List.append_nil b ▸ stops_append hb (stops_nil continues)
  have hread := (reads_of_writes _).1 hj hbudget hstops
  rw [← value?_append ha, ← hs] at hread
  have hrest : skipBlanks b = [] := List.append_nil b ▸ skipBlanks_append hb []
  simp only [read?, hread, hrest, List.isEmpty_nil, if_true]

end Reading

section Layouts

/-- A natural number can be written. -/
theorem plain_nat (n : Nat) : (Json.nat n).Plain :=
  .number fun _ hd => absurd hd List.not_mem_nil

variable (write : Json → List Char) {gap space tail : List Char}

/-- Texts of items with commas between them are a text of the items together. -/
theorem writesItems_intercalate (hgap : Blanks gap) (htail : Blanks tail) {items : List Json}
    (hsome : items ≠ []) (h : ∀ j ∈ items, Writes (write j) j) :
    WritesItems (gap ++ ((',' :: gap).intercalate (items.map write) ++ tail)) items := by
  induction items with
  | nil => exact absurd rfl hsome
  | cons j items ih =>
    have hj := h j List.mem_cons_self
    cases items with
    | nil =>
      rw [List.map_singleton, List.intercalate_singleton]
      exact .last hgap htail hj
    | cons next items =>
      have hmore := ih (List.cons_ne_nil _ _) fun i hi => h i (List.mem_cons_of_mem j hi)
      have hwhole := WritesItems.more hgap blanks_nil hj hmore
      rw [List.map_cons, List.map_cons, List.intercalate_cons_cons, ← List.map_cons]
      simpa only [List.append_assoc, List.cons_append, List.nil_append] using hwhole

/-- Names and texts of values with commas between them are a text of the fields together. -/
theorem writesFields_intercalate (hgap : Blanks gap) (hspace : Blanks space) (htail : Blanks tail)
    {fields : List (String × Json)} (hsome : fields ≠ [])
    (h : ∀ f ∈ fields, Writes (write f.2) f.2) :
    WritesFields
      (gap ++ ((',' :: gap).intercalate
        (fields.map fun f => (quote f.1).toList ++ ':' :: (space ++ write f.2)) ++ tail))
      (fields.map fun f => (some f.1, f.2)) := by
  induction fields with
  | nil => exact absurd rfl hsome
  | cons f fields ih =>
    have hf := h f List.mem_cons_self
    cases fields with
    | nil =>
      rw [List.map_singleton, List.intercalate_singleton, List.map_singleton]
      have hwhole := WritesFields.last f.1 hgap blanks_nil hspace htail hf
      simpa only [List.append_assoc, List.cons_append, List.nil_append] using hwhole
    | cons next fields =>
      have hmore := ih (List.cons_ne_nil _ _) fun g hg => h g (List.mem_cons_of_mem f hg)
      have hwhole := WritesFields.more f.1 hgap blanks_nil hspace blanks_nil hf hmore
      simpa only [List.map_cons, List.intercalate_cons_cons, List.append_assoc, List.cons_append,
        List.nil_append] using hwhole

theorem compactItems_eq (items : List Json) : compactItems items = items.map compact := by
  induction items with
  | nil => rfl
  | cons j items ih => rw [compactItems, ih, List.map_cons]

theorem prettyItems_eq (level : Nat) (items : List Json) :
    prettyItems level items = items.map (prettyAt level) := by
  induction items with
  | nil => rfl
  | cons j items ih => rw [prettyItems, ih, List.map_cons]

/-- Fields are printed one by one, without blanks. -/
theorem compactFields_eq (fields : List (String × Json)) :
    compactFields (fields.map fun f => (some f.1, f.2)) =
      fields.map fun f => quote f.1 ++ ":" ++ compact f.2 := by
  induction fields with
  | nil => rfl
  | cons f fields ih => rw [List.map_cons, compactFields, ih, List.map_cons]; rfl

theorem prettyFields_eq (level : Nat) (fields : List (String × Json)) :
    prettyFields level (fields.map fun f => (some f.1, f.2)) =
      fields.map fun f => quote f.1 ++ ": " ++ prettyAt level f.2 := by
  induction fields with
  | nil => rfl
  | cons f fields ih => rw [List.map_cons, prettyFields, ih, List.map_cons]; rfl

/-- The layout without blanks writes its document. -/
theorem Plain.writes_compact {j : Json} (h : j.Plain) : Writes j.compact.toList j := by
  induction h with
  | null => exact .null
  | bool b => exact .bool b
  | number h => exact .number h
  | text s => exact .text s
  | @array items h ih =>
    by_cases hnone : items = []
    · subst hnone
      exact .noItems blanks_nil
    · have hitems := writesItems_intercalate (fun j => j.compact.toList) blanks_nil blanks_nil
        hnone ih
      have htexts : (compactItems items).map String.toList =
          items.map fun j => j.compact.toList := by
        rw [compactItems_eq, List.map_map]
        rfl
      rw [List.nil_append, List.append_nil] at hitems
      rw [compact, String.toList_append, String.toList_append, String.toList_intercalate, htexts]
      exact .items hitems
  | @record fields h ih =>
    by_cases hnone : fields = []
    · subst hnone
      exact .noFields blanks_nil
    · have hfields := writesFields_intercalate (fun j => j.compact.toList) blanks_nil blanks_nil
        blanks_nil hnone ih
      have htexts : (compactFields (fields.map fun f => (some f.1, f.2))).map String.toList =
          fields.map fun f => (quote f.1).toList ++ ':' :: ([] ++ f.2.compact.toList) := by
        rw [compactFields_eq, List.map_map]
        refine List.map_congr_left fun f _ => ?_
        rw [Function.comp_apply, String.toList_append, String.toList_append, List.append_assoc]
        rfl
      rw [List.nil_append, List.append_nil] at hfields
      rw [Json.record, compact, String.toList_append, String.toList_append,
        String.toList_intercalate, htexts]
      exact .fields hfields

/-- Indentation is made of blanks. -/
theorem blanks_newLine (level : Nat) : Blanks (newLine level).toList := by
  intro c hc
  rw [newLine, String.toList_ofList] at hc
  rcases List.mem_cons.1 hc with rfl | hspace
  · rfl
  · rw [List.eq_of_mem_replicate hspace]
    rfl

/-- The characters of items between brackets, one a line. -/
theorem toList_enclose (opening closing : String) (level : Nat) {items : List String}
    (h : items ≠ []) :
    (enclose opening closing level items).toList =
      opening.toList ++ ((newLine (level + 1)).toList ++
        ((',' :: (newLine (level + 1)).toList).intercalate (items.map String.toList) ++
          (newLine level).toList) ++ closing.toList) := by
  rw [enclose]
  · simp only [String.toList_append, String.toList_intercalate, List.append_assoc]
    rfl
  · exact h

/-- The layout with one item a line writes its document, at any level of indentation. -/
theorem Plain.writes_prettyAt {j : Json} (h : j.Plain) (level : Nat) :
    Writes (prettyAt level j).toList j := by
  induction h generalizing level with
  | null => exact .null
  | bool b => exact .bool b
  | number h => exact .number h
  | text s => exact .text s
  | @array items h ih =>
    by_cases hnone : items = []
    · subst hnone
      rw [prettyAt, prettyItems, enclose]
      exact .noItems blanks_nil
    · have hitems := writesItems_intercalate (fun j => (prettyAt (level + 1) j).toList)
        (blanks_newLine (level + 1)) (blanks_newLine level) hnone fun j hj => ih j hj (level + 1)
      have hsome : items.map (prettyAt (level + 1)) ≠ [] := mt List.map_eq_nil_iff.1 hnone
      rw [prettyAt, prettyItems_eq, toList_enclose _ _ _ hsome, List.map_map]
      exact .items hitems
  | @record fields h ih =>
    by_cases hnone : fields = []
    · subst hnone
      rw [Json.record, List.map_nil, prettyAt, prettyFields, enclose]
      exact .noFields blanks_nil
    · have hspace : Blanks [' '] := by
        intro c hc
        rw [List.mem_singleton.1 hc]
        rfl
      have hfields := writesFields_intercalate (fun j => (prettyAt (level + 1) j).toList)
        (blanks_newLine (level + 1)) hspace (blanks_newLine level) hnone
        fun f hf => ih f hf (level + 1)
      have htexts : (prettyFields (level + 1) (fields.map fun f => (some f.1, f.2))).map
          String.toList =
          fields.map fun f =>
            (quote f.1).toList ++ ':' :: ([' '] ++ (prettyAt (level + 1) f.2).toList) := by
        rw [prettyFields_eq, List.map_map]
        refine List.map_congr_left fun f _ => ?_
        rw [Function.comp_apply, String.toList_append, String.toList_append, List.append_assoc]
        rfl
      have hsome : prettyFields (level + 1) (fields.map fun f => (some f.1, f.2)) ≠ [] := by
        rw [prettyFields_eq]
        exact mt List.map_eq_nil_iff.1 hnone
      rw [Json.record, prettyAt, toList_enclose _ _ _ hsome, htexts]
      exact .fields hfields

/-- **Both layouts** are layouts of the document. -/
theorem Plain.laysOut {j : Json} (h : j.Plain) : LaysOut j.compact j ∧ LaysOut j.pretty j := by
  have hwhole : ∀ {s : String}, Writes s.toList j → LaysOut s j := by
    intro s hs
    exact ⟨[], s.toList, [], blanks_nil, hs, blanks_nil, (List.append_nil _).symm⟩
  exact ⟨hwhole h.writes_compact, hwhole (h.writes_prettyAt 0)⟩

end Layouts

end Json

end BaudReel
