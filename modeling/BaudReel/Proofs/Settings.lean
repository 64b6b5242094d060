import BaudReel.Config.Document
import BaudReel.Proofs.Fraction
import BaudReel.Proofs.Standard
import Mathlib.Data.List.Perm.Subperm

/-!
# Settings survive being written

A record is read by name, so that the order of its fields does not matter, and a field that is
not there keeps its default.  An abridged record (`Json.Abridges`) is some of the fields in some
order, where each field that was left out would have said what the default says anyway.  It
stands for what the whole record stands for, field by field (`Abridges.means_field`).

For settings this happens twice, for their own fields and for those of their starting position,
which is a record inside the record.  One field needs care: a position is left out if it
*compares* equal to the default, and there are two zeros that do.  What is read in its place is
then the default, which compares equal to it.

The library that writes and reads is a parameter.  That it is faithful is a hypothesis, and that
it reads back the double it writes for the position is another one, since libraries do not always
do that.
-/

namespace BaudReel

open Json
open Json.Library (Faithful ReadsDouble Rereads)

namespace Json

/-- A field that is written once is found. -/
theorem lookup_of_mem {part : List (String × Json)} (hnames : (part.map Prod.fst).Nodup)
    {name : String} {value : Json} (h : (name, value) ∈ part) : part.lookup name = some value := by
  obtain ⟨front, rest, rfl⟩ := List.append_of_mem h
  refine List.lookup_eq_some_iff.2 ⟨front, rest, rfl, fun f hf => bne_iff_ne.2 fun hsame => ?_⟩
  rw [List.map_append, List.map_cons] at hnames
  have hmem : name ∈ front.map Prod.fst := List.mem_map.2 ⟨f, hf, hsame.symm⟩
  exact (List.nodup_append.1 hnames).2.2 _ hmem _ List.mem_cons_self rfl

/-- A field of a record, and what it means for it to hold its default. -/
structure Entry where
  name : String
  value : Json
  unset : Prop

/-- The field as it is written. -/
def Entry.field (e : Entry) : String × Json :=
  (e.name, e.value)

/-- The fields of a record without some that hold their defaults, in any order. -/
structure Abridges (part : List (String × Json)) (entries : List Entry) : Prop where
  subperm : part.Subperm (entries.map Entry.field)
  unset_of_not_mem : ∀ e ∈ entries, e.field ∉ part → e.unset

namespace Abridges

variable {part : List (String × Json)} {entries : List Entry}

/-- An abridged record gives no name twice. -/
theorem nodup (h : Abridges part entries) (hnames : (entries.map Entry.name).Nodup) :
    (part.map Prod.fst).Nodup := by
  obtain ⟨kept, hperm, hsublist⟩ := h.subperm
  have hkept := hsublist.map Prod.fst
  rw [List.map_map] at hkept
  exact (hperm.map Prod.fst).nodup_iff.1 (hnames.sublist hkept)

section Lookup

variable {i : Nat} {name : String} {value : Json} {unset : Prop}

/-- A field is found as it was written, or its default is not missed. -/
theorem lookup (h : Abridges part entries) (hnames : (entries.map Entry.name).Nodup)
    (hentry : entries[i]? = some ⟨name, value, unset⟩) :
    part.lookup name = some value ∨ part.lookup name = none ∧ unset := by
  have hmem := List.mem_of_getElem? hentry
  by_cases hkept : (name, value) ∈ part
  · exact .inl (lookup_of_mem (h.nodup hnames) hkept)
  · refine .inr ⟨List.lookup_eq_none_iff.2 fun f hf => ?_, h.unset_of_not_mem _ hmem hkept⟩
    obtain ⟨e, he, rfl⟩ := List.mem_map.1 (h.subperm.subset hf)
    refine bne_iff_ne.2 fun hname => hkept ?_
    obtain rfl : ⟨name, value, unset⟩ = e := List.inj_on_of_nodup_map hnames hmem he hname
    exact hf

/-- **Defaults are not missed.**  A field stands for what it stands for in the whole record. -/
theorem mean_field {α β : Type} {reads : Json → Float → Prop} {content : Form β} {get : α → β}
    {default a : α} (h : Abridges part entries) (hnames : (entries.map Entry.name).Nodup)
    (hentry : entries[i]? = some ⟨name, value, unset⟩) (hvalue : content.Means reads value (get a))
    (hunset : unset → get a = get default) :
    (∀ j, part.lookup name = some j → content.Means reads j (get a)) ∧
      (part.lookup name = none → get a = get default) := by
  rcases h.lookup hnames hentry with hfound | ⟨hmissing, hdefault⟩
  · rw [hfound]
    exact ⟨fun j hj => Option.some.inj hj ▸ hvalue, nofun⟩
  · rw [hmissing]
    exact ⟨nofun, fun _ => hunset hdefault⟩

end Lookup

/-- No other names are given than those of the fields. -/
theorem names_subset (h : Abridges part entries) :
    part.map Prod.fst ⊆ entries.map Entry.name := by
  have hsubset := List.map_subset Prod.fst h.subperm.subset
  rwa [List.map_map] at hsubset

/-- An abridged record can be written if each of its fields can. -/
theorem plain (h : Abridges part entries) (hplain : ∀ e ∈ entries, e.value.Plain) :
    (Json.record part).Plain := by
  refine .record fun f hf => ?_
  obtain ⟨e, he, rfl⟩ := List.mem_map.1 (h.subperm.subset hf)
  exact hplain e he

/-- Fields of a record, none of them twice. -/
theorem of_subset (hnames : (part.map Prod.fst).Nodup)
    (hsubset : ∀ f ∈ part, f ∈ entries.map Entry.field)
    (hunset : ∀ e ∈ entries, e.field ∉ part → e.unset) : Abridges part entries where
  subperm := (List.Nodup.of_map Prod.fst hnames).subperm hsubset
  unset_of_not_mem := hunset

/-- A record with all its fields in their order is abridged by nothing. -/
theorem all (entries : List Entry) : Abridges (entries.map Entry.field) entries where
  subperm := List.Subperm.refl _
  unset_of_not_mem := fun _ he hmissing => absurd (List.mem_map_of_mem he) hmissing

end Abridges

end Json

/-- What is written for a speed stands for it. -/
theorem ModemSpeed.means_toJson {reads : Json → Float → Prop} {speed : ModemSpeed}
    (h : ∀ bits, speed = .bps bits → bits ≤ Word.max32) :
    ModemSpeed.form.Means reads speed.toJson speed := by
  refine ⟨by decide, ?_⟩
  cases speed with
  | bps bits => exact .inl ⟨.nat bits, bits, rfl, ⟨rfl, h bits rfl⟩, rfl⟩
  | unlimited => exact .inr (.inl ⟨rfl, rfl⟩)

/-- What is written for a blink mode stands for it. -/
theorem BlinkMode.means_toJson {reads : Json → Float → Prop} (mode : BlinkMode) :
    BlinkMode.form.Means reads mode.toJson mode := by
  refine ⟨by decide, ?_⟩
  cases mode with
  | off => exact .inl ⟨rfl, rfl⟩
  | auto => exact .inr (.inl ⟨rfl, rfl⟩)
  | host => exact .inr (.inr (.inl ⟨rfl, rfl⟩))

namespace Seek

/-- The fields of a starting position. -/
def entries [Library] (s : Seek) : List Entry :=
  let unset : Seek := {}
  [⟨"position", Library.double s.position, s.position == unset.position⟩,
   ⟨"resume", .bool s.resume, s.resume = unset.resume⟩]

/-- The same with another position. -/
def withPosition (s : Seek) (position : Float) : Seek :=
  { s with position }

/-- The position that is read where only some of the fields are written. -/
def positionIn (s : Seek) (part : List (String × Json)) : Float :=
  if (part.lookup "position").isSome then s.position else ({} : Seek).position

theorem nodup_entries [Library] (s : Seek) : (s.entries.map Entry.name).Nodup := by
  show ["position", "resume"].Nodup
  decide

variable [Library] {s : Seek} {part : List (String × Json)}

/-- An abridged starting position stands for the position, with the default for what is missing. -/
theorem means_record {reads : Json → Float → Prop} (h : Abridges part s.entries)
    (hposition : reads (Library.double s.position) s.position) :
    Seek.form.Means reads (.record part) (s.withPosition (s.positionIn part)) := by
  have hnames := s.nodup_entries
  refine ⟨hnames, rfl, part, rfl, h.nodup hnames, h.names_subset, ?position, ?resume, trivial⟩
  case position =>
    show (∀ j, part.lookup "position" = some j → reads j (s.positionIn part)) ∧
      (part.lookup "position" = none → s.positionIn part = ({} : Seek).position)
    rcases h.lookup hnames (i := 0) rfl with hfound | ⟨hmissing, -⟩
    · rw [positionIn, hfound]
      exact ⟨fun j hj => Option.some.inj hj ▸ hposition, nofun⟩
    · rw [positionIn, hmissing]
      exact ⟨nofun, fun _ => rfl⟩
  case resume => exact h.mean_field hnames (i := 1) rfl rfl id

/-- What is read for a position that was left out compares equal to it. -/
theorem beq_positionIn (h : Abridges part s.entries)
    (hnumber : (s.position == s.position) = true) : (s.position == s.positionIn part) = true := by
  rcases h.lookup s.nodup_entries (i := 0) rfl with hfound | ⟨hmissing, hzero⟩
  · rw [positionIn, hfound]
    exact hnumber
  · rw [positionIn, hmissing]
    exact hzero

end Seek

namespace Config

/-- Numbers of the sizes in which settings are held.  Where they are usable, the least sizes of
the screen do not exceed the largest ones. -/
structure InWords (c : Config) : Prop where
  bits_le : ∀ bits, c.modemSpeed = .bps bits → bits ≤ Word.max32
  frameInterval_le : c.frameInterval ≤ Word.max64
  blinkDuration_le : c.blinkDuration ≤ Word.max64
  maxWidth_le : c.maxWidth ≤ Word.max64
  maxHeight_le : c.maxHeight ≤ Word.max64

/-- The fields of settings, with a document for the starting position. -/
def entries (c : Config) (seek : Json) : List Entry :=
  let unset : Config := {}
  [⟨"modem_speed", c.modemSpeed.toJson, c.modemSpeed = unset.modemSpeed⟩,
   ⟨"frame_interval_ms", .nat c.frameInterval, c.frameInterval = unset.frameInterval⟩,
   ⟨"blink_duration_ms", .nat c.blinkDuration, c.blinkDuration = unset.blinkDuration⟩,
   ⟨"blink_mode", c.blinkMode.toJson, c.blinkMode = unset.blinkMode⟩,
   ⟨"transparency", .bool c.transparency, c.transparency = unset.transparency⟩,
   ⟨"min_width", .nat c.minWidth, c.minWidth = unset.minWidth⟩,
   ⟨"min_height", .nat c.minHeight, c.minHeight = unset.minHeight⟩,
   ⟨"max_width", .nat c.maxWidth, c.maxWidth = unset.maxWidth⟩,
   ⟨"max_height", .nat c.maxHeight, c.maxHeight = unset.maxHeight⟩,
   ⟨"seek", seek, (c.seek.position == unset.seek.position) ∧ c.seek.resume = unset.seek.resume⟩]

/-- Settings are written with all their fields. -/
theorem toJson_eq [Library] (c : Config) : c.toJson = .record ((c.entries c.seek.toJson).map Entry.field) :=
  rfl

theorem nodup_entries (c : Config) (seek : Json) : ((c.entries seek).map Entry.name).Nodup := by
  show ["modem_speed", "frame_interval_ms", "blink_duration_ms", "blink_mode", "transparency",
    "min_width", "min_height", "max_width", "max_height", "seek"].Nodup
  decide

variable {c : Config} {seekPart part : List (String × Json)}

/-- The same with another position to start from. -/
def withPosition (c : Config) (position : Float) : Config :=
  { c with seek := c.seek.withPosition position }

/-- The position that is read where only some of the fields are written. -/
def positionIn (c : Config) (part seekPart : List (String × Json)) : Float :=
  if (part.lookup "seek").isSome then c.seek.positionIn seekPart else ({} : Seek).position

/-- The declared fields are all that settings have. -/
theorem copy_form (c : Config) : fields.copy c {} = c := by
  cases c
  rfl

/-- The fields of settings can be written if the starting position can. -/
theorem plain_entries (c : Config) {seek : Json} (hseek : seek.Plain) :
    ∀ e ∈ c.entries seek, e.value.Plain := by
  have hspeed : c.modemSpeed.toJson.Plain := by
    cases c.modemSpeed with
    | bps bits => exact .record fun f hf => List.mem_singleton.1 hf ▸ plain_nat bits
    | unlimited => exact .text "unlimited"
  simp only [entries, List.forall_mem_cons]
  exact ⟨hspeed, plain_nat _, plain_nat _, .text _, .bool _, plain_nat _, plain_nat _, plain_nat _,
    plain_nat _, hseek, fun _ he => absurd he List.not_mem_nil⟩

/-- Settings stay usable with the default for a position that was left out. -/
theorem fault?_withPosition (part seekPart : List (String × Json)) (hvalid : c.fault? = none) :
    (c.withPosition (c.positionIn part seekPart)).fault? = none := by
  have hunset : 0.0 ≤ ({} : Seek).position ∧ ({} : Seek).position ≤ 1.0 := by decide +kernel
  obtain ⟨hmaximum, hminimum, hinterval, hduration, hspeed, hrange⟩ := fault?_eq_none_iff.1 hvalid
  refine fault?_eq_none_iff.2 ⟨hmaximum, hminimum, hinterval, hduration, hspeed, ?_⟩
  show 0.0 ≤ c.positionIn part seekPart ∧ c.positionIn part seekPart ≤ 1.0
  unfold positionIn Seek.positionIn
  split
  · split
    · exact hrange
    · exact hunset
  · exact hunset

section Written

variable [Library]

/-- Abridged settings stand for the settings, but for a position that was left out. -/
theorem means_record {reads : Json → Float → Prop} (hvalid : c.fault? = none) (hwords : c.InWords)
    (hposition : reads (Library.double c.seek.position) c.seek.position)
    (hseek : Abridges seekPart c.seek.entries)
    (h : Abridges part (c.entries (.record seekPart))) :
    Config.form.Means reads (.record part) (c.withPosition (c.positionIn part seekPart)) := by
  have hnames := c.nodup_entries (.record seekPart)
  obtain ⟨-, ⟨hwidths, hheights⟩, -⟩ := fault?_eq_none_iff.1 hvalid
  refine ⟨hnames, copy_form _, part, rfl, h.nodup hnames, h.names_subset, ?_⟩
  refine ⟨h.mean_field hnames (i := 0) rfl (ModemSpeed.means_toJson hwords.bits_le) id,
    h.mean_field hnames (i := 1) rfl ⟨rfl, hwords.frameInterval_le⟩ id,
    h.mean_field hnames (i := 2) rfl ⟨rfl, hwords.blinkDuration_le⟩ id,
    h.mean_field hnames (i := 3) rfl c.blinkMode.means_toJson id,
    h.mean_field hnames (i := 4) rfl rfl id,
    h.mean_field hnames (i := 5) rfl ⟨rfl, hwidths.trans hwords.maxWidth_le⟩ id,
    h.mean_field hnames (i := 6) rfl ⟨rfl, hheights.trans hwords.maxHeight_le⟩ id,
    h.mean_field hnames (i := 7) rfl ⟨rfl, hwords.maxWidth_le⟩ id,
    h.mean_field hnames (i := 8) rfl ⟨rfl, hwords.maxHeight_le⟩ id, ?seek, trivial⟩
  case seek =>
    show (∀ j, part.lookup "seek" = some j →
        Seek.form.Means reads j (c.seek.withPosition (c.positionIn part seekPart))) ∧
      (part.lookup "seek" = none →
        c.seek.withPosition (c.positionIn part seekPart) = ({} : Config).seek)
    rcases h.lookup hnames (i := 9) rfl with hfound | ⟨hmissing, -, hresume⟩
    · rw [positionIn, hfound]
      refine ⟨fun j hj => Option.some.inj hj ▸ ?_, nofun⟩
      exact Seek.means_record hseek hposition
    · rw [positionIn, hmissing, Seek.withPosition, hresume]
      exact ⟨nofun, fun _ => rfl⟩

/-- Abridged settings can be written. -/
theorem plain_record (hlibrary : Faithful) (hseek : Abridges seekPart c.seek.entries)
    (h : Abridges part (c.entries (.record seekPart))) : (Json.record part).Plain := by
  have hplain : ∀ e ∈ c.seek.entries, e.value.Plain := by
    simp only [Seek.entries, List.forall_mem_cons]
    exact ⟨hlibrary.plain_double _, .bool _, fun _ he => absurd he List.not_mem_nil⟩
  exact h.plain (c.plain_entries (hseek.plain hplain))

/-- What is read for a position that was left out compares equal to it. -/
theorem beq_positionIn (hvalid : c.fault? = none) (hseek : Abridges seekPart c.seek.entries)
    (h : Abridges part (c.entries (.record seekPart))) :
    (c.seek.position == c.positionIn part seekPart) = true := by
  obtain ⟨-, -, -, -, -, hlow, -⟩ := fault?_eq_none_iff.1 hvalid
  rcases h.lookup (c.nodup_entries _) (i := 9) rfl with hfound | ⟨hmissing, hzero, -⟩
  · rw [positionIn, hfound]
    exact Seek.beq_positionIn hseek (beq_self_of_le hlow)
  · rw [positionIn, hmissing]
    exact hzero

/-- A library that reads back what it writes for a double reads it inside a record, too. -/
theorem readsDouble_of_rereads (hlibrary : Faithful) {x : Float} (h : Rereads x) :
    ReadsDouble (Library.double x) x :=
  ⟨_, hlibrary.laysOut_compact (hlibrary.plain_double x), h⟩

/-- Every text of abridged settings is read and found usable. -/
theorem parse_of_laysOut (hlibrary : Faithful) (hvalid : c.fault? = none) (hwords : c.InWords)
    (hposition : Rereads c.seek.position) (hseek : Abridges seekPart c.seek.entries)
    (h : Abridges part (c.entries (.record seekPart))) {text : String}
    (htext : LaysOut text (.record part)) :
    parse text = .ok (c.withPosition (c.positionIn part seekPart)) := by
  have hmeans := means_record hvalid hwords (readsDouble_of_rereads hlibrary hposition) hseek h
  have hread := hlibrary.read_eq (by decide) hmeans htext
  have hfault := fault?_withPosition part seekPart hvalid
  simp only [parse, hread, hfault]

/-- **Settings survive being written.**  Whatever library writes and reads, as long as it is
faithful and reads back the double it writes for the position: usable settings are read back from
what is written for them.  From their document fields that hold their defaults may be left out,
and the others may be put in any order, among the settings and inside the starting point: every
text that lays the rest out gives the same settings again, where a position that was left out is
replaced by the default, which compares equal to it.  The two layouts of the library are such
texts. -/
theorem settings_survive_writing (hlibrary : Faithful) (hvalid : c.fault? = none)
    (hwords : c.InWords) (hposition : Rereads c.seek.position) :
    parse c.render = .ok c ∧
      ∀ seekPart part, Abridges seekPart c.seek.entries →
        Abridges part (c.entries (.record seekPart)) →
        (∀ text, LaysOut text (.record part) →
          parse text = .ok (c.withPosition (c.positionIn part seekPart))) ∧
        (c.seek.position == c.positionIn part seekPart) = true ∧
        LaysOut (Library.compact (.record part)) (.record part) ∧
        LaysOut (Library.pretty (.record part)) (.record part) := by
  have hread : ∀ {seekPart part}, Abridges seekPart c.seek.entries →
      Abridges part (c.entries (.record seekPart)) → ∀ text, LaysOut text (.record part) →
        parse text = .ok (c.withPosition (c.positionIn part seekPart)) :=
    fun hseek h _ htext => parse_of_laysOut hlibrary hvalid hwords hposition hseek h htext
  constructor
  · have hseek := Abridges.all c.seek.entries
    have hall := Abridges.all (c.entries c.seek.toJson)
    have htext := hlibrary.laysOut_pretty (plain_record hlibrary hseek hall)
    rw [← toJson_eq] at htext
    exact hread hseek hall c.render htext
  · intro seekPart part hseek h
    have hplain := plain_record hlibrary hseek h
    exact ⟨hread hseek h, beq_positionIn hvalid hseek h, hlibrary.laysOut_compact hplain,
      hlibrary.laysOut_pretty hplain⟩

end Written

/-- A speed and a position, in another order than usual and without anything else, written and
read by the library of programs. -/
theorem settings_survive_writing_abridged :
    let c : Config := { modemSpeed := .bps 2400, seek := { position := 0.5 } }
    let text := "\x7b\"seek\":\x7b\"position\":0.5\x7d,\"modem_speed\":\x7b\"bps\":2400\x7d\x7d"
    (c.fault? = none ∧ c.InWords) ∧ parse c.render = .ok c ∧ parse text = .ok c := by
  intro c text
  let seekPart : List (String × Json) := [("position", Library.double c.seek.position)]
  let part : List (String × Json) :=
    [("seek", .record seekPart), ("modem_speed", c.modemSpeed.toJson)]
  have hvalid : c.fault? = none := by decide +kernel
  have hwords : c.InWords := by
    refine ⟨?_, by decide, by decide, by decide, by decide⟩
    rintro _ ⟨⟩
    decide
  have hposition : Rereads c.seek.position := by
    unfold Rereads
    decide +kernel
  have hhalf : ("position", Library.double c.seek.position) ∈ c.seek.entries.map Entry.field :=
    List.mem_of_getElem? (i := 0) rfl
  have hspeed : ("modem_speed", c.modemSpeed.toJson) ∈
      (c.entries (.record seekPart)).map Entry.field := List.mem_of_getElem? (i := 0) rfl
  have hstart : ("seek", Json.record seekPart) ∈
      (c.entries (.record seekPart)).map Entry.field := List.mem_of_getElem? (i := 9) rfl
  have hseek : Abridges seekPart c.seek.entries := by
    refine .of_subset (by decide) (List.forall_mem_singleton.2 hhalf) ?_
    simp only [Seek.entries, List.forall_mem_cons]
    exact ⟨fun hmissing => absurd List.mem_cons_self hmissing, fun _ => rfl,
      fun _ he => absurd he List.not_mem_nil⟩
  have hpart : Abridges part (c.entries (.record seekPart)) := by
    refine .of_subset (by decide) (List.forall_mem_cons.2
      ⟨hstart, List.forall_mem_singleton.2 hspeed⟩) ?_
    simp only [entries, List.forall_mem_cons]
    have hkept : ("modem_speed", c.modemSpeed.toJson) ∈ part := List.mem_of_getElem? (i := 1) rfl
    exact ⟨fun hmissing => absurd hkept hmissing, fun _ => rfl, fun _ => rfl, fun _ => rfl,
      fun _ => rfl, fun _ => rfl, fun _ => rfl, fun _ => rfl, fun _ => rfl,
      fun hmissing => absurd List.mem_cons_self hmissing, fun _ he => absurd he List.not_mem_nil⟩
  have hcompact : Library.compact (Json.record part) = text := by decide +kernel
  obtain ⟨hrender, habridged⟩ := settings_survive_writing standard_faithful hvalid hwords hposition
  obtain ⟨hread, -, hlayout, -⟩ := habridged seekPart part hseek hpart
  exact ⟨⟨hvalid, hwords⟩, hrender, hread text (hcompact ▸ hlayout)⟩

end Config

end BaudReel
