import BaudReel.Proofs.Bells
import BaudReel.Proofs.Fraction
import Mathlib.Data.List.Destutter

/-!
# What the stage is told

A session tells its stage of a status when it is not the one told before, and of the
descriptive strings the first time and when there are more of them.  What it so tells
mirrors the frames that it hands out: the statuses are those of the frames with equal
neighbours merged, the strings are those of the frames as far as they grew, and an
error is told once, in front of everything that the frame showing it brings.
-/

namespace BaudReel

/-- The status that a notice tells, if any. -/
def Notice.status? : Notice → Option Status
  | .status s => some s
  | _ => none

/-- The descriptive strings that a notice tells, if any. -/
def Notice.strings? : Notice → Option (List String)
  | .metadata strings => some strings
  | _ => none

/-- The error that a notice tells, if any. -/
def Notice.error? : Notice → Option SourceError
  | .failed error => some error
  | _ => none

/-- A status says something else than the one before it. -/
def Status.Differs (a b : Status) : Prop :=
  a.agrees b = false

instance : DecidableRel Status.Differs :=
  fun a b => inferInstanceAs (Decidable (a.agrees b = false))

/-- There are more strings than before. -/
def Longer (a b : List String) : Prop :=
  a.length < b.length

instance : DecidableRel Longer :=
  fun a b => inferInstanceAs (Decidable (a.length < b.length))

section Destutter

variable {α : Type} {R : α → α → Prop} [DecidableRel R]

/-- One more entry is kept unless it only repeats the last one that was. -/
theorem destutter'_append_singleton (a : α) (l : List α) (x : α) :
    (l ++ [x]).destutter' R a = l.destutter' R a ++
      if (l.destutter' R a).getLast?.any (fun y => !decide (R y x)) then [] else [x] := by
  induction l generalizing a with
  | nil =>
    by_cases hx : R a x
    · simp [hx]
    · simp [hx]
  | cons b l ih =>
    by_cases hb : R a b
    · rw [List.cons_append, List.destutter'_cons_pos _ hb, List.destutter'_cons_pos _ hb, ih]
      cases hkept : (l.destutter' R b).getLast? with
      | none => exact absurd (List.getLast?_eq_none_iff.1 hkept) (List.destutter'_ne_nil _ _)
      | some y => rw [List.getLast?_cons, hkept]; rfl
    · rw [List.cons_append, List.destutter'_cons_neg _ hb, List.destutter'_cons_neg _ hb, ih]

/-- Whether the next one is kept depends on the last one kept. -/
theorem destutter_append_singleton (l : List α) (x : α) :
    (l ++ [x]).destutter R = l.destutter R ++
      if (l.destutter R).getLast?.any (fun y => !decide (R y x)) then [] else [x] := by
  cases l with
  | nil => rfl
  | cons a l => exact destutter'_append_singleton a l x

end Destutter

/-- A status that agrees with the last one kept is merged into it. -/
theorem destutter_append_status (seen : List Status) (status : Status) :
    (seen ++ [status]).destutter Status.Differs = seen.destutter Status.Differs ++
      if (seen.destutter Status.Differs).getLast?.any (·.agrees status) then [] else [status] := by
  have hagrees : (fun a : Status => !decide (a.Differs status)) = (·.agrees status) := by
    funext a
    show (!decide (a.agrees status = false)) = a.agrees status
    cases a.agrees status <;> rfl
  rw [← hagrees]
  exact destutter_append_singleton seen status

/-- Strings that are no more than the last ones kept are left out. -/
theorem destutter_append_strings (seen : List (List String)) (strings : List String) :
    (seen ++ [strings]).destutter Longer = seen.destutter Longer ++
      if ((seen.destutter Longer).getLast?.map List.length).any (strings.length ≤ ·) then []
      else [strings] := by
  have hlonger : (fun a : List String => !decide (Longer a strings)) =
      (fun a => decide (strings.length ≤ a.length)) := by
    funext a
    rw [← decide_not, decide_eq_decide]
    exact Nat.not_lt
  rw [Option.any_map, destutter_append_singleton, hlonger]

namespace Session

/-- The statuses told are those seen with equal neighbours merged, and the session
remembers the last of them. -/
structure StatusesTold (s : Session) (seen told : List Status) : Prop where
  merged : told = seen.destutter Status.Differs
  memory : s.lastStatus = told.getLast?

/-- The strings told are those seen as far as they grew, up to the latest, and the
session remembers how many there were. -/
structure StringsTold (s : Session) (seen told : List (List String)) : Prop where
  merged : told = seen.destutter Longer
  memory : s.stringsTold = told.getLast?.map List.length
  grows : told.IsChain fun a b => a <+: b ∧ a ≠ b
  latest : told.getLast? = seen.getLast?

section Telling

variable {s : Session}

/-- What has been told of the status depends on the memory of it alone. -/
theorem StatusesTold.of_memory {t : Session} {seen told : List Status}
    (h : s.StatusesTold seen told) (hmemory : t.lastStatus = s.lastStatus) :
    t.StatusesTold seen told :=
  ⟨h.merged, hmemory.trans h.memory⟩

/-- What has been told of the strings depends on the memory of them alone. -/
theorem StringsTold.of_memory {t : Session} {seen told : List (List String)}
    (h : s.StringsTold seen told) (hmemory : t.stringsTold = s.stringsTold) :
    t.StringsTold seen told :=
  ⟨h.merged, hmemory.trans h.memory, h.grows, h.latest⟩

/-- Nothing is told of a status that agrees with the one told last. -/
theorem StatusesTold.again {seen told : List Status} (h : s.StatusesTold seen told)
    {status : Status} (hagrees : s.lastStatus.any (·.agrees status) = true) :
    s.StatusesTold (seen ++ [status]) told := by
  rw [h.memory, h.merged] at hagrees
  refine ⟨?_, h.memory⟩
  rw [destutter_append_status, if_pos hagrees, List.append_nil]
  exact h.merged

/-- A status that is shown is told if it differs from the last one. -/
theorem StatusesTold.tellStatus {seen told : List Status} (h : s.StatusesTold seen told)
    (status : Status) :
    (s.tellStatus status).1.StatusesTold (seen ++ [status])
      (told ++ (s.tellStatus status).2.filterMap Notice.status?) := by
  by_cases hagrees : s.lastStatus.any (·.agrees status) = true
  · have hquiet : s.tellStatus status = (s, []) := if_pos hagrees
    rw [hquiet, List.filterMap_nil, List.append_nil]
    exact h.again hagrees
  · have htells : s.tellStatus status =
        ({ s with lastStatus := some status }, [.status status]) := if_neg hagrees
    rw [h.memory, h.merged] at hagrees
    rw [htells]
    refine ⟨?_, List.getLast?_concat.symm⟩
    rw [destutter_append_status, if_neg hagrees, ← h.merged]
    rfl

/-- To tell the status is to tell neither strings nor an error. -/
theorem filterMap_tellStatus (s : Session) (status : Status) :
    (s.tellStatus status).2.filterMap Notice.strings? = [] ∧
      (s.tellStatus status).2.filterMap Notice.error? = [] := by
  unfold Session.tellStatus
  split <;> exact ⟨rfl, rfl⟩

/-- To tell strings is to tell neither a status nor an error. -/
theorem filterMap_tellMetadata (s : Session) (strings : List String) :
    (s.tellMetadata strings).2.filterMap Notice.status? = [] ∧
      (s.tellMetadata strings).2.filterMap Notice.error? = [] := by
  unfold Session.tellMetadata
  split <;> exact ⟨rfl, rfl⟩

/-- Behind a status that agrees with itself, the one told last agrees with it. -/
theorem agrees_tellStatus (s : Session) {status : Status} (hself : status.agrees status = true) :
    (s.tellStatus status).1.lastStatus.any (·.agrees status) = true := by
  by_cases hagrees : s.lastStatus.any (·.agrees status) = true
  · have hquiet : s.tellStatus status = (s, []) := if_pos hagrees
    rw [hquiet]
    exact hagrees
  · have htells : s.tellStatus status =
        ({ s with lastStatus := some status }, [.status status]) := if_neg hagrees
    rw [htells]
    exact hself

/-- Nothing is told of strings that have not changed. -/
theorem StringsTold.again {seen told : List (List String)} (h : s.StringsTold seen told)
    {strings : List String} (hlatest : seen.getLast? = some strings) :
    s.StringsTold (seen ++ [strings]) told := by
  refine ⟨?_, h.memory, h.grows, ?_⟩
  · have hkept : ((seen.destutter Longer).getLast?.map List.length).any
        (strings.length ≤ ·) = true := by
      rw [← h.merged, h.latest, hlatest]
      exact decide_eq_true (Nat.le_refl _)
    rw [destutter_append_strings, if_pos hkept, List.append_nil]
    exact h.merged
  · rw [h.latest, hlatest, List.getLast?_concat]

/-- Strings that are shown are told if there are more of them than before. -/
theorem StringsTold.tellMetadata {seen told : List (List String)} (h : s.StringsTold seen told)
    {strings : List String} (hextends : ∀ before ∈ seen.getLast?, before <+: strings) :
    (s.tellMetadata strings).1.StringsTold (seen ++ [strings])
      (told ++ (s.tellMetadata strings).2.filterMap Notice.strings?) := by
  by_cases hknown : s.stringsTold.any (strings.length ≤ ·) = true
  · have hquiet : s.tellMetadata strings = (s, []) := if_pos hknown
    rw [hquiet, List.filterMap_nil, List.append_nil]
    apply h.again
    -- no more strings than before, and those before in front: they are the same
    rw [h.memory, h.latest] at hknown
    cases hlatest : seen.getLast? with
    | none =>
      rw [hlatest] at hknown
      exact absurd hknown Bool.false_ne_true
    | some before =>
      rw [hlatest] at hknown
      have hle : strings.length ≤ before.length := of_decide_eq_true hknown
      rw [(hextends before hlatest).eq_of_length_le hle]
  · have htells : s.tellMetadata strings =
        ({ s with stringsTold := some strings.length }, [.metadata strings]) := if_neg hknown
    rw [h.memory] at hknown
    rw [htells]
    refine ⟨?_, ?_, ?_, ?_⟩
    · rw [h.merged] at hknown
      rw [destutter_append_strings, if_neg hknown, ← h.merged]
      rfl
    · show some strings.length = (told ++ [strings]).getLast?.map List.length
      rw [List.getLast?_concat]
      rfl
    · refine List.isChain_append.2 ⟨h.grows, List.isChain_singleton _, ?_⟩
      intro before hbefore after hafter
      obtain rfl : strings = after := Option.some.inj hafter
      refine ⟨hextends before (h.latest ▸ hbefore), ?_⟩
      rintro rfl
      rw [hbefore] at hknown
      exact hknown (decide_eq_true (Nat.le_refl _))
    · show (told ++ [strings]).getLast? = _
      rw [List.getLast?_concat, List.getLast?_concat]

/-- A rendered frame tells its strings and then its status. -/
def report (s : Session) (strings : List String) (status : Status) : Session × List Notice :=
  let (s, told) := s.tellMetadata strings
  let (s, statuses) := s.tellStatus status
  (s, told ++ statuses)

end Telling

/-- What a session has told of the frames it has handed out, and what it has told of
the error that its bytes are the message of. -/
structure Mirrors (error : Option SourceError) (s : Session) (frames : List Frame)
    (heard : List Notice) : Prop where
  statuses : s.StatusesTold (frames.map Frame.status) (heard.filterMap Notice.status?)
  strings : s.StringsTold (frames.filterMap Frame.metadata) (heard.filterMap Notice.strings?)
  errors : heard.filterMap Notice.error? =
    if (frames.filterMap Frame.metadata).isEmpty then [] else error.toList

section Mirroring

variable {error : Option SourceError} {s : Session} {frames : List Frame} {heard : List Notice}

/-- Whether notices mirror frames depends on the memory of what was told alone. -/
theorem Mirrors.of_memory {t : Session} (h : s.Mirrors error frames heard)
    (hstatus : t.lastStatus = s.lastStatus) (hstrings : t.stringsTold = s.stringsTold) :
    t.Mirrors error frames heard :=
  ⟨h.statuses.of_memory hstatus, h.strings.of_memory hstrings, h.errors⟩

/-- The strings of one more frame come behind those of the frames before. -/
theorem metadata_append {f : Frame} {strings : List String} (hmetadata : f.metadata = some strings)
    (frames : List Frame) :
    (frames ++ [f]).filterMap Frame.metadata = frames.filterMap Frame.metadata ++ [strings] := by
  rw [List.filterMap_append, List.filterMap_cons, hmetadata]
  rfl

/-- Behind a rendered frame there are strings. -/
theorem isEmpty_metadata_append {f : Frame} {strings : List String}
    (hmetadata : f.metadata = some strings) (frames : List Frame) :
    ((frames ++ [f]).filterMap Frame.metadata).isEmpty = false := by
  rw [metadata_append hmetadata]
  exact List.isEmpty_eq_false_iff.2 (List.concat_ne_nil _ _)

/-- A frame that shows again what the last one said needs no notice. -/
theorem Mirrors.again (h : s.Mirrors error frames heard) {f : Frame} {strings : List String}
    (hmetadata : f.metadata = some strings)
    (hlatest : (frames.filterMap Frame.metadata).getLast? = some strings)
    (hagrees : s.lastStatus.any (·.agrees f.status) = true) :
    s.Mirrors error (frames ++ [f]) heard := by
  refine ⟨?_, ?_, ?_⟩
  · rw [List.map_append]
    exact h.statuses.again hagrees
  · rw [metadata_append hmetadata]
    exact h.strings.again hlatest
  · have hshown : (frames.filterMap Frame.metadata).isEmpty = false :=
      List.isEmpty_eq_false_iff.2 (List.ne_nil_of_mem (List.mem_of_getLast? hlatest))
    rw [isEmpty_metadata_append hmetadata, h.errors, hshown]

/-- **A rendered frame** is reported, behind notices that are about neither status nor
strings. -/
theorem Mirrors.report (h : s.Mirrors error frames heard) {f : Frame} {strings : List String}
    (hmetadata : f.metadata = some strings)
    (hextends : ∀ before ∈ (frames.filterMap Frame.metadata).getLast?, before <+: strings)
    {extra : List Notice} (hstatuses : extra.filterMap Notice.status? = [])
    (hstrings : extra.filterMap Notice.strings? = [])
    (herrors : extra.filterMap Notice.error? =
      if (frames.filterMap Frame.metadata).isEmpty then error.toList else []) :
    (s.report strings f.status).1.Mirrors error (frames ++ [f])
      (heard ++ (extra ++ (s.report strings f.status).2)) := by
  let t := (s.tellMetadata strings).1
  have hreport : s.report strings f.status =
      ((t.tellStatus f.status).1, (s.tellMetadata strings).2 ++ (t.tellStatus f.status).2) := rfl
  obtain ⟨told, htold⟩ := s.tellMetadata_fst strings
  obtain ⟨told', htold'⟩ := t.tellStatus_fst f.status
  obtain ⟨hstringless, herrorless⟩ := t.filterMap_tellStatus f.status
  obtain ⟨hstatusless, herrorless'⟩ := s.filterMap_tellMetadata strings
  rw [hreport]
  refine ⟨?_, ?_, ?_⟩
  · have hkept := congrArg Session.lastStatus htold
    have htells := (h.statuses.of_memory (t := t) hkept).tellStatus f.status
    rw [List.map_append, List.filterMap_append, List.filterMap_append, List.filterMap_append,
      hstatuses, hstatusless]
    exact htells
  · have htells := h.strings.tellMetadata hextends
    have hkept := congrArg Session.stringsTold htold'
    rw [metadata_append hmetadata, List.filterMap_append, List.filterMap_append,
      List.filterMap_append, hstrings, hstringless, List.append_nil]
    exact htells.of_memory hkept
  · rw [isEmpty_metadata_append hmetadata, List.filterMap_append,
      List.filterMap_append, List.filterMap_append, herrorless, herrorless', h.errors, herrors]
    cases (frames.filterMap Frame.metadata).isEmpty
    · exact List.append_nil _
    · exact List.append_nil _

end Mirroring

end Session

end BaudReel
