import BaudReel.Source

/-!
# A source in many hands

A source may be copied, and its copies be copied again.  They all refer to the
same acquisition, so that it makes no difference which of them is used
(`Holders`).  Whatever the holders do, and in whatever order, the acquisition is
run by the first one who asks, and by nobody after that.  From then on everybody
is told the same outcome.

The one exception is the holder whose asking breaks the acquisition off: there is
no outcome yet, but the acquisition is used up, and the next one to ask settles
that it is spent.  So the state of an acquisition depends on nothing but how often
it was asked for (`Pending.asked_succ`), and a history of the holders on nothing
but that and the number of copies (`Holders.run_shared`).
-/

namespace BaudReel

/-- The outcome of an acquisition, once there is one. -/
def Loader.outcome : Loader → Acquired
  | .loads data => ⟨data, none⟩
  | .fails error => ⟨CodePage.encode error.message, some error⟩
  | .breaksOff =>
    ⟨CodePage.encode "source loader already consumed",
      some (.unavailable "source loader already consumed")⟩

/-- What a holder is told who asks after `earlier` others. -/
def Loader.answer (loader : Loader) (earlier : Nat) : Option Acquired :=
  if earlier = 0 ∧ loader = .breaksOff then none else some loader.outcome

/-- Whoever asks after the first one gets the outcome. -/
theorem Loader.answer_succ (loader : Loader) (earlier : Nat) :
    loader.answer (earlier + 1) = some loader.outcome :=
  if_neg fun h => Nat.succ_ne_zero earlier h.1

namespace Pending

/-- An acquisition that was asked for a number of times. -/
def asked (loader : Loader) : Nat → Pending
  | 0 => .fresh loader
  | n + 1 => (asked loader n).resolve.2

theorem resolve_used (loader : Loader) (n : Nat) :
    ({ loader := none, outcome := loader.answer n, runs := 1 } : Pending).resolve =
      (some loader.outcome, { loader := none, outcome := some loader.outcome, runs := 1 }) := by
  unfold Loader.answer
  by_cases hbroke : n = 0 ∧ loader = .breaksOff
  · obtain ⟨rfl, rfl⟩ := hbroke
    rfl
  · rw [if_neg hbroke, resolve_of_outcome rfl]

/-- Once asked for, an acquisition keeps what the last one who asked was told. -/
theorem asked_succ (loader : Loader) (n : Nat) :
    asked loader (n + 1) = { loader := none, outcome := loader.answer n, runs := 1 } := by
  induction n with
  | zero => cases loader <;> rfl
  | succ n ih => rw [asked, ih, resolve_used, Loader.answer_succ]

/-- What one more copy is told of a source that has been asked. -/
theorem resolve_asked (loader : Loader) (n : Nat) :
    (asked loader n).resolve.1 = loader.answer n := by
  cases n with
  | zero => cases loader <;> rfl
  | succ n => rw [asked_succ, resolve_used, Loader.answer_succ]

/-- The loader runs when it is asked first and never again. -/
theorem runs_asked (loader : Loader) (n : Nat) : (asked loader n).runs = min n 1 := by
  cases n with
  | zero => rfl
  | succ n =>
    rw [asked_succ]
    exact (Nat.min_eq_right (Nat.le_add_left 1 n)).symm

/-- There is an outcome as soon as somebody was told one. -/
theorem isSome_outcome_asked (loader : Loader) (n : Nat) :
    (asked loader n).outcome.isSome = ((List.range n).map loader.answer).any Option.isSome := by
  cases n with
  | zero => rfl
  | succ n =>
    rw [asked_succ, List.range_succ, List.map_append, List.any_append, List.map_singleton,
      List.any_cons, List.any_nil, Bool.or_false]
    unfold Loader.answer
    by_cases hbroke : n = 0 ∧ loader = .breaksOff
    · rw [if_pos hbroke, hbroke.1]
      rfl
    · rw [if_neg hbroke, Option.isSome_some, Bool.or_true]

end Pending

/-- What a holder does with a copy, given by its number. -/
inductive Deed where
  /-- Makes a further copy of it. -/
  | duplicate (copy : Nat)
  /-- Looks whether the bytes are there. -/
  | look (copy : Nat)
  /-- Asks for the bytes. -/
  | ask (copy : Nat)

/-- The copy that is in the holder's hands. -/
def Deed.copy : Deed → Nat
  | .duplicate copy => copy
  | .look copy => copy
  | .ask copy => copy

/-- What comes of a deed. -/
inductive Answer where
  /-- The further copy has this number. -/
  | duplicated (copy : Nat)
  | ready (there : Bool)
  /-- The bytes, or none if the acquisition breaks off. -/
  | told (acquired : Option Acquired)
  | noSuchCopy
deriving DecidableEq

/-- What an asking holder is told. -/
def Answer.told? : Answer → Option (Option Acquired)
  | .told acquired => some acquired
  | _ => none

/-- Sources, and the copies that refer to them. -/
structure Holders where
  sources : List Source
  /-- For every copy the place of the source that it refers to. -/
  copies : List Nat

namespace Holders

/-- One holder of an acquisition that nobody has asked for. -/
def sole (loader : Loader) : Holders :=
  ⟨[.ofLoader loader], [0]⟩

/-- The place and the source that a copy refers to. -/
def find? (h : Holders) (copy : Nat) : Option (Nat × Source) := do
  let place ← h.copies[copy]?
  let source ← h.sources[place]?
  return (place, source)

/-- Does a deed. -/
def act (h : Holders) : Deed → Answer × Holders
  | .duplicate copy =>
    match h.find? copy with
    | some (place, _) => (.duplicated h.copies.length, { h with copies := h.copies ++ [place] })
    | none => (.noSuchCopy, h)
  | .look copy =>
    match h.find? copy with
    | some (_, source) => (.ready source.isReady, h)
    | none => (.noSuchCopy, h)
  | .ask copy =>
    match h.find? copy with
    | some (place, source) =>
      let (acquired, source) := source.resolve
      (.told acquired, { h with sources := h.sources.set place source })
    | none => (.noSuchCopy, h)

/-- Does deeds in order. -/
def run (h : Holders) : List Deed → List Answer × Holders
  | [] => ([], h)
  | deed :: deeds =>
    let (answer, h) := h.act deed
    let (answers, h) := h.run deeds
    (answer :: answers, h)

/-- Where there is no such copy, nothing happens. -/
theorem act_of_missing {h : Holders} {deed : Deed} (hmissing : h.find? deed.copy = none) :
    h.act deed = (.noSuchCopy, h) := by
  cases deed with
  | duplicate copy =>
    have hcopy : h.find? copy = none := hmissing
    rw [act, hcopy]
  | look copy =>
    have hcopy : h.find? copy = none := hmissing
    rw [act, hcopy]
  | ask copy =>
    have hcopy : h.find? copy = none := hmissing
    rw [act, hcopy]

/-- What those who asked were told, in order. -/
def tellings (answers : List Answer) : List (Option Acquired) :=
  answers.filterMap Answer.told?

/-- How often acquisitions were run. -/
def runs (h : Holders) : Nat :=
  h.sources.foldr (fun source others => source.runs + others) 0

/-- One acquisition in the hands of `copies` holders, asked for `asked` times. -/
def shared (loader : Loader) (asked copies : Nat) : Holders :=
  ⟨[.pending (.asked loader asked)], List.replicate copies 0⟩

section Shared

variable (loader : Loader) (asked copies : Nat)

theorem find?_shared {copy : Nat} (h : copy < copies) :
    (shared loader asked copies).find? copy = some (0, .pending (.asked loader asked)) := by
  simp [find?, shared, h]

theorem find?_shared_of_le {copy : Nat} (h : copies ≤ copy) :
    (shared loader asked copies).find? copy = none := by
  simp [find?, shared, h]

/-- **One deed.**  It adds a copy, or an asking, or nothing. -/
theorem act_shared (deed : Deed) :
    ∃ more : Nat,
      (((shared loader asked copies).act deed).2 = shared loader asked (copies + more) ∧
        ((shared loader asked copies).act deed).1.told? = none) ∨
      (((shared loader asked copies).act deed).2 = shared loader (asked + 1) copies ∧
        ((shared loader asked copies).act deed).1.told? = some (loader.answer asked)) := by
  rcases Nat.lt_or_ge deed.copy copies with hcopy | hcopy
  · have hfound := find?_shared loader asked copies hcopy
    cases deed with
    | duplicate copy =>
      rw [Deed.copy] at hfound
      refine ⟨1, .inl ?_⟩
      simp only [act, hfound]
      refine ⟨?_, rfl⟩
      rw [shared, shared, List.replicate_succ']
    | look copy =>
      rw [Deed.copy] at hfound
      refine ⟨0, .inl ?_⟩
      simp only [act, hfound]
      exact ⟨rfl, rfl⟩
    | ask copy =>
      rw [Deed.copy] at hfound
      refine ⟨0, .inr ?_⟩
      simp only [act, hfound]
      exact ⟨rfl, congrArg some (Pending.resolve_asked loader asked)⟩
  · rw [act_of_missing (find?_shared_of_le loader asked copies hcopy)]
    exact ⟨0, .inl ⟨rfl, rfl⟩⟩

/-- **A history of deeds.**  It leads to one acquisition again, which was asked for
as often as somebody was told something. -/
theorem run_shared (deeds : List Deed) :
    ∃ times copies',
      ((shared loader asked copies).run deeds).2 = shared loader (asked + times) copies' ∧
      tellings ((shared loader asked copies).run deeds).1 =
        (List.range' asked times).map loader.answer := by
  induction deeds generalizing asked copies with
  | nil => exact ⟨0, copies, rfl, rfl⟩
  | cons deed deeds ih =>
    obtain ⟨more, ⟨hstate, htold⟩ | ⟨hstate, htold⟩⟩ := act_shared loader asked copies deed
    · obtain ⟨times, copies', hrun, htellings⟩ := ih asked (copies + more)
      rw [← hstate] at hrun htellings
      refine ⟨times, copies', hrun, ?_⟩
      rw [← htellings]
      exact List.filterMap_cons_none htold
    · obtain ⟨times, copies', hrun, htellings⟩ := ih (asked + 1) copies
      rw [← hstate] at hrun htellings
      refine ⟨times + 1, copies', ?_, ?_⟩
      · rw [← Nat.add_assoc, Nat.add_right_comm]
        exact hrun
      · rw [List.range'_succ, List.map_cons, ← htellings]
        exact List.filterMap_cons_some htold

end Shared

/-- **An acquisition is run once, and its outcome is kept.**  Let the holders of a
source do what they like.

* The acquisition was run once if anybody asked, and not at all otherwise, even if
  running it broke off.
* On every copy the bytes are there exactly if somebody has been told an outcome.
* Everybody who asked was told the outcome, except the first one if the
  acquisition broke off. -/
theorem acquisition_settles_once (loader : Loader) (deeds : List Deed) :
    let answers := ((sole loader).run deeds).1
    let holders := ((sole loader).run deeds).2
    holders.runs = min (tellings answers).length 1 ∧
      (∀ copy < holders.copies.length,
        (holders.act (.look copy)).1 = .ready ((tellings answers).any Option.isSome)) ∧
      ∀ n acquired, (tellings answers)[n]? = some acquired →
        acquired = if n = 0 ∧ loader = .breaksOff then none else some loader.outcome := by
  obtain ⟨times, copies, hholders, htellings⟩ := run_shared loader 0 1 deeds
  have hsole : sole loader = shared loader 0 1 := rfl
  rw [hsole]
  intro answers holders
  have htold : tellings answers = (List.range times).map loader.answer := by
    rw [List.range_eq_range']
    exact htellings
  have hshared : holders = shared loader times copies := by
    rw [← Nat.zero_add times]
    exact hholders
  rw [hshared, htold]
  refine ⟨?_, ?_, ?_⟩
  · rw [List.length_map, List.length_range, ← Pending.runs_asked loader times]
    rfl
  · intro copy hcopy
    rw [shared, List.length_replicate] at hcopy
    simp only [act, find?_shared loader times copies hcopy]
    exact congrArg Answer.ready (Pending.isSome_outcome_asked loader times)
  · intro n acquired hn
    have hlt : n < times := by
      have hbound := (List.getElem?_eq_some_iff.1 hn).1
      rwa [List.length_map, List.length_range] at hbound
    rw [List.getElem?_map, List.getElem?_range hlt] at hn
    exact (Option.some.inj hn).symm

/-- An acquisition that is broken off by the holder of a copy.  It is not run
again, the bytes are there for a copy made later, and the two who ask behind the
first one are told that it is spent. -/
theorem acquisition_settles_once_brokenOff :
    let deeds := [.duplicate 0, .ask 1, .ask 0, .duplicate 1, .ask 2]
    let answers := ((sole .breaksOff).run deeds).1
    let holders := ((sole .breaksOff).run deeds).2
    tellings answers = [none, some .spent, some .spent] ∧ holders.runs = 1 ∧
      (2 < holders.copies.length ∧ (holders.act (.look 2)).1 = .ready true) ∧
      ∃ acquired, (tellings answers)[2]? = some acquired ∧
        acquired = some Loader.breaksOff.outcome := by
  intro deeds answers holders
  obtain ⟨hruns, hlook, htold⟩ := acquisition_settles_once .breaksOff deeds
  have htellings : tellings answers = [none, some .spent, some .spent] := by decide +kernel
  have hlast : (tellings answers)[2]? = some (some .spent) := by rw [htellings]; rfl
  have hcopies : 2 < holders.copies.length := by decide
  refine ⟨htellings, ?_, ⟨hcopies, ?_⟩, some .spent, hlast, ?_⟩
  · rw [hruns, htellings]
    rfl
  · rw [hlook 2 hcopies, htellings]
    rfl
  · exact (htold 2 _ hlast).trans (if_neg (by decide))

end Holders

end BaudReel
