import BaudReel.Proofs.Opening
import BaudReel.Proofs.Progress

/-!
# The way into a stream

Some calls may come before the one that opens the stream.  The placeholder takes one,
if the bytes are not there at first, and an acquisition that breaks off takes another;
the session asks again then, and is told that the acquisition is spent.  There are
`Source.leadIn` such calls, and none of them plays anything (`turn_of_lt_leadIn`).

So whatever the source is, it yields a stream in the end, and the call behind those
opens it (`turns_leadIn`, `turn_entered`).  From there on every turn is known
(`ahead_of_leadIn`).
-/

namespace BaudReel

namespace Source

variable {source : Source}

/-- How many calls come before the one that opens the stream. -/
def leadIn (source : Source) : Nat :=
  source.placeholders + if source.resolve.1.isSome then 0 else 1

/-- The source that the call which opens the stream asks: it has been asked before if
its acquisition broke off. -/
def entered (source : Source) : Source :=
  if source.resolve.1.isSome then source else source.resolve.2

/-- An acquisition that breaks off was not there before, and whoever asks next is told
what the source yields. -/
theorem resolve_of_brokenOff (h : source.resolve.1 = none) :
    ¬source.isReady ∧ source.resolve.2.resolve.1 = some source.yield := by
  cases source with
  | bytes data => exact absurd h (Option.some_ne_none _)
  | pending p =>
    obtain ⟨loader, outcome, runs⟩ := p
    cases outcome with
    | some acquired => exact absurd h (Option.some_ne_none _)
    | none =>
      cases loader with
      | none => exact absurd h (Option.some_ne_none _)
      | some loader =>
        cases loader with
        | loads data => exact absurd h (Option.some_ne_none _)
        | fails error => exact absurd h (Option.some_ne_none _)
        | breaksOff => exact ⟨Bool.false_ne_true, rfl⟩

/-- A source that is entered gives what it yields. -/
theorem resolve_entered (source : Source) : source.entered.resolve.1 = some source.yield := by
  unfold entered
  cases hresolve : source.resolve.1 with
  | none => exact (resolve_of_brokenOff hresolve).2
  | some acquired =>
    have hgiven : (some acquired).isSome = true := rfl
    rw [if_pos hgiven, yield_of_resolve hresolve, hresolve]

/-- A source that gives something at once has no calls in front of it but placeholders. -/
theorem leadIn_of_resolve {acquired : Acquired} (h : source.resolve.1 = some acquired) :
    source.leadIn = source.placeholders := by
  rw [leadIn, h]
  rfl

/-- A call is in front of the one that opens the stream, is that one, or is behind it. -/
theorem call_cases (source : Source) (m : Nat) :
    m < source.leadIn ∨ m = source.leadIn ∨ ∃ k, m = source.leadIn + (k + 1) := by
  rcases Nat.lt_trichotomy m source.leadIn with hlt | heq | hgt
  · exact .inl hlt
  · exact .inr (.inl heq)
  · exact .inr (.inr ⟨m - source.leadIn - 1, by omega⟩)

/-- The placeholder comes in front of the stream. -/
theorem placeholders_le_leadIn (source : Source) : source.placeholders ≤ source.leadIn :=
  Nat.le_add_right _ _

/-- Calls in front of the stream begin with the placeholder. -/
theorem placeholders_of_leadIn_pos (h : 0 < source.leadIn) : source.placeholders = 1 := by
  cases hresolve : source.resolve.1 with
  | none => exact if_neg (resolve_of_brokenOff hresolve).1
  | some acquired =>
    rw [leadIn_of_resolve hresolve] at h
    exact Nat.le_antisymm source.placeholders_le_one h

end Source

namespace Session

section Course

variable (config : Config) (sustain : Bool) {source : Source}

/-- Turns in two parts, one behind the other. -/
theorem turns_add (s : Session) (source : Source) (m n : Nat) :
    s.turns source (m + n) = (s.turns source m).1.turns (s.turns source m).2 n := by
  induction m generalizing s source with
  | zero => rw [Nat.zero_add]; rfl
  | succ m ih =>
    rw [Nat.add_right_comm]
    exact ih _ _

/-- As long as the bytes are not there, the turn is that of the placeholder. -/
theorem turns_of_lt_placeholders {n : Nat} (h : n < source.placeholders) :
    (unbegun config sustain).turns source n = (unbegun config sustain, source) ∧
      (unbegun config sustain).turn source =
        .ofMade source (unbegun config sustain).placeholder := by
  have hwaiting : ¬source.isReady := by
    intro hready
    rw [Source.placeholders, if_pos hready] at h
    exact absurd h (Nat.not_lt_zero n)
  have hle := source.placeholders_le_one
  obtain rfl : n = 0 := by omega
  exact ⟨rfl, turn_of_waiting rfl hwaiting⟩

/-- Behind the placeholder, if there is one, comes the turn that acquires the
source. -/
theorem turns_placeholders (source : Source) :
    (unbegun config sustain).turns source source.placeholders =
      (readied config sustain source, source) := by
  unfold Source.placeholders readied
  by_cases hready : source.isReady
  · rw [if_pos hready, if_pos hready]
    rfl
  · rw [if_neg hready, if_neg hready, turns, turn_of_waiting rfl hready]
    rfl

/-- The placeholder leaves behind a session that has shown nothing else. -/
theorem readied_of_waiting (hwaiting : ¬source.isReady) :
    readied config sustain source =
      { unbegun config sustain with lastStatus := some {}, phase := .opening } := by
  rw [readied, if_neg hwaiting]
  rfl

/-- Before the stream is opened there is the turn of the placeholder, and behind it the
one in which the acquisition breaks off. -/
theorem turn_of_lt_leadIn {n : Nat} (h : n < source.leadIn) :
    let here := (unbegun config sustain).turns source n
    (n = 0 ∧ here = (unbegun config sustain, source) ∧
      here.1.turn here.2 = .ofMade source (unbegun config sustain).placeholder) ∨
    (n = 1 ∧ here = (readied config sustain source, source) ∧ source.resolve.1 = none ∧
      here.1.turn here.2 = ⟨.brokenOff, readied config sustain source, source.resolve.2, []⟩) := by
  intro here
  by_cases hplaceholder : n < source.placeholders
  · obtain ⟨hturns, hturn⟩ := turns_of_lt_placeholders config sustain hplaceholder
    have hle := source.placeholders_le_one
    have hhere : here = (unbegun config sustain, source) := hturns
    refine .inl ⟨by omega, hhere, ?_⟩
    rw [hhere]
    exact hturn
  · have hbroken : source.resolve.1 = none := by
      cases hresolve : source.resolve.1 with
      | none => rfl
      | some acquired =>
        rw [Source.leadIn_of_resolve hresolve] at h
        exact absurd h hplaceholder
    obtain ⟨hwaiting, -⟩ := Source.resolve_of_brokenOff hbroken
    have hone : source.placeholders = 1 := if_neg hwaiting
    have hn : n = source.placeholders := by
      rw [Source.leadIn, hbroken] at h
      exact Nat.le_antisymm (Nat.le_of_lt_succ h) (Nat.le_of_not_lt hplaceholder)
    have hhere : here = (readied config sustain source, source) := by
      rw [← turns_placeholders config sustain source, ← hn]
    refine .inr ⟨hn.trans hone, hhere, hbroken, ?_⟩
    have hreadied := readied_of_waiting config sustain hwaiting
    rw [hhere, turn_of_opening (congrArg Session.phase hreadied), acquire]
    rcases hresolve : source.resolve with ⟨made, rest⟩
    rw [hresolve] at hbroken
    subst hbroken
    rw [hreadied]

/-- **The way into a stream.**  The session that opens it has played nothing. -/
theorem turns_leadIn (source : Source) :
    (unbegun config sustain).turns source source.leadIn =
      (readied config sustain source, source.entered) := by
  have hplaceholders := turns_placeholders config sustain source
  unfold Source.entered
  cases hresolve : source.resolve.1 with
  | some acquired =>
    rw [Source.leadIn_of_resolve hresolve]
    exact hplaceholders
  | none =>
    have hlast : source.leadIn = source.placeholders + 1 := by
      rw [Source.leadIn, hresolve]
      rfl
    have hlt : source.placeholders < source.leadIn := by omega
    rcases turn_of_lt_leadIn config sustain hlt with ⟨hzero, -, -⟩ | ⟨-, -, -, hturn⟩
    · have hone : source.placeholders = 1 := if_neg (Source.resolve_of_brokenOff hresolve).1
      omega
    · rw [hlast, turns_add]
      show (Session.turn _ _).session.turns (Session.turn _ _).source 0 = _
      rw [hturn]
      rfl

/-- The turn that opens the stream plays what the source yields. -/
theorem turn_entered (source : Source) :
    (readied config sustain source).opens source.entered = true ∧
      (readied config sustain source).turn source.entered =
        .ofMade source.entered.resolve.2 ((readied config sustain source).begin source.yield) := by
  have hopens : (readied config sustain source).opens source.entered = true := by
    unfold readied
    by_cases hready : source.isReady
    · have hentered : source.entered = source := by
        unfold Source.entered
        cases hresolve : source.resolve.1 with
        | none => exact absurd hready (Source.resolve_of_brokenOff hresolve).1
        | some acquired => rfl
      rw [if_pos hready, hentered]
      exact hready
    · rw [if_neg hready]
      rfl
  refine ⟨hopens, ?_⟩
  rw [turn_of_opens hopens, acquire_eq _ source.resolve_entered]

/-- What the turns behind that come to. -/
theorem outcome_leadIn (source : Source) (n : Nat) :
    (unbegun config sustain).outcome source (source.leadIn + n) =
      (Turn.ofMade source.entered.resolve.2
        ((readied config sustain source).begin source.yield)).course n := by
  rw [← (turn_entered config sustain source).2, ← outcome_eq_course, outcome, turns_add,
    turns_leadIn]
  rfl

/-- **Every turn is known**, whatever the source is: so many turns behind the one that
opens the stream a session is ahead of as many bursts. -/
theorem ahead_of_leadIn (source : Source) (n : Nat) :
    Ahead config source.yield sustain (n + 1)
      ((unbegun config sustain).turns source (source.leadIn + (n + 1))).1 := by
  obtain ⟨hconfig, hsustain⟩ := readied_eq config sustain source
  have hbegun : Ahead config source.yield sustain 1
      ((readied config sustain source).turn source.entered).session := by
    rw [(turn_entered config sustain source).2]
    exact ahead_begin hconfig hsustain
  have hrun := hbegun.turns ((readied config sustain source).turn source.entered).source n
  rw [Nat.add_comm] at hrun
  rw [turns_add, turns_leadIn]
  exact hrun

end Course

end Session

end BaudReel
