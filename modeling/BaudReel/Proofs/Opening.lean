import BaudReel.Proofs.Turn

/-!
# The source is opened once

Of all the turns of a session only one reads its source: the one at which the
session begins to play (`Session.opens`).  Any other turn leaves the source alone,
and all it may look at is whether the bytes are there (`turn_of_not_opens`); a
session without a source behind it would take the same turn.

Where the stream has been opened it is never opened again (`Opened.turn`), so that
in the course of a session the turn that opens it is the first one, or the one
behind the placeholder (`opens_turns`).
-/

namespace BaudReel

namespace Source

/-- Asking again makes no difference. -/
theorem resolve_resolve {source : Source} {acquired : Acquired}
    (h : source.resolve.1 = some acquired) :
    source.resolve.2.resolve = (some acquired, source.resolve.2) := by
  cases source with
  | bytes data =>
    cases h
    rfl
  | pending p =>
    have hkept : p.resolve.2.outcome = some acquired := Pending.outcome_resolve h
    show ((p.resolve.2.resolve).1, Source.pending (p.resolve.2.resolve).2) = _
    rw [Pending.resolve_of_outcome hkept]
    rfl

/-- Who was told the bytes has them there from then on. -/
theorem isReady_resolve {source : Source} {acquired : Acquired}
    (h : source.resolve.1 = some acquired) : source.resolve.2.isReady = true := by
  cases source with
  | bytes data => rfl
  | pending p =>
    have hkept : p.resolve.2.outcome = some acquired := Pending.outcome_resolve h
    show p.resolve.2.outcome.isSome = true
    rw [hkept]
    rfl

/-- What a source comes to give: its outcome, or what one is told who asks again
because its acquisition broke off. -/
def yield (source : Source) : Acquired :=
  source.resolve.1.getD .spent

/-- What a source yields is what it gives when it is opened, if it gives something. -/
theorem yield_of_resolve {source : Source} {acquired : Acquired}
    (h : source.resolve.1 = some acquired) : source.yield = acquired := by
  rw [yield, h]
  rfl

/-- Asking does not change what a source comes to give. -/
theorem yield_resolve (source : Source) : source.resolve.2.yield = source.yield := by
  cases source with
  | bytes data => rfl
  | pending p =>
    obtain ⟨loader, outcome, runs⟩ := p
    cases outcome with
    | some acquired => rfl
    | none =>
      cases loader with
      | none => rfl
      | some loader => cases loader <;> rfl

end Source

namespace Session

/-- Whether the next turn acquires the source and opens the stream. -/
def opens (s : Session) (source : Source) : Bool :=
  match s.phase with
  | .start => source.isReady
  | .opening => true
  | _ => false

/-- The stream has been opened. -/
def Opened (s : Session) : Prop :=
  s.phase ≠ .start ∧ s.phase ≠ .opening

section Turns

variable {s : Session} {source : Source}

/-- A turn that opens the source acquires it. -/
theorem turn_of_opens (h : s.opens source = true) : s.turn source = s.acquire source := by
  unfold opens at h
  split at h
  · next hphase => exact turn_of_ready hphase h
  · next hphase => exact turn_of_opening hphase
  · exact absurd h Bool.false_ne_true

/-- **A turn that opens nothing** leaves the source as it is, and goes the same way
with any other source, be its bytes there or not. -/
theorem turn_of_not_opens (h : s.opens source = false) {other : Source}
    (hother : other.isReady = source.isReady) :
    s.turn other = { s.turn source with source := other } := by
  cases hphase : s.phase with
  | start =>
    have hready : source.isReady = false := by
      rw [opens, hphase] at h
      exact h
    have hsource : ¬source.isReady := by simp [hready]
    have hother' : ¬other.isReady := by simp [hother, hready]
    rw [turn_of_waiting hphase hsource, turn_of_waiting hphase hother']
    rfl
  | opening =>
    rw [opens, hphase] at h
    exact absurd h Bool.noConfusion
  | playing reel burst later =>
    rw [turn_of_playing hphase, turn_of_playing hphase]
    rfl
  | sustaining last begun =>
    rw [turn_of_sustaining hphase, turn_of_sustaining hphase]
    rfl
  | done => rw [turn_of_done hphase, turn_of_done hphase]

/-- To acquire a source is to resolve it. -/
theorem source_acquire (s : Session) (source : Source) :
    (s.acquire source).source = source.resolve.2 := by
  unfold acquire
  rcases source.resolve with ⟨_ | acquired, after⟩ <;> rfl

/-- A turn leaves the source alone unless it opens it. -/
theorem source_turn (s : Session) (source : Source) :
    (s.turn source).source = if s.opens source then source.resolve.2 else source := by
  by_cases hopens : s.opens source
  · rw [if_pos hopens, turn_of_opens hopens, source_acquire]
  · have hleft := turn_of_not_opens (Bool.not_eq_true _ ▸ hopens) (rfl : source.isReady = _)
    rw [if_neg hopens, hleft]

/-- A session that has opened its source does not open it again. -/
theorem Opened.opens_eq (h : s.Opened) : s.opens source = false := by
  obtain ⟨hstart, hopening⟩ := h
  unfold opens
  split
  · next hphase => exact absurd hphase hstart
  · next hphase => exact absurd hphase hopening
  · rfl

/-- Behind the last burst the source has been opened. -/
theorem opened_of_phaseAfter {t : Session} {last : Frame} (h : t.phase = s.phaseAfter last) :
    t.Opened := by
  unfold phaseAfter at h
  split at h <;> exact ⟨h ▸ Phase.noConfusion, h ▸ Phase.noConfusion⟩

/-- Behind a burst the source has been opened. -/
theorem opened_playBurst (s : Session) (reel : Reel) (burst : Burst) (later : List Burst) :
    (s.playBurst reel burst later).2.1.Opened := by
  cases later with
  | nil => exact opened_of_phaseAfter rfl
  | cons next rest => exact ⟨Phase.noConfusion, Phase.noConfusion⟩

/-- A session that begins to play has opened its source. -/
theorem opened_begin (s : Session) (acquired : Acquired) : (s.begin acquired).2.1.Opened := by
  rw [begin]
  cases Burst.plan s.config acquired.data.length with
  | nil => exact ⟨Phase.noConfusion, Phase.noConfusion⟩
  | cons burst later => exact opened_playBurst _ _ burst later

/-- What is open stays open. -/
theorem Opened.turn (h : s.Opened) (source : Source) : (s.turn source).session.Opened := by
  cases hphase : s.phase with
  | start => exact absurd hphase h.1
  | opening => exact absurd hphase h.2
  | playing reel burst later =>
    rw [turn_of_playing hphase]
    exact opened_playBurst _ _ _ _
  | sustaining last begun =>
    rw [turn_of_sustaining hphase]
    exact ⟨Phase.noConfusion, Phase.noConfusion⟩
  | done =>
    rw [turn_of_done hphase]
    exact h

/-- A session that has opened its source has done so for good. -/
theorem Opened.turns (h : s.Opened) (source : Source) (n : Nat) :
    (s.turns source n).1.Opened := by
  induction n generalizing s source with
  | zero => exact h
  | succ n ih => exact ih (h.turn source) _

end Turns

/-- **Once only.**  In the course of a session the turn behind the placeholders
opens the stream, and no other turn does. -/
theorem opens_turns (config : Config) (sustain : Bool) {source : Source} {acquired : Acquired}
    (h : source.resolve.1 = some acquired) (n : Nat) :
    ((unbegun config sustain).turns source n).1.opens ((unbegun config sustain).turns source n).2 =
      decide (n = source.placeholders) := by
  have hopened : ∀ (s : Session) (later : Nat), s.opens source = true →
      (s.turns source (later + 1)).1.Opened := by
    intro s later hopens
    have hbegun : (s.turn source).session.Opened := by
      rw [turn_of_opens hopens, acquire_eq s h]
      exact opened_begin s acquired
    exact hbegun.turns _ later
  unfold Source.placeholders
  by_cases hready : source.isReady
  · rw [if_pos hready]
    cases n with
    | zero => exact hready
    | succ n =>
      have hbehind := hopened (unbegun config sustain) n hready
      exact hbehind.opens_eq.trans (decide_eq_false (Nat.succ_ne_zero n)).symm
  · rw [if_neg hready]
    have hwaits : (unbegun config sustain).turn source =
        .ofMade source (unbegun config sustain).placeholder := turn_of_waiting rfl hready
    cases n with
    | zero => exact Bool.not_eq_true _ ▸ hready
    | succ n =>
      rw [turns, hwaits]
      cases n with
      | zero => rfl
      | succ n =>
        have hbehind := hopened (unbegun config sustain).placeholder.2.1 n rfl
        exact hbehind.opens_eq.trans (decide_eq_false (by omega)).symm

end Session

namespace Performance

variable {σ : Type} (stage : Stage σ)

/-- Whether the next call opens the source. -/
def opens (p : Performance σ) : Bool :=
  !stage.cancelled p.world && p.session.opens p.source

/-- A call that leaves the source alone.  It makes no difference to it what the
source is, apart from whether the bytes are there, and the source stays what it
was. -/
def LeavesSource (p : Performance σ) : Prop :=
  ∀ other : Source, other.isReady = p.source.isReady →
    ({ p with source := other } : Performance σ).next stage =
      ((p.next stage).1, { (p.next stage).2 with source := other })

variable {stage} {p : Performance σ}

/-- A call that opens the source is that: it asks for the bytes and begins to play
them. -/
theorem next_of_opens (h : p.opens stage = true) : p.next stage = p.begin stage := by
  obtain ⟨hawake, hopens⟩ := Bool.and_eq_true_iff.1 h
  have hpause : p.session.pause? = none := by
    have hphase := hopens
    unfold Session.opens at hphase
    unfold Session.pause?
    split at hphase
    · next hstart => rw [hstart]
    · next hopening => rw [hopening]
    · exact absurd hphase Bool.false_ne_true
  rw [next_eq, if_neg (by simpa using hawake), hpause, begin_eq, ← Session.turn_of_opens hopens]
  rfl

/-- A call that does not open the source leaves it alone. -/
theorem leavesSource_of_not_opens (h : p.opens stage = false) : p.LeavesSource stage := by
  intro other hother
  rw [next_eq, next_eq]
  by_cases hcancelled : stage.cancelled p.world
  · rw [if_pos hcancelled, if_pos hcancelled]
    rfl
  · rw [if_neg hcancelled, if_neg hcancelled]
    have hopens : p.session.opens p.source = false := by
      rw [opens, Bool.eq_false_iff.2 hcancelled] at h
      exact h
    have hturn := Session.turn_of_not_opens hopens hother
    cases p.session.pause? with
    | none =>
      show takeTurn stage _ = _
      unfold takeTurn
      rw [hturn]
    | some time =>
      by_cases hwait : (stage.wait time p.world).1
      · simp only [if_pos hwait]
        unfold takeTurn
        dsimp only
        rw [hturn]
      · simp only [if_neg hwait]
        rfl

end Performance

end BaudReel
