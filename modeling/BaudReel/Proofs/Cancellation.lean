import BaudReel.Proofs.Turn
import BaudReel.Rehearsal

/-!
# Cancellation is final and silent

A session can be cancelled at any time: between two calls, while one of them
waits, or by the stage while it takes a notice.  A call looks whether it is
cancelled before anything else, so that every call that begins under a
cancellation ends the session and asks nothing of anybody (`EndsSilently`).  It
leaves the world as it is, and with it the cancellation: this is the invariant
of every run that follows (`Later.cancelled`).

What remains is the one call that is under way.  If it waits, the wait is not
completed, and the call ends there.  If it tells the stage something, its frame
is made already and may still be handed out, but it is the last one.
-/

namespace BaudReel

/-- What is asked of a stage that can be cancelled: a wait under a cancellation
is not completed, whether the cancellation came before the wait or during it,
and no notice takes a cancellation back. -/
structure Stage.Heeds {σ : Type} (stage : Stage σ) : Prop where
  wait_heeds : ∀ time w, stage.cancelled (stage.wait time w).2 = true →
    (stage.wait time w).1 = false
  tell_keeps : ∀ notice w, stage.cancelled w = true → stage.cancelled (stage.tell notice w) = true

theorem Stage.Heeds.tellAll_keeps {σ : Type} {stage : Stage σ} (h : stage.Heeds)
    (notices : List Notice) {w : σ} (hw : stage.cancelled w = true) :
    stage.cancelled (stage.tellAll notices w) = true := by
  induction notices generalizing w with
  | nil => exact hw
  | cons notice notices ih =>
    have htold := h.tell_keeps notice w hw
    exact ih htold

/-- The stage with a record of all that it is asked. -/
def Stage.recorded {σ : Type} (stage : Stage σ) : Stage (σ × List Occurrence) where
  cancelled w := stage.cancelled w.1
  wait time w :=
    let (completed, world) := stage.wait time w.1
    (completed, world, w.2 ++ [.waited time completed])
  tell notice w := (stage.tell notice w.1, w.2 ++ [.told notice])

namespace Performance

variable {σ : Type} {stage : Stage σ}

/-- The performance with a record so far. -/
def withRecord (p : Performance σ) (record : List Occurrence) :
    Performance (σ × List Occurrence) where
  session := p.session
  source := p.source
  world := (p.world, record)

/-- A call without a frame, behind which the session is over.  It asks nothing of
the stage, neither a wait nor to take a notice, and nothing of the source. -/
structure EndsSilently (stage : Stage σ) (p : Performance σ) : Prop where
  ended : (p.next stage).1 = .ended
  done : (p.next stage).2.session.phase = .done
  untouched : (p.next stage).2.world = p.world
  unasked : ∀ record, ((p.withRecord record).next stage.recorded).2.world.2 = record
  unread : (p.next stage).2.source = p.source

/-- What may become of a performance: calls for the next frame, and in between
whatever others do to the stage and to the source, as long as they take no
cancellation back. -/
inductive Later (stage : Stage σ) : Performance σ → Performance σ → Prop where
  | refl (p : Performance σ) : Later stage p p
  | call {p q : Performance σ} : Later stage p q → Later stage p (q.next stage).2
  | withoutSustain {p q : Performance σ} : Later stage p q →
      Later stage p { q with session := q.session.withoutSustain }
  | outside {p q : Performance σ} (world : σ) (source : Source) : Later stage p q →
      (stage.cancelled q.world = true → stage.cancelled world = true) →
      Later stage p { q with world, source }

/-- A cancelled performance stops with the next call. -/
theorem next_of_cancelled {p : Performance σ} (h : stage.cancelled p.world = true) :
    p.next stage = p.stop := by
  rw [next_eq, if_pos h]

/-- A cancelled performance ends without a word. -/
theorem endsSilently_of_cancelled {p : Performance σ} (h : stage.cancelled p.world = true) :
    p.EndsSilently stage := by
  have hnext := next_of_cancelled h
  have hrecorded : ∀ record, (p.withRecord record).next stage.recorded =
      (p.withRecord record).stop := by
    intro record
    exact next_of_cancelled h
  constructor
  case unasked =>
    intro record
    rw [hrecorded]
    rfl
  all_goals
    rw [hnext]
    rfl

/-- A cancellation lasts, whatever happens. -/
theorem Later.cancelled {p q : Performance σ} (hlater : Later stage p q)
    (h : stage.cancelled p.world = true) : stage.cancelled q.world = true := by
  induction hlater with
  | refl => exact h
  | call _ ih =>
    have hnext := next_of_cancelled ih
    rw [hnext]
    exact ih
  | withoutSustain _ ih => exact ih
  | outside world source _ hkeeps ih => exact hkeeps ih

/-- **Once cancelled.**  No call ever comes to anything again. -/
theorem Later.endsSilently {p q : Performance σ} (hlater : Later stage p q)
    (h : stage.cancelled p.world = true) : q.EndsSilently stage :=
  endsSilently_of_cancelled (hlater.cancelled h)

/-- A performance stops where a wait is interrupted. -/
theorem next_of_interrupted {p : Performance σ} {time : Nat}
    (hawake : stage.cancelled p.world = false) (hpause : p.session.pause? = some time)
    (hwait : (stage.wait time p.world).1 = false) :
    p.next stage = { p with world := (stage.wait time p.world).2 }.stop := by
  rw [next_eq, if_neg (Bool.not_eq_true _ ▸ hawake), hpause]
  exact if_neg (Bool.not_eq_true _ ▸ hwait)

/-- **Cancellation is final and silent.**

* Every call under a cancellation, and every call of whatever follows, ends
  silently.
* A call that is cancelled in its wait has no frame, and the wait is all that it
  asks: it gives no notice.  Every later call ends silently.
* A call whose stage is cancelled while it takes the notices is the last one
  with a frame: every later call ends silently. -/
theorem cancellation_is_final (hheeds : stage.Heeds) (p : Performance σ) :
    (stage.cancelled p.world = true → ∀ q, Later stage p q → q.EndsSilently stage) ∧
    (∀ time, p.session.pause? = some time → stage.cancelled p.world = false →
      stage.cancelled (stage.wait time p.world).2 = true →
        (p.next stage).1 = .ended ∧ (p.next stage).2.session.phase = .done ∧
        (p.next stage).2.world = (stage.wait time p.world).2 ∧
        (∀ record, ((p.withRecord record).next stage.recorded).2.world.2 =
          record ++ [.waited time false]) ∧
        (p.next stage).2.source = p.source ∧
        ∀ q, Later stage (p.next stage).2 q → q.EndsSilently stage) ∧
    (∀ front rest, p.Undisturbed stage →
      (p.session.turn p.source).notices = front ++ rest →
      stage.cancelled (stage.tellAll front (p.pausedWorld stage)) = true →
        (p.next stage).1 = (p.session.turn p.source).step ∧
        ∀ q, Later stage (p.next stage).2 q → q.EndsSilently stage) := by
  refine ⟨?_, ?_, ?_⟩
  · intro hcancelled q hlater
    exact hlater.endsSilently hcancelled
  · intro time hpause hawake hcancelled
    have hwait := hheeds.wait_heeds time p.world hcancelled
    have hrecord : ∀ record, ((p.withRecord record).next stage.recorded).2.world.2 =
        record ++ [.waited time false] := by
      intro record
      have hrecorded : (stage.recorded.wait time (p.world, record)).1 = false := hwait
      have hinterrupted := next_of_interrupted (p := p.withRecord record) hawake hpause hrecorded
      rw [hinterrupted, ← hwait]
      rfl
    rw [next_of_interrupted hawake hpause hwait]
    refine ⟨rfl, rfl, rfl, hrecord, rfl, ?_⟩
    intro q hlater
    exact hlater.endsSilently hcancelled
  · intro front rest hundisturbed hnotices hcancelled
    have hworld : stage.cancelled (p.next stage).2.world = true := by
      -- the notices behind the cancellation are still given
      have hrest := hheeds.tellAll_keeps rest hcancelled
      rw [hundisturbed.next_eq]
      show stage.cancelled (stage.tellAll (p.session.turn p.source).notices _) = true
      rw [hnotices, Stage.tellAll, List.foldl_append]
      exact hrest
    refine ⟨hundisturbed.result_zero, ?_⟩
    intro q hlater
    exact hlater.endsSilently hworld

end Performance

namespace Rehearsal

/-- A rehearsal takes no cancellation back, and completes no wait under one. -/
theorem heeds : stage.Heeds where
  wait_heeds time r h := by
    let tokens := if r.clock.asked + 1 = r.clock.cancelAt then r.tokens.cancel r.token else r.tokens
    have hcancelled : tokens.isCancelled r.token = true := h
    show (r.clock.clock.wait time (tokens.isCancelled r.token)).1 = false
    rw [hcancelled]
    rfl
  tell_keeps notice r h := by
    cases notice with
    | beep =>
      show Tokens.isCancelled (if _ then _ else _) r.token = true
      split
      · exact Tokens.isCancelled_cancel_of_isCancelled r.listenerToken h
      · exact h
    | status => exact h
    | metadata => exact h
    | failed => exact h

/-- A rehearsal of a session that rings the bell in its last burst. -/
def ofBell (r : Rehearsal) : Performance Rehearsal where
  session :=
    { config := {}
      phase := .playing ⟨#[0x07], none, .rendering 1 1 1 1 false⟩ ⟨0, 1⟩ []
      blinkLeft := 10 }
  source := .bytes [0x07]
  world := r

end Rehearsal

namespace Performance

/-- Rehearsals that are cancelled before the source is read, in the wait before
the last burst, and at its bell. -/
theorem cancellation_is_final_rehearsed :
    ((fresh {} true (.ofLoader (.loads [0x41])) (Rehearsal.fresh 0 0).cancel).EndsSilently
      Rehearsal.stage) ∧
    ((((Rehearsal.fresh 1 0).ofBell.next Rehearsal.stage).1 = .ended ∧
      ((Rehearsal.fresh 1 0).ofBell.next Rehearsal.stage).2.EndsSilently Rehearsal.stage)) ∧
    ((∃ frame, ((Rehearsal.fresh 0 1).ofBell.next Rehearsal.stage).1 = .frame frame) ∧
      ((Rehearsal.fresh 0 1).ofBell.next Rehearsal.stage).2.EndsSilently Rehearsal.stage) := by
  refine ⟨?_, ?_, ?_⟩
  · have hfinal := cancellation_is_final Rehearsal.heeds
      (fresh {} true (.ofLoader (.loads [0x41])) (Rehearsal.fresh 0 0).cancel)
    exact hfinal.1 (by decide) _ (.refl _)
  · obtain ⟨-, hwait, -⟩ := cancellation_is_final Rehearsal.heeds (Rehearsal.fresh 1 0).ofBell
    obtain ⟨hended, -, -, -, -, hlater⟩ := hwait 50 rfl (by decide) (by decide)
    exact ⟨hended, hlater _ (.refl _)⟩
  · obtain ⟨-, -, htold⟩ := cancellation_is_final Rehearsal.heeds (Rehearsal.fresh 0 1).ofBell
    have hcompletes : ∀ time ∈ (Rehearsal.fresh 0 1).ofBell.session.pause?,
        (Rehearsal.stage.wait time (Rehearsal.fresh 0 1)).1 = true := by
      intro time htime
      cases htime
      decide
    obtain ⟨hframe, hlater⟩ := htold [.beep] _ ⟨by decide, hcompletes⟩ rfl (by decide)
    exact ⟨⟨_, hframe⟩, hlater _ (.refl _)⟩

end Performance

end BaudReel
