import BaudReel.Proofs.Cancellation

/-!
# The record of a session

While a session plays, a record can be kept of what it asks of its stage: each wait,
and each notice (`Stage.recorded`).  Keeping it changes nothing, and what a call adds
to it is known beforehand, from the session, its source and the stage
(`next_recorded`): a wait if the phase asks for one, and the notices of the turn, as
far as the call gets.

`heard` is what a stage has been told behind a number of calls.  A call that is disturbed
tells it nothing and ends the session, so that a frame is shown only where no call before
it was disturbed (`runsFreely_of_result`).
-/

namespace BaudReel

/-- The notice that a line of a record is of, if any. -/
def Occurrence.notice? : Occurrence → Option Notice
  | .waited .. => none
  | .told notice => some notice

theorem notice?_map_told (notices : List Notice) :
    (notices.map Occurrence.told).filterMap Occurrence.notice? = notices := by
  rw [List.filterMap_map]
  exact List.filterMap_some

/-- Telling notices under a record adds them to it and is heard all the same. -/
theorem Stage.tellAll_recorded {σ : Type} (stage : Stage σ) (notices : List Notice) (w : σ)
    (record : List Occurrence) :
    stage.recorded.tellAll notices (w, record) =
      (stage.tellAll notices w, record ++ notices.map Occurrence.told) := by
  induction notices generalizing w record with
  | nil => rw [List.map_nil, List.append_nil]; rfl
  | cons notice notices ih =>
    have htold : stage.recorded.tell notice (w, record) =
        (stage.tell notice w, record ++ [.told notice]) := rfl
    rw [List.map_cons, List.append_cons]
    exact (congrArg (stage.recorded.tellAll notices) htold).trans (ih _ _)

namespace Performance

variable {σ : Type} (stage : Stage σ) (p : Performance σ)

/-- What a call asks of the stage, in order. -/
def asked : List Occurrence :=
  let told := (p.session.turn p.source).notices.map Occurrence.told
  if stage.cancelled p.world then []
  else
    match p.session.pause? with
    | none => told
    | some time =>
      let completed := (stage.wait time p.world).1
      .waited time completed :: if completed then told else []

/-- A turn under a record adds its notices to it and is taken all the same. -/
theorem takeTurn_recorded (record : List Occurrence) :
    (p.withRecord record).takeTurn stage.recorded =
      ((p.takeTurn stage).1, (p.takeTurn stage).2.withRecord
        (record ++ (p.session.turn p.source).notices.map Occurrence.told)) := by
  have htold := stage.tellAll_recorded (p.session.turn p.source).notices p.world record
  exact congrArg (fun w => ((p.session.turn p.source).step,
    Performance.mk (p.session.turn p.source).session (p.session.turn p.source).source w)) htold

/-- **A record changes nothing**, and a call puts behind it what it asks. -/
theorem next_recorded (record : List Occurrence) :
    (p.withRecord record).next stage.recorded =
      ((p.next stage).1, (p.next stage).2.withRecord (record ++ p.asked stage)) := by
  rw [next_eq, next_eq, asked]
  by_cases hcancelled : stage.cancelled p.world
  · have hrecorded : stage.recorded.cancelled (p.withRecord record).world = true := hcancelled
    rw [if_pos hcancelled, if_pos hcancelled, if_pos hrecorded, List.append_nil]
    rfl
  · have hrecorded : ¬stage.recorded.cancelled (p.withRecord record).world = true := hcancelled
    have hsession : (p.withRecord record).session = p.session := rfl
    rw [if_neg hcancelled, if_neg hcancelled, if_neg hrecorded, hsession]
    cases hpause : p.session.pause? with
    | none => exact p.takeTurn_recorded stage record
    | some time =>
      by_cases hwait : (stage.wait time p.world).1
      · have hwaited : (stage.recorded.wait time (p.withRecord record).world).1 = true := hwait
        have hturn := takeTurn_recorded stage { p with world := (stage.wait time p.world).2 }
          (record ++ [.waited time (stage.wait time p.world).1])
        rw [List.append_assoc] at hturn
        simp only [if_pos hwait, if_pos hwaited]
        exact hturn
      · have hwaited : ¬(stage.recorded.wait time (p.withRecord record).world).1 = true := hwait
        simp only [if_neg hwait, if_neg hwaited]
        rfl

/-- A run under a record adds what it asks and tells, and goes on all the same. -/
theorem after_recorded (n : Nat) (record : List Occurrence) :
    (p.withRecord record).after stage.recorded n =
      (p.after stage n).withRecord
        (record ++ (List.range n).flatMap fun m => (p.after stage m).asked stage) := by
  induction n generalizing p record with
  | zero => exact congrArg p.withRecord (List.append_nil record).symm
  | succ n ih =>
    have hnext := congrArg Prod.snd (p.next_recorded stage record)
    rw [after, hnext, ih, List.append_assoc, List.range_succ_eq_map, List.flatMap_cons,
      List.flatMap_map]
    rfl

/-- What the stage has been told behind a number of calls. -/
def heard (n : Nat) : List Notice :=
  ((p.withRecord []).after stage.recorded n).world.2.filterMap Occurrence.notice?

/-- What the stage is told in one call. -/
def told : List Notice :=
  (p.asked stage).filterMap Occurrence.notice?

/-- What is heard of a run is what is told in its calls. -/
theorem heard_eq (n : Nat) :
    p.heard stage n = (List.range n).flatMap fun m => (p.after stage m).told stage := by
  rw [heard, after_recorded]
  exact List.filterMap_flatMap

/-- What is told in one more call is heard behind the rest. -/
theorem heard_succ (n : Nat) :
    p.heard stage (n + 1) = p.heard stage n ++ (p.after stage n).told stage := by
  rw [heard_eq, heard_eq, List.range_succ, List.flatMap_append, List.flatMap_singleton]

variable {stage} {p}

/-- An undisturbed call gives the notices of the turn. -/
theorem Undisturbed.told_eq (h : p.Undisturbed stage) :
    p.told stage = (p.session.turn p.source).notices := by
  have hawake : ¬stage.cancelled p.world = true := by simp [h.awake]
  rw [told, asked, if_neg hawake]
  cases hpause : p.session.pause? with
  | none => exact notice?_map_told _
  | some time =>
    have hcompleted : (stage.wait time p.world).1 = true := h.completes time hpause
    simp only [if_pos hcompleted]
    exact notice?_map_told _

/-- In a run that nothing disturbs, each call gives the notices of its turn. -/
theorem RunsFreely.told_eq {n m : Nat} (h : p.RunsFreely stage n) (hm : m < n) :
    let here := p.session.turns p.source m
    (p.after stage m).told stage = (here.1.turn here.2).notices := by
  have hstate := (h.mono (Nat.le_of_lt hm)).state_after
  obtain ⟨hsession, hsource⟩ := Prod.mk.inj hstate
  rw [(h m hm).told_eq, hsession, hsource]

/-- A call that is disturbed tells nothing, and ends the session. -/
theorem told_of_disturbed (h : ¬p.Undisturbed stage) :
    p.told stage = [] ∧ (p.next stage).1 = .ended ∧
      (p.next stage).2.session = p.session.stop ∧ (p.next stage).2.source = p.source := by
  rw [told, asked, next_eq]
  by_cases hcancelled : stage.cancelled p.world
  · rw [if_pos hcancelled, if_pos hcancelled]
    exact ⟨rfl, rfl, rfl, rfl⟩
  · rw [if_neg hcancelled, if_neg hcancelled]
    cases hpause : p.session.pause? with
    | none =>
      have hundisturbed : p.Undisturbed stage := by
        refine ⟨Bool.not_eq_true _ ▸ hcancelled, ?_⟩
        intro time htime
        rw [hpause] at htime
        exact absurd htime (Option.not_mem_none time)
      exact absurd hundisturbed h
    | some time =>
      by_cases hwait : (stage.wait time p.world).1
      · have hundisturbed : p.Undisturbed stage := by
          refine ⟨Bool.not_eq_true _ ▸ hcancelled, ?_⟩
          intro asked hasked
          rw [hpause] at hasked
          cases hasked
          exact hwait
        exact absurd hundisturbed h
      · simp only [if_neg hwait]
        exact ⟨rfl, rfl, rfl, rfl⟩

/-- A performance that is over stays so. -/
theorem next_of_done (h : p.session.phase = .done) :
    (p.next stage).1 = .ended ∧ (p.next stage).2.session.phase = .done := by
  have hpause : p.session.pause? = none := by rw [Session.pause?, h]
  rw [next_eq]
  split
  · exact ⟨rfl, rfl⟩
  · rw [hpause, takeTurn, Session.turn_of_done h]
    exact ⟨rfl, h⟩

/-- A session that is over shows nothing any more. -/
theorem result_of_done (h : p.session.phase = .done) (n : Nat) :
    p.result stage n = .ended := by
  induction n generalizing p with
  | zero => exact (next_of_done h).1
  | succ n ih => exact ih (next_of_done h).2

/-- A call that shows a frame was not disturbed. -/
theorem undisturbed_of_result {n : Nat} {f : Frame} (hframe : p.result stage n = .frame f) :
    p.Undisturbed stage := by
  refine Classical.byContradiction fun hdisturbed => ?_
  obtain ⟨-, hended, hstopped, -⟩ := told_of_disturbed hdisturbed
  have hover : p.result stage n = .ended := by
    cases n with
    | zero => exact hended
    | succ n => exact result_of_done (congrArg Session.phase hstopped) n
  exact absurd (hframe.symm.trans hover) Step.noConfusion

/-- **Only a session that nothing has disturbed shows a frame.** -/
theorem runsFreely_of_result {n : Nat} {f : Frame} (hframe : p.result stage n = .frame f) :
    p.RunsFreely stage (n + 1) := by
  induction n generalizing p with
  | zero =>
    intro m hm
    obtain rfl : m = 0 := Nat.lt_one_iff.1 hm
    exact undisturbed_of_result hframe
  | succ n ih =>
    have hrest : (p.next stage).2.RunsFreely stage (n + 1) := ih hframe
    intro m hm
    cases m with
    | zero => exact undisturbed_of_result hframe
    | succ m => exact hrest m (Nat.lt_of_succ_lt_succ hm)

end Performance

end BaudReel
