import BaudReel.Session

/-!
# Calls and turns

A call for the next frame has four parts, always in this order: it looks whether
the session is cancelled, it waits if its phase asks for a wait, it does what is
due, and it gives the notices of that to the stage.  The third part is the
session's *turn*.  It depends on session and source alone, and `next_eq` puts
the call together from it.

As long as nothing disturbs a session, its course is therefore the same on every
stage: `RunsFreely.state_after` and `RunsFreely.result_eq` read a run of calls off
the turns.  `play_eq` ties the frames that `play` collects to the single calls.
-/

namespace BaudReel

/-- What is due in a call, apart from waiting and from telling: its outcome, and
what session and source become. -/
structure Turn where
  step : Step
  session : Session
  source : Source
  notices : List Notice

/-- The turn that hands out a frame. -/
def Turn.ofMade (source : Source) (made : Frame × Session × List Notice) : Turn :=
  ⟨.frame made.1, made.2.1, source, made.2.2⟩

namespace Session

/-- The wait that a call begins with, if any. -/
def pause? (s : Session) : Option Nat :=
  match s.phase with
  | .playing .. => some s.config.frameInterval
  | .sustaining _ begun => some (s.sustainWait begun)
  | _ => none

/-- The turn that acquires the source. -/
def acquire (s : Session) (source : Source) : Turn :=
  match source.resolve with
  | (some acquired, source) => .ofMade source (s.begin acquired)
  | (none, source) => ⟨.brokenOff, { s with phase := .opening }, source, []⟩

/-- What is due for a session. -/
def turn (s : Session) (source : Source) : Turn :=
  match s.phase with
  | .start => if source.isReady then s.acquire source else .ofMade source s.placeholder
  | .opening => s.acquire source
  | .playing reel burst later => .ofMade source (s.advanceBlink.playBurst reel burst later)
  | .sustaining last _ => .ofMade source ((s.flip last).1, (s.flip last).2, [])
  | .done => ⟨.ended, s, source, []⟩

section Phases

variable {s : Session} {source : Source}

/-- Behind the placeholder the source is opened. -/
theorem turn_of_opening (h : s.phase = .opening) : s.turn source = s.acquire source := by
  rw [turn, h]

/-- A source that is ready is opened at once. -/
theorem turn_of_ready (h : s.phase = .start) (hready : source.isReady) :
    s.turn source = s.acquire source := by
  rw [turn, h]
  exact if_pos hready

/-- A source that is not ready is waited for with a placeholder. -/
theorem turn_of_waiting (h : s.phase = .start) (hready : ¬source.isReady) :
    s.turn source = .ofMade source s.placeholder := by
  rw [turn, h]
  exact if_neg hready

/-- While the stream is played, a call plays the next burst. -/
theorem turn_of_playing {reel : Reel} {burst : Burst} {later : List Burst}
    (h : s.phase = .playing reel burst later) :
    s.turn source = .ofMade source (s.advanceBlink.playBurst reel burst later) := by
  rw [turn, h]

/-- Behind the last burst, a call flips the blink phase. -/
theorem turn_of_sustaining {last : Frame} {begun : Bool} (h : s.phase = .sustaining last begun) :
    s.turn source = .ofMade source ((s.flip last).1, (s.flip last).2, []) := by
  rw [turn, h]

/-- A session that is over gives nothing more. -/
theorem turn_of_done (h : s.phase = .done) : s.turn source = ⟨.ended, s, source, []⟩ := by
  rw [turn, h]

end Phases

/-- Session and source behind a number of turns. -/
def turns (s : Session) (source : Source) : Nat → Session × Source
  | 0 => (s, source)
  | n + 1 => (s.turn source).session.turns (s.turn source).source n

/-- The outcome of the turn behind a number of turns. -/
def outcome (s : Session) (source : Source) (n : Nat) : Step :=
  ((s.turns source n).1.turn (s.turns source n).2).step

end Session

/-- The outcomes of a turn and of the turns behind it. -/
def Turn.course (t : Turn) : Nat → Step
  | 0 => t.step
  | n + 1 => t.session.outcome t.source n

/-- What calls give from some state on is the course of the first of them. -/
theorem Session.outcome_eq_course (s : Session) (source : Source) (n : Nat) :
    s.outcome source n = (s.turn source).course n := by
  cases n <;> rfl

/-- How many frames are shown before the bytes are there. -/
def Source.placeholders (source : Source) : Nat :=
  if source.isReady then 0 else 1

/-- There is one placeholder at most. -/
theorem Source.placeholders_le_one (source : Source) : source.placeholders ≤ 1 := by
  unfold placeholders
  split
  · exact Nat.zero_le 1
  · exact Nat.le_refl 1

namespace Session

/-- A session that has not begun; it may go on behind the end of the stream. -/
def unbegun (config : Config) (sustain : Bool) : Session :=
  { fresh config with sustain }

/-- A session at the turn that acquires its source. -/
def readied (config : Config) (sustain : Bool) (source : Source) : Session :=
  if source.isReady then unbegun config sustain else (unbegun config sustain).placeholder.2.1

/-- Telling the status changes nothing but the memory of it. -/
theorem tellStatus_fst (s : Session) (status : Status) :
    ∃ told, (s.tellStatus status).1 = { s with lastStatus := told } := by
  unfold tellStatus
  split
  · exact ⟨s.lastStatus, rfl⟩
  · exact ⟨some status, rfl⟩

/-- A placeholder leaves the session waiting for its source. -/
theorem placeholder_snd_fst (s : Session) :
    ∃ told, s.placeholder.2.1 = { s with lastStatus := told, phase := .opening } := by
  obtain ⟨told, htold⟩ := s.tellStatus_fst (Frame.blank s.config {}).status
  exact ⟨told, congrArg (fun t : Session => { t with phase := .opening }) htold⟩

/-- A session comes to its source with the settings it was made with. -/
theorem readied_eq (config : Config) (sustain : Bool) (source : Source) :
    (readied config sustain source).config = config ∧
      (readied config sustain source).sustain = sustain := by
  unfold readied
  split
  · exact ⟨rfl, rfl⟩
  · obtain ⟨told, htold⟩ := (unbegun config sustain).placeholder_snd_fst
    rw [htold]
    exact ⟨rfl, rfl⟩

/-- Opening a source that gives something is to begin with what it gives. -/
theorem acquire_eq (s : Session) {source : Source} {acquired : Acquired}
    (h : source.resolve.1 = some acquired) :
    s.acquire source = .ofMade source.resolve.2 (s.begin acquired) := by
  rw [acquire]
  rcases hresolve : source.resolve with ⟨made, rest⟩
  rw [hresolve] at h
  cases h
  rfl

/-- Before its bytes are there a session shows a blank screen. -/
theorem outcome_of_lt_placeholders (config : Config) (sustain : Bool) {source : Source} {n : Nat}
    (h : n < source.placeholders) :
    (unbegun config sustain).outcome source n = .frame (Frame.blank config {}) := by
  unfold Source.placeholders at h
  split at h
  case isTrue => exact absurd h (Nat.not_lt_zero n)
  case isFalse hready =>
    obtain rfl : n = 0 := Nat.lt_one_iff.1 h
    rw [outcome_eq_course, turn_of_waiting rfl hready]
    rfl

/-- **Acquiring the source.**  Behind the placeholder, if there is one, a
session goes on with what the source gives. -/
theorem outcome_fresh (config : Config) (sustain : Bool) {source : Source} {acquired : Acquired}
    (h : source.resolve.1 = some acquired) (n : Nat) :
    (unbegun config sustain).outcome source (source.placeholders + n) =
      (Turn.ofMade source.resolve.2 ((readied config sustain source).begin acquired)).course n := by
  rw [← acquire_eq _ h, Source.placeholders, readied, outcome_eq_course]
  by_cases hready : source.isReady
  · rw [if_pos hready, if_pos hready, turn_of_ready rfl hready, Nat.zero_add]
  · rw [if_neg hready, if_neg hready, turn_of_waiting rfl hready, Nat.add_comm]
    obtain ⟨told, htold⟩ := (unbegun config sustain).placeholder_snd_fst
    have hopening : (unbegun config sustain).placeholder.2.1.phase = .opening :=
      congrArg Session.phase htold
    show Session.outcome _ source n = _
    rw [outcome_eq_course]
    exact congrArg (Turn.course · n) (turn_of_opening hopening)

end Session

namespace Performance

variable {σ : Type} (stage : Stage σ)

/-- A session that has not begun, over a source. -/
def fresh (config : Config) (sustain : Bool) (source : Source) (world : σ) : Performance σ where
  session := Session.unbegun config sustain
  source := source
  world := world

/-- Takes the turn and gives its notices to the stage. -/
def takeTurn (p : Performance σ) : Step × Performance σ :=
  let turn := p.session.turn p.source
  (turn.step,
    { session := turn.session
      source := turn.source
      world := stage.tellAll turn.notices p.world })

/-- What a performance begins with is what its session acquires, told to the stage. -/
theorem begin_eq (p : Performance σ) :
    p.begin stage =
      ((p.session.acquire p.source).step,
        { session := (p.session.acquire p.source).session
          source := (p.session.acquire p.source).source
          world := stage.tellAll (p.session.acquire p.source).notices p.world }) := by
  rw [begin, Session.acquire]
  rcases p.source.resolve with ⟨_ | acquired, source⟩ <;> rfl

/-- **The four parts of a call.** -/
theorem next_eq (p : Performance σ) :
    p.next stage =
      if stage.cancelled p.world then p.stop
      else
        match p.session.pause? with
        | none => p.takeTurn stage
        | some time =>
          let waited := { p with world := (stage.wait time p.world).2 }
          if (stage.wait time p.world).1 then waited.takeTurn stage else waited.stop := by
  obtain ⟨session, source, world⟩ := p
  by_cases hcancelled : stage.cancelled world
  · simp only [next, hcancelled, if_true]
  · simp only [next, takeTurn, hcancelled, Session.pause?, Session.turn, begin_eq]
    cases hphase : session.phase with
    | start =>
      by_cases hready : source.isReady
      · simp only [hready, if_true]
      · simp only [hready]
        rfl
    | opening => rfl
    | playing reel burst later => rfl
    | sustaining last begun => rfl
    | done => rfl

/-- The performance behind a number of calls. -/
def after (p : Performance σ) : Nat → Performance σ
  | 0 => p
  | n + 1 => (p.next stage).2.after n

/-- One more call. -/
theorem after_succ (p : Performance σ) (n : Nat) :
    p.after stage (n + 1) = ((p.after stage n).next stage).2 := by
  induction n generalizing p with
  | zero => rfl
  | succ n ih => exact ih (p.next stage).2

/-- What the call behind a number of calls comes to. -/
def result (p : Performance σ) (n : Nat) : Step :=
  ((p.after stage n).next stage).1

/-- Nothing disturbs a call: the session is not cancelled, and the wait it asks
for is completed. -/
structure Undisturbed (p : Performance σ) : Prop where
  awake : stage.cancelled p.world = false
  completes : ∀ time ∈ p.session.pause?, (stage.wait time p.world).1 = true

/-- None of the first calls is disturbed. -/
def RunsFreely (p : Performance σ) (n : Nat) : Prop :=
  ∀ m, m < n → (p.after stage m).Undisturbed stage

/-- The world that the notices of an undisturbed call go to. -/
def pausedWorld (p : Performance σ) : σ :=
  match p.session.pause? with
  | none => p.world
  | some time => (stage.wait time p.world).2

variable {stage} {p : Performance σ}

/-- A call that nothing disturbs waits and takes its turn. -/
theorem Undisturbed.next_eq (h : p.Undisturbed stage) :
    p.next stage = { p with world := p.pausedWorld stage }.takeTurn stage := by
  rw [Performance.next_eq, if_neg (by simp [h.awake]), pausedWorld]
  cases hpause : p.session.pause? with
  | none => rfl
  | some time => exact if_pos (h.completes time hpause)

/-- A call that nothing disturbs gives what the session's turn gives. -/
theorem Undisturbed.result_zero (h : p.Undisturbed stage) :
    (p.next stage).1 = (p.session.turn p.source).step := by
  rw [h.next_eq]
  rfl

/-- The first call of a free run is not disturbed. -/
theorem RunsFreely.head {n : Nat} (h : p.RunsFreely stage (n + 1)) : p.Undisturbed stage :=
  h 0 (Nat.zero_lt_succ n)

/-- What follows the first call of a free run runs freely. -/
theorem RunsFreely.tail {n : Nat} (h : p.RunsFreely stage (n + 1)) :
    (p.next stage).2.RunsFreely stage n :=
  fun m hm => h (m + 1) (Nat.succ_lt_succ hm)

/-- The beginning of a free run is a free run. -/
theorem RunsFreely.mono {m n : Nat} (h : p.RunsFreely stage n) (hmn : m ≤ n) :
    p.RunsFreely stage m :=
  fun k hk => h k (Nat.lt_of_lt_of_le hk hmn)

/-- **The course of an undisturbed session.**  It is that of its turns. -/
theorem RunsFreely.state_after {n : Nat} (h : p.RunsFreely stage n) :
    ((p.after stage n).session, (p.after stage n).source) = p.session.turns p.source n := by
  induction n generalizing p with
  | zero => rfl
  | succ n ih =>
    have hrest := ih h.tail
    rw [h.head.next_eq] at hrest
    rw [after, h.head.next_eq]
    exact hrest

/-- A free run gives what the session would give alone. -/
theorem RunsFreely.result_eq {n : Nat} (h : p.RunsFreely stage (n + 1)) :
    p.result stage n = p.session.outcome p.source n := by
  have hstate := (h.mono (Nat.le_succ n)).state_after
  rw [result, (h n (Nat.lt_succ_self n)).result_zero, Session.outcome, ← hstate]

/-- On a silent stage everything runs freely. -/
theorem runsFreely_silent (p : Performance Unit) (n : Nat) : p.RunsFreely .silent n :=
  fun _ _ => ⟨rfl, fun _ _ => rfl⟩

/-- The frames that `play` collects are those of the single calls, up to the
first call without one. -/
theorem play_eq {frames : List Frame} {budget : Nat} (hbudget : frames.length ≤ budget)
    (hframes : ∀ m frame, frames[m]? = some frame → p.result stage m = .frame frame)
    (hend : (p.result stage frames.length).frame? = none) :
    (p.play stage budget).1 = frames := by
  -- along the frames; the budget only has to outlast them
  induction frames generalizing p budget with
  | nil =>
    cases budget with
    | zero => rfl
    | succ budget =>
      have hnext : (p.next stage).1.frame? = none := hend
      rw [play]
      rcases hcall : p.next stage with ⟨step, q⟩
      rw [hcall] at hnext
      cases step with
      | frame f => exact absurd hnext (Option.some_ne_none f)
      | ended => rfl
      | brokenOff => rfl
  | cons frame frames ih =>
    cases budget with
    | zero => exact absurd hbudget (Nat.not_succ_le_zero _)
    | succ budget =>
      have hnext : (p.next stage).1 = .frame frame := hframes 0 frame rfl
      have hrest := ih (p := (p.next stage).2) (Nat.le_of_succ_le_succ hbudget)
        (fun m f hm => hframes (m + 1) f hm) hend
      rw [play]
      rcases hcall : p.next stage with ⟨step, q⟩
      rw [hcall] at hnext hrest
      subst hnext
      exact congrArg (frame :: ·) hrest

/-- A frame that `play` collects is that of some call. -/
theorem exists_result_of_mem_play {frame : Frame} {budget : Nat}
    (h : frame ∈ (p.play stage budget).1) : ∃ n, p.result stage n = .frame frame := by
  induction budget generalizing p with
  | zero => exact absurd h List.not_mem_nil
  | succ budget ih =>
    rw [play] at h
    rcases hcall : p.next stage with ⟨step, q⟩
    rw [hcall] at h
    cases step with
    | frame f =>
      rcases List.mem_cons.1 h with rfl | hlater
      · exact ⟨0, congrArg Prod.fst hcall⟩
      · obtain ⟨n, hn⟩ := ih hlater
        have hq : (p.next stage).2 = q := congrArg Prod.snd hcall
        refine ⟨n + 1, ?_⟩
        rw [result, after, hq]
        exact hn
    | ended | brokenOff => exact absurd h List.not_mem_nil

/-- The budget of a source is its number of bytes and two more. -/
theorem budgetFor_eq {acquired : Acquired} (h : p.source.resolve.1 = some acquired) :
    p.budgetFor = acquired.data.length + 2 := by
  unfold budgetFor
  rcases hresolve : p.source.resolve with ⟨made, rest⟩
  rw [hresolve] at h
  cases h
  rfl

/-- As long as the calls have frames and the budget lasts, `play` collects them in turn. -/
theorem getElem?_play {k budget : Nat} (hbudget : k < budget)
    (hframes : ∀ m ≤ k, ∃ frame, p.result stage m = .frame frame) :
    (p.play stage budget).1[k]? = (p.result stage k).frame? := by
  -- one call with its frame, then the rest of the calls
  induction k generalizing p budget with
  | zero =>
    obtain ⟨budget, rfl⟩ : ∃ b, budget = b + 1 := ⟨budget - 1, by omega⟩
    obtain ⟨frame, hframe⟩ := hframes 0 (Nat.le_refl 0)
    have hnext : (p.next stage).1 = .frame frame := hframe
    rw [hframe, play]
    rcases hcall : p.next stage with ⟨step, q⟩
    rw [hcall] at hnext
    subst hnext
    rfl
  | succ k ih =>
    obtain ⟨budget, rfl⟩ : ∃ b, budget = b + 1 := ⟨budget - 1, by omega⟩
    obtain ⟨frame, hframe⟩ := hframes 0 (Nat.zero_le _)
    have hnext : (p.next stage).1 = .frame frame := hframe
    have hrest := ih (p := (p.next stage).2) (Nat.lt_of_succ_lt_succ hbudget)
      (fun m hm => hframes (m + 1) (Nat.succ_le_succ hm))
    rw [play]
    rcases hcall : p.next stage with ⟨step, q⟩
    rw [hcall] at hnext hrest
    subst hnext
    rw [List.getElem?_cons_succ, hrest, ← congrArg Prod.snd hcall]
    rfl

/-- The last frame that `play` collects is that of the last call with one. -/
theorem getLast?_play {k budget : Nat} (hbudget : k + 1 ≤ budget)
    (hframes : ∀ m ≤ k, ∃ frame, p.result stage m = .frame frame)
    (hend : (p.result stage (k + 1)).frame? = none) :
    (p.play stage budget).1.getLast? = (p.result stage k).frame? := by
  let frames := (List.range (k + 1)).map fun m => (p.result stage m).frame?.getD default
  have hlength : frames.length = k + 1 := by simp [frames]
  have hplay : (p.play stage budget).1 = frames := by
    apply play_eq (by omega)
    · intro m frame hm
      have hlt : m < k + 1 := by
        rw [← hlength]
        exact (List.getElem?_eq_some_iff.1 hm).1
      obtain ⟨f, hf⟩ := hframes m (Nat.le_of_lt_succ hlt)
      rw [List.getElem?_map, List.getElem?_range hlt, Option.map_some, hf] at hm
      rw [hf, ← Option.some.inj hm]
      rfl
    · rw [hlength]
      exact hend
  obtain ⟨f, hf⟩ := hframes k (Nat.le_refl k)
  rw [hplay, List.getLast?_map, List.getLast?_range, if_neg (Nat.succ_ne_zero k),
    Option.map_some, Nat.add_sub_cancel, hf]
  rfl

end Performance

end BaudReel
