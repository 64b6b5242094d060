import BaudReel.Proofs.Failure

/-!
# Blinking in time

A blink phase is counted in frames, and a frame that has begun is played out: the frames
of a phase may outlast it, but by less than one frame (`Config.interval_mul_frames_lt`).

While a stream is played, every burst behind the first takes a frame off the phase, so
that the number of bursts says how much is left of it (`Config.blinkRest`,
`Session.playsBurst_turn`).  The first flip behind the stream waits for what is left, and
from then on a phase lasts as long as the settings say (`Session.flips_turn`).

On the clock of a rehearsal no time passes but the waits (`Performance.elapsed_next`).  So
the time up to the second flip is known, and how far it can exceed two phases
(`Performance.blinks_in_time`).  That it can is shown by a run that is late
(`Performance.second_flip_is_late`).
-/

namespace BaudReel

namespace Config

variable {config : Config}

/-- Usable settings have positive times. -/
theorem times_of_fault? (h : config.fault? = none) :
    0 < config.frameInterval ∧ 0 < config.blinkDuration := by
  obtain ⟨-, -, hinterval, hduration, -⟩ := fault?_eq_none_iff.1 h
  exact ⟨hinterval, hduration⟩

/-- A blink phase lasts one frame at least. -/
theorem blinkFrames_pos (config : Config) : 0 < config.blinkFrames :=
  Nat.le_max_left 1 _

section Frames

variable (hinterval : 0 < config.frameInterval) (hduration : 0 < config.blinkDuration)
include hinterval hduration

/-- Words that are too short only make a phase shorter. -/
theorem blinkFrames_le :
    config.blinkFrames ≤
      (config.blinkDuration + (config.frameInterval - 1)) / config.frameInterval := by
  have hmax : max config.frameInterval 1 = config.frameInterval := Nat.max_eq_left hinterval
  simp only [blinkFrames, hmax]
  apply Nat.max_le.2
  refine ⟨?_, ?_⟩
  · rw [Nat.le_div_iff_mul_le hinterval]
    omega
  · exact Nat.le_trans (Nat.min_le_left _ _) (Nat.div_le_div_right (Nat.min_le_left _ _))

/-- The frames of a phase outlast it by less than one frame. -/
theorem interval_mul_frames_lt :
    config.frameInterval * config.blinkFrames < config.blinkDuration + config.frameInterval := by
  have hfit := Nat.mul_le_mul_left config.frameInterval (blinkFrames_le hinterval hduration)
  have hwhole := Nat.mul_div_le (config.blinkDuration + (config.frameInterval - 1))
    config.frameInterval
  omega

/-- A phase of whole frames is not outlasted at all. -/
theorem interval_mul_frames_le_of_dvd (hdvd : config.frameInterval ∣ config.blinkDuration) :
    config.frameInterval * config.blinkFrames ≤ config.blinkDuration := by
  obtain ⟨q, hq⟩ := hdvd
  have hfit := blinkFrames_le hinterval hduration
  have hlast : (config.frameInterval - 1) / config.frameInterval = 0 :=
    Nat.div_eq_of_lt (Nat.sub_one_lt (Nat.ne_of_gt hinterval))
  rw [hq, Nat.mul_add_div hinterval, hlast, Nat.add_zero] at hfit
  rw [hq]
  exact Nat.mul_le_mul_left _ hfit

end Frames

/-- The frames left of the blink phase where so many frames have been counted. -/
def blinkRest (config : Config) (count : Nat) : Nat :=
  config.blinkFrames - count % config.blinkFrames

/-- A blink phase starts with all its frames to come. -/
theorem blinkRest_zero (config : Config) : config.blinkRest 0 = config.blinkFrames := by
  rw [blinkRest, Nat.zero_mod, Nat.sub_zero]

/-- One more frame is counted, and with the last one of a phase the next phase begins. -/
theorem blinkRest_succ (config : Config) (count : Nat) :
    config.blinkRest (count + 1) =
      if config.blinkRest count - 1 = 0 then config.blinkFrames
      else config.blinkRest count - 1 := by
  have hlt : count % config.blinkFrames < config.blinkFrames := Nat.mod_lt _ config.blinkFrames_pos
  have hnext := Nat.mod_add_mod count config.blinkFrames 1
  unfold blinkRest
  by_cases hover : count % config.blinkFrames + 1 = config.blinkFrames
  · rw [hover, Nat.mod_self] at hnext
    rw [← hnext, if_pos (by omega), Nat.sub_zero]
  · rw [Nat.mod_eq_of_lt (by omega)] at hnext
    rw [← hnext, if_neg (by omega), Nat.sub_sub]

section Rest

variable (hinterval : 0 < config.frameInterval) (hduration : 0 < config.blinkDuration)
include hinterval hduration

/-- What is left of a phase outlasts it if no frame of it was counted, and its frames do. -/
theorem interval_mul_rest_le_iff (count : Nat) :
    config.frameInterval * config.blinkRest count ≤ config.blinkDuration ↔
      count % config.blinkFrames ≠ 0 ∨
        config.frameInterval * config.blinkFrames ≤ config.blinkDuration := by
  by_cases hnone : count % config.blinkFrames = 0
  · rw [blinkRest, hnone, Nat.sub_zero]
    exact ⟨.inr, fun h => h.resolve_left fun hsome => hsome rfl⟩
  · -- one frame less, and less than a frame too long
    have hless : config.blinkRest count + 1 ≤ config.blinkFrames := by
      have hpos := config.blinkFrames_pos
      unfold blinkRest
      omega
    have hfit := Nat.mul_le_mul_left config.frameInterval hless
    have hlt := interval_mul_frames_lt hinterval hduration
    rw [Nat.mul_succ] at hfit
    exact ⟨fun _ => .inl hnone, fun _ => by omega⟩

/-- The rest of a phase is over within one frame interval of what is left of its duration. -/
theorem interval_mul_rest_lt (count : Nat) :
    config.frameInterval * config.blinkRest count < config.blinkDuration + config.frameInterval :=
  Nat.lt_of_le_of_lt (Nat.mul_le_mul_left _ (Nat.sub_le _ _))
    (interval_mul_frames_lt hinterval hduration)

end Rest

end Config

/-- A blank frame does not blink. -/
theorem Frame.willBlink_blank (config : Config) (status : Status) :
    (blank config status).willBlink = false := by
  have hsteady : ∀ col row c, (Grid.fresh config.minWidth config.minHeight).get? col row = some c →
      c.blinkBit = false := by
    intro col row c hcell
    by_cases hin : (Grid.fresh config.minWidth config.minHeight).Inside col row
    · obtain rfl : Cell.untouched = c := Option.some.inj ((Grid.get?_fresh hin).symm.trans hcell)
      exact Cell.blinkBit_pack ..
    · rw [Grid.get?_of_not_inside hin] at hcell
      exact absurd hcell.symm (Option.some_ne_none c)
  exact Grid.anyBlinks_lines (Grid.full_fresh _ _) config.view hsteady

namespace Session

/-- The turn for a burst, behind which so many frames are left of the blink phase.  It
shows a frame in that phase; behind the last burst that frame blinks on, or nothing more
comes. -/
structure PlaysBurst (config : Config) (sustain : Bool) (left : Nat) (isLast : Prop) (turn : Turn)
    (f : Frame) : Prop where
  step_eq : turn.step = .frame f
  config_eq : turn.session.config = config
  blinked_eq : turn.session.blinked = f.blinked
  blinkLeft_eq : turn.session.blinkLeft = left
  behind : isLast → turn.session.phase =
    if blinksOn config sustain f then .sustaining f false else .done

section Bursts

variable {s : Session} {config : Config} {sustain : Bool}

/-- What is said of a turn for some purpose holds for every narrower one. -/
theorem PlaysBurst.mono {left : Nat} {p q : Prop} {turn : Turn} {f : Frame}
    (h : PlaysBurst config sustain left p turn f) (hqp : q → p) :
    PlaysBurst config sustain left q turn f :=
  { h with behind := fun hq => h.behind (hqp hq) }

/-- Playing a burst shows its frame, and goes on if and only if bursts or blinks are left. -/
theorem playsBurst_playBurst (hconfig : s.config = config) (hsustain : s.sustain = sustain)
    (reel : Reel) (burst : Burst) (later : List Burst) (source : Source) (notices : List Notice) :
    let made := s.playBurst reel burst later
    PlaysBurst config sustain s.blinkLeft (later = []) ⟨.frame made.1, made.2.1, source, notices⟩
      (s.burstFrame reel burst later) := by
  intro made
  obtain ⟨hframe, status, strings, hsession⟩ := s.playBurst_fst_snd reel burst later
  have hblinked := congrArg Session.blinked hsession
  have hleft := congrArg Session.blinkLeft hsession
  have hphase := congrArg Session.phase hsession
  refine ⟨congrArg Step.frame hframe, (congrArg Session.config hsession).trans hconfig, hblinked,
    hleft, ?_⟩
  rintro rfl
  rw [← hconfig, ← hsustain]
  exact hphase

/-- With each frame the rest of the phase is that of one more frame. -/
theorem blinkLeft_advanceBlink (henabled : s.config.blinkMode.isEnabled = true) {count : Nat}
    (hleft : s.blinkLeft = s.config.blinkRest count) :
    s.advanceBlink.blinkLeft = s.config.blinkRest (count + 1) := by
  rw [advanceBlink, henabled, Bool.not_true, if_neg Bool.false_ne_true, hleft,
    Config.blinkRest_succ]
  split <;> rfl

/-- A session comes to its source with the whole first phase to come. -/
theorem blinkLeft_readied (config : Config) (sustain : Bool) (source : Source) :
    (readied config sustain source).blinkLeft = config.blinkRest 0 := by
  rw [Config.blinkRest_zero, readied]
  split <;> rfl

/-- **The turn for a burst** has taken as many frames off the phases as bursts came
before. -/
theorem playsBurst_turn (henabled : config.blinkMode.isEnabled = true) (sustain : Bool)
    (source : Source) {k : Nat} (hk : k < (Burst.plan config source.yield.data.length).length) :
    let here := (unbegun config sustain).turns source (source.leadIn + k)
    ∃ f, PlaysBurst config sustain (config.blinkRest k)
      (k + 1 = (Burst.plan config source.yield.data.length).length) (here.1.turn here.2) f := by
  induction k with
  | zero =>
    intro here
    let opening := readied config sustain source
    obtain ⟨hconfig, hsustain⟩ := readied_eq config sustain source
    have hhere : here = (opening, source.entered) := turns_leadIn ..
    have hdrop := List.drop_eq_getElem_cons hk
    have hplan : Burst.plan opening.config source.yield.data.length = _ :=
      (congrArg (Burst.plan · _) hconfig).trans hdrop
    have hplays := playsBurst_playBurst
      (s := { opening with sized := opening.sized || opening.config.needsSizing }) hconfig hsustain
    rw [hhere, (turn_entered config sustain source).2, (begin_eq_playBurst hplan).2, measure_eq,
      ← blinkLeft_readied config sustain source]
    exact ⟨_, (hplays _ _ _ _ _).mono fun h => List.drop_eq_nil_of_le (Nat.le_of_eq h.symm)⟩
  | succ k ih =>
    intro here
    obtain ⟨f, hbefore⟩ := ih (Nat.lt_of_succ_lt hk)
    have hahead := ahead_of_leadIn config sustain source k
    have hconfig : here.1.config = config := hahead.config_eq
    have hphase := hahead.next _ _ (List.drop_eq_getElem_cons hk)
    have hleft : here.1.blinkLeft = here.1.config.blinkRest k := by
      have hhere : here = _ := turns_add (unbegun config sustain) source (source.leadIn + k) 1
      rw [hconfig, hhere]
      exact hbefore.blinkLeft_eq
    have hcounted := blinkLeft_advanceBlink (hconfig ▸ henabled) hleft
    obtain ⟨hkept, hsustain⟩ := here.1.advanceBlink_eq
    have hplays := playsBurst_playBurst (hkept.trans hconfig) (hsustain.trans hahead.sustain_eq)
    rw [hconfig] at hcounted
    rw [turn_of_playing hphase, ← hcounted]
    exact ⟨_, (hplays _ _ _ _ _).mono fun h => List.drop_eq_nil_of_le (Nat.le_of_eq h.symm)⟩

end Bursts

/-- **Two flips** behind the stream: the first waits for what is left of the blink phase,
and the second for a whole one. -/
theorem flips_turn {s : Session} {f : Frame} (hphase : s.phase = .sustaining f false)
    (hblinked : s.blinked = f.blinked) (source : Source) :
    let first := s.turn source
    let second := first.session.turn first.source
    s.pause? = some (s.config.frameInterval * s.blinkLeft) ∧
      first.step = .frame { f with blinked := !f.blinked } ∧
      first.session.pause? = some s.config.blinkDuration ∧ second.step = .frame f := by
  intro first second
  have hfirst : first = .ofMade source ((s.flip f).1, (s.flip f).2, []) :=
    turn_of_sustaining hphase
  have hsustaining : first.session.phase = .sustaining f true := by rw [hfirst]; rfl
  have hflipped : first.session.blinked = !f.blinked := by
    rw [hfirst, ← hblinked]
    rfl
  have hsecond : second = .ofMade first.source
      ((first.session.flip f).1, (first.session.flip f).2, []) := turn_of_sustaining hsustaining
  refine ⟨?_, ?_, ?_, ?_⟩
  · rw [pause?, hphase]
    rfl
  · rw [hfirst, ← hblinked]
    rfl
  · rw [hfirst]
    rfl
  · rw [hsecond]
    show Step.frame { f with blinked := !first.session.blinked } = _
    rw [hflipped, Bool.not_not]

end Session

/-- A wait that is completed takes the time that was asked for. -/
theorem VirtualClock.elapsed_wait {c : VirtualClock} {duration : Nat} {cancelled : Bool}
    (h : (c.wait duration cancelled).1 = true) :
    (c.wait duration cancelled).2.elapsed = c.elapsed + duration := by
  cases cancelled with
  | false => exact Array.foldl_push
  | true => exact absurd h Bool.false_ne_true

namespace Rehearsal

/-- A completed wait takes its time. -/
theorem elapsed_wait {duration : Nat} {r : Rehearsal} (h : (r.wait duration).1 = true) :
    (r.wait duration).2.elapsed = r.elapsed + duration :=
  VirtualClock.elapsed_wait (c := r.clock.clock) h

/-- No time passes while notices are taken. -/
theorem elapsed_tellAll (notices : List Notice) (r : Rehearsal) :
    (stage.tellAll notices r).elapsed = r.elapsed := by
  induction notices generalizing r with
  | nil => rfl
  | cons notice notices ih =>
    have htold : (r.tell notice).elapsed = r.elapsed := by cases notice <;> rfl
    exact (ih _).trans htold

/-- Nothing has been cancelled, and nothing is going to be. -/
structure Unplanned (r : Rehearsal) : Prop where
  awake : r.tokens.isCancelled r.token = false
  no_wait : r.clock.cancelAt = 0
  no_bell : r.listener.cancelAt = 0

variable {r : Rehearsal}

/-- Where nothing is planned, every wait is completed, and still nothing is planned. -/
theorem Unplanned.wait (h : r.Unplanned) (duration : Nat) :
    (r.wait duration).1 = true ∧ (r.wait duration).2.Unplanned := by
  have hplanned : ¬r.clock.asked + 1 = r.clock.cancelAt := by
    rw [h.no_wait]
    exact Nat.succ_ne_zero _
  have htokens : (r.wait duration).2.tokens = r.tokens := if_neg hplanned
  have hcompleted : (r.wait duration).1 = true := by
    show (r.clock.clock.wait duration (Tokens.isCancelled (if _ then _ else _) r.token)).1 = true
    rw [if_neg hplanned, h.awake]
    rfl
  refine ⟨hcompleted, ?_, h.no_wait, h.no_bell⟩
  rw [htokens]
  exact h.awake

/-- Notices plan nothing. -/
theorem Unplanned.tellAll (h : r.Unplanned) (notices : List Notice) :
    (stage.tellAll notices r).Unplanned := by
  induction notices generalizing r with
  | nil => exact h
  | cons notice notices ih =>
    have htold : (r.tell notice).Unplanned := by
      cases notice with
      | beep =>
        have hplanned : ¬r.listener.beeps + 1 = r.listener.cancelAt := by
          rw [h.no_bell]
          exact Nat.succ_ne_zero _
        have htokens : (r.tell .beep).tokens = r.tokens := if_neg hplanned
        refine ⟨?_, h.no_wait, h.no_bell⟩
        rw [htokens]
        exact h.awake
      | status => exact ⟨h.awake, h.no_wait, h.no_bell⟩
      | metadata => exact ⟨h.awake, h.no_wait, h.no_bell⟩
      | failed => exact ⟨h.awake, h.no_wait, h.no_bell⟩
    exact ih htold

end Rehearsal

namespace Performance

section Rehearsed

variable {p : Performance Rehearsal}

/-- **One call** takes the time that it waits. -/
theorem elapsed_next (h : p.Undisturbed Rehearsal.stage) :
    (p.next Rehearsal.stage).2.world.elapsed = p.world.elapsed + p.session.pause?.getD 0 := by
  rw [h.next_eq]
  show (Rehearsal.stage.tellAll _ (p.pausedWorld Rehearsal.stage)).elapsed = _
  rw [Rehearsal.elapsed_tellAll, pausedWorld]
  cases hpause : p.session.pause? with
  | none => rfl
  | some time => exact Rehearsal.elapsed_wait (h.completes time hpause)

/-- Nothing disturbs a session whose rehearsal plans no cancellation. -/
theorem runsFreely_of_unplanned (h : p.world.Unplanned) (n : Nat) :
    p.RunsFreely Rehearsal.stage n := by
  have hundisturbed : ∀ q : Performance Rehearsal, q.world.Unplanned →
      q.Undisturbed Rehearsal.stage :=
    fun q hq => ⟨hq.awake, fun time _ => (hq.wait time).1⟩
  have hworld : ∀ m, (p.after Rehearsal.stage m).world.Unplanned := by
    intro m
    induction m with
    | zero => exact h
    | succ m ih =>
      rw [after_succ, (hundisturbed _ ih).next_eq]
      apply Rehearsal.Unplanned.tellAll
      show ((p.after Rehearsal.stage m).pausedWorld Rehearsal.stage).Unplanned
      rw [pausedWorld]
      split
      · exact ih
      · exact (ih.wait _).2
  intro m _
  exact hundisturbed _ (hworld m)

/-- **The next two calls** behind the stream flip the blink phase twice. -/
theorem flips_next {f : Frame} (hphase : p.session.phase = .sustaining f false)
    (hblinked : p.session.blinked = f.blinked) (hfirst : p.Undisturbed Rehearsal.stage)
    (hsecond : (p.next Rehearsal.stage).2.Undisturbed Rehearsal.stage) :
    let q := (p.next Rehearsal.stage).2
    (p.next Rehearsal.stage).1 = .frame { f with blinked := !f.blinked } ∧
      (q.next Rehearsal.stage).1 = .frame f ∧
      (q.next Rehearsal.stage).2.world.elapsed = p.world.elapsed +
        p.session.config.frameInterval * p.session.blinkLeft + p.session.config.blinkDuration := by
  intro q
  obtain ⟨hpause, hflipped, hpause', hflippedBack⟩ := Session.flips_turn hphase hblinked p.source
  have hsession : q.session = (p.session.turn p.source).session := by
    show (p.next Rehearsal.stage).2.session = _
    rw [hfirst.next_eq]
    rfl
  have hsource : q.source = (p.session.turn p.source).source := by
    show (p.next Rehearsal.stage).2.source = _
    rw [hfirst.next_eq]
    rfl
  have helapsed : q.world.elapsed = _ := elapsed_next hfirst
  refine ⟨hfirst.result_zero.trans hflipped, ?_, ?_⟩
  · rw [hsecond.result_zero, hsession, hsource]
    exact hflippedBack
  · rw [elapsed_next hsecond, hsession, hpause', helapsed, hpause]
    rfl

end Rehearsed

/-- A call shows the last frame of the stream: the first that says that nothing more is
played. -/
structure StopsAt {σ : Type} (stage : Stage σ) (p : Performance σ) (m : Nat) (f : Frame) :
    Prop where
  shown : p.result stage m = .frame f
  stopped : f.status.playing = false
  before : ∀ i < m, ∀ g, p.result stage i = .frame g → g.status.playing = true

/-- The call for the last burst, or for the blank frame where there is none. -/
def lastCall (config : Config) (source : Source) : Nat :=
  source.leadIn + ((Burst.plan config source.yield.data.length).length - 1)

section Stopping

variable {σ : Type} {stage : Stage σ} {world : σ} {config : Config} {sustain : Bool}
  {source : Source}

/-- The call for a burst shows a frame, which is marked as playing but for the last one. -/
theorem shown_of_burst {k : Nat}
    (hk : k < max 1 (Burst.plan config source.yield.data.length).length)
    (hfree : (fresh config sustain source world).RunsFreely stage (source.leadIn + k + 1)) :
    ∃ f, (fresh config sustain source world).result stage (source.leadIn + k) = .frame f ∧
      f.status.playing =
        decide (k + 1 < max 1 (Burst.plan config source.yield.data.length).length) := by
  have hconfig := (Session.readied_eq config sustain source).1
  obtain ⟨f, hshown, -, hplaying⟩ :=
    (Session.plays_begin source.entered.resolve.2 hconfig source.yield).shown k hk
  have hresult := hfree.result_eq.trans (Session.outcome_leadIn config sustain source k)
  exact ⟨f, hresult.trans hshown, hplaying⟩

/-- Only frames that say that more is played come in front of it. -/
theorem playing_of_lt_lastCall {m : Nat} (hm : m < lastCall config source) {f : Frame}
    (hframe : (fresh config sustain source world).result stage m = .frame f) :
    f.status.playing = true := by
  have hfree := runsFreely_of_result hframe
  by_cases hlead : m < source.leadIn
  · have hturn := hfree.result_eq.symm.trans hframe
    rcases Session.turn_of_lt_leadIn config sustain hlead with
      ⟨-, -, hplaceholder⟩ | ⟨-, -, -, hbroken⟩
    · rw [← Step.frame.inj ((congrArg Turn.step hplaceholder).symm.trans hturn)]
      rfl
    · exact absurd ((congrArg Turn.step hbroken).symm.trans hturn) Step.noConfusion
  · obtain ⟨k, rfl⟩ := Nat.exists_eq_add_of_le (Nat.le_of_not_lt hlead)
    unfold lastCall at hm
    obtain ⟨g, hshown, hplaying⟩ := shown_of_burst (by omega) hfree
    rw [Step.frame.inj (hframe.symm.trans hshown), hplaying]
    exact decide_eq_true (by omega)

/-- **There is a last frame.** -/
theorem exists_stopsAt
    (hfree : (fresh config sustain source world).RunsFreely stage (lastCall config source + 1)) :
    ∃ f, (fresh config sustain source world).StopsAt stage (lastCall config source) f := by
  obtain ⟨f, hshown, hplaying⟩ := shown_of_burst (by omega) hfree
  have hstopped := hplaying.trans (decide_eq_false (by omega))
  exact ⟨f, hshown, hstopped, fun i hi g hg => playing_of_lt_lastCall hi hg⟩

/-- Playing stops at the call for the last burst. -/
theorem StopsAt.eq_lastCall {m : Nat} {f : Frame}
    (h : (fresh config sustain source world).StopsAt stage m f) : m = lastCall config source := by
  rcases Nat.lt_trichotomy m (lastCall config source) with hlt | heq | hgt
  · have hplaying := playing_of_lt_lastCall hlt h.shown
    exact absurd (h.stopped.symm.trans hplaying) Bool.false_ne_true
  · exact heq
  · have hfree := (runsFreely_of_result h.shown).mono (Nat.succ_le_succ (Nat.le_of_lt hgt))
    obtain ⟨g, hstops⟩ := exists_stopsAt hfree
    have hplaying := h.before _ hgt g hstops.shown
    exact absurd (hstops.stopped.symm.trans hplaying) Bool.false_ne_true

/-- A last frame that blinks is that of a burst. -/
theorem StopsAt.plan_ne_nil {m : Nat} {f : Frame}
    (h : (fresh config sustain source world).StopsAt stage m f) (hblinks : f.willBlink = true) :
    Burst.plan config source.yield.data.length ≠ [] := by
  intro hnil
  have hlast : m = source.leadIn + 0 := by
    rw [h.eq_lastCall, lastCall, hnil]
    rfl
  have hturn := (runsFreely_of_result h.shown).result_eq.symm.trans h.shown
  rw [hlast] at hturn
  have hconfig := (Session.readied_eq config sustain source).1
  obtain ⟨status, hblank⟩ :=
    Session.closesAt_begin_nil source.entered.resolve.2 hconfig hnil
  have hcourse := (Session.outcome_leadIn config sustain source 0).symm.trans hturn
  have hframe := Step.frame.inj (hcourse.symm.trans hblank.shown)
  have hsteady : f.willBlink = false :=
    (congrArg Frame.willBlink hframe).trans (Frame.willBlink_blank config status)
  exact absurd (hsteady.symm.trans hblinks) Bool.false_ne_true

/-- Behind a last frame that blinks on, the session knows how much is left of the blink
phase. -/
theorem StopsAt.sustaining (hmode : config.blinkMode = .auto) {m : Nat} {f : Frame}
    (h : (fresh config true source world).StopsAt stage m f) (hblinks : f.willBlink = true) :
    let s := ((fresh config true source world).after stage (m + 1)).session
    s.config = config ∧ s.phase = .sustaining f false ∧ s.blinked = f.blinked ∧
      s.blinkLeft =
        config.blinkRest ((Burst.plan config source.yield.data.length).length - 1) := by
  intro s
  have hfree := runsFreely_of_result h.shown
  have hsome := List.length_pos_iff.2 (h.plan_ne_nil hblinks)
  have henabled : config.blinkMode.isEnabled = true := by rw [hmode]; rfl
  obtain ⟨g, hplays⟩ := Session.playsBurst_turn henabled true source
    (Nat.sub_one_lt (Nat.ne_of_gt hsome))
  have hm : m = source.leadIn + _ := h.eq_lastCall
  rw [← hm] at hplays
  obtain rfl : g = f := Step.frame.inj
    (hplays.step_eq.symm.trans (hfree.result_eq.symm.trans h.shown))
  have hturns := Session.turns_add (Session.unbegun config true) source m 1
  have hsession : s = _ := congrArg Prod.fst (hfree.state_after.trans hturns)
  have hphase := hplays.behind (Nat.sub_add_cancel hsome)
  rw [Session.blinksOn, hmode, hblinks] at hphase
  rw [hsession]
  exact ⟨hplays.config_eq, hphase, hplays.blinked_eq, hplays.blinkLeft_eq⟩

/-- The last frame of a stream that is played to its end shows the whole stream. -/
theorem StopsAt.willBlink_eq {acquired : Acquired} (hacquired : source.resolve.1 = some acquired)
    (hresume : config.seek.resume = true) (hsome : acquired.data ≠ []) {m : Nat} {f : Frame}
    (h : (fresh config sustain source world).StopsAt stage m f) :
    ∃ g, (Session.snapshot config acquired.data acquired.data.length).grid? = some g ∧
      f.willBlink = anyBlinks (g.lines config.view) := by
  have hlast := h.eq_lastCall
  rw [lastCall, Source.leadIn_of_resolve hacquired, Source.yield_of_resolve hacquired] at hlast
  obtain ⟨hshows, -⟩ := ends_result hacquired hresume (by omega) (by omega)
    (runsFreely_of_result h.shown) h.shown
  rw [Session.ShowsPlayed, if_neg fun hzero => hsome (List.length_eq_zero_iff.1 hzero)] at hshows
  obtain ⟨g, hgrid, -, -, -, hblinks⟩ := hshows
  exact ⟨g, hgrid, hblinks⟩

end Stopping

/-- **The two calls behind the last frame**, and the time that they take. -/
theorem StopsAt.flips {config : Config} (hmode : config.blinkMode = .auto) {source : Source}
    {r : Rehearsal} {m : Nat} {f : Frame}
    (hlast : (fresh config true source r).StopsAt Rehearsal.stage m f)
    (hblinks : f.willBlink = true)
    (hfree : (fresh config true source r).RunsFreely Rehearsal.stage (m + 3)) :
    let p := fresh config true source r
    let counted := (Burst.plan config source.yield.data.length).length - 1
    p.result Rehearsal.stage (m + 1) = .frame { f with blinked := !f.blinked } ∧
      p.result Rehearsal.stage (m + 2) = .frame f ∧
      (p.after Rehearsal.stage (m + 3)).world.elapsed =
        (p.after Rehearsal.stage (m + 1)).world.elapsed +
          config.frameInterval * config.blinkRest counted + config.blinkDuration := by
  intro p counted
  obtain ⟨hconfig, hphase, hblinked, hleft⟩ := hlast.sustaining hmode hblinks
  have hfirst := hfree (m + 1) (by omega)
  have hsecond := hfree (m + 2) (by omega)
  rw [after_succ] at hsecond
  obtain ⟨hflipped, hflippedBack, htime⟩ := flips_next hphase hblinked hfirst hsecond
  rw [hconfig, hleft, ← after_succ, ← after_succ] at htime
  rw [← after_succ] at hflippedBack
  exact ⟨hflipped, hflippedBack, htime⟩

/-- **Blinking in time.**  Let a session blink by itself and go on behind its stream, on a
rehearsal that disturbs nothing, and let text blink in the last frame of the stream.

* The call for the last burst shows that frame.  The next two show it in the other blink
  phase, and as it was.
* From that frame up to the second of them the time passes that the frames left of the
  blink phase take, and one whole phase.  Every burst behind the first has counted a frame
  of some phase, and those that are not of a phase that is over are what this one lacks.
* This is no more than two phases exactly if a frame of the phase was counted, or if its
  frames do not outlast it, as when it is a number of whole frames.
* Two phases are never exceeded by a whole frame. -/
theorem blinks_in_time {config : Config} (hfault : config.fault? = none)
    (hmode : config.blinkMode = .auto) (source : Source) (r : Rehearsal) {m : Nat} {f : Frame}
    (hlast : (fresh config true source r).StopsAt Rehearsal.stage m f)
    (hblinks : f.willBlink = true)
    (hfree : (fresh config true source r).RunsFreely Rehearsal.stage (m + 3)) :
    let p := fresh config true source r
    let counted := (Burst.plan config source.yield.data.length).length - 1
    let frames := config.blinkFrames
    let shownAt := (p.after Rehearsal.stage (m + 1)).world.elapsed
    let flippedTwiceAt := (p.after Rehearsal.stage (m + 3)).world.elapsed
    m = source.leadIn + counted ∧
      p.result Rehearsal.stage (m + 1) = .frame { f with blinked := !f.blinked } ∧
      p.result Rehearsal.stage (m + 2) = .frame f ∧
      flippedTwiceAt = shownAt + config.frameInterval * (frames - counted % frames) +
        config.blinkDuration ∧
      (flippedTwiceAt ≤ shownAt + 2 * config.blinkDuration ↔
        counted % frames ≠ 0 ∨ config.frameInterval * frames ≤ config.blinkDuration) ∧
      (config.frameInterval ∣ config.blinkDuration →
        flippedTwiceAt ≤ shownAt + 2 * config.blinkDuration) ∧
      flippedTwiceAt < shownAt + 2 * config.blinkDuration + config.frameInterval := by
  intro p counted frames shownAt flippedTwiceAt
  obtain ⟨hinterval, hduration⟩ := Config.times_of_fault? hfault
  obtain ⟨hflipped, hflippedBack, htime⟩ := hlast.flips hmode hblinks hfree
  have hflippedTwice : flippedTwiceAt =
      shownAt + config.frameInterval * config.blinkRest counted + config.blinkDuration := htime
  have hrest := Config.interval_mul_rest_le_iff hinterval hduration counted
  have hlimit := Config.interval_mul_rest_lt hinterval hduration counted
  have hwhole := Config.interval_mul_frames_le_of_dvd hinterval hduration
  refine ⟨hlast.eq_lastCall, hflipped, hflippedBack, htime, ?_, ?_, by omega⟩
  · rw [← hrest]
    omega
  · intro hdvd
    have hfits := hrest.2 (.inr (hwhole hdvd))
    omega

/-- A glyph that blinks. -/
def blinking : List UInt8 :=
  [0x1B, 0x5B, 0x35, 0x6D, 0x41]

/-- On a screen of one cell that glyph blinks in the last frame, at whatever pace. -/
theorem exists_stopsAt_blinking (speed : ModemSpeed) (interval duration : Nat) :
    let cell : Config :=
      { blinkMode := .auto, minWidth := 1, minHeight := 1, maxWidth := 1, maxHeight := 1 }
    let p := fresh (cell.repaced speed interval duration {}) true (.bytes blinking)
      (Rehearsal.fresh 0 0)
    (∀ n, p.RunsFreely Rehearsal.stage n) ∧
      ∃ m f, p.StopsAt Rehearsal.stage m f ∧ f.willBlink = true := by
  intro cell p
  have hfree : ∀ n, p.RunsFreely Rehearsal.stage n := runsFreely_of_unplanned ⟨rfl, rfl, rfl⟩
  obtain ⟨f, hlast⟩ := exists_stopsAt (hfree _)
  obtain ⟨g, hgrid, hblinks⟩ := hlast.willBlink_eq rfl rfl (List.cons_ne_nil _ _)
  have hshown : ((Session.snapshot cell blinking 5).grid?.map fun g =>
      anyBlinks (g.lines cell.view)) = some true := by decide +kernel
  have hmap : (Session.snapshot cell blinking 5).grid? = some g := hgrid
  rw [hmap] at hshown
  exact ⟨hfree, _, f, hlast, hblinks.trans (Option.some.inj hshown)⟩

/-- Frames of 50 ms fill a phase of 500 ms, so that it does not matter where in a phase the
stream ends. -/
theorem blinks_in_time_filled :
    let config : Config :=
      { modemSpeed := .bps 200, blinkMode := .auto
        minWidth := 1, minHeight := 1, maxWidth := 1, maxHeight := 1 }
    let p := fresh config true (.bytes blinking) (Rehearsal.fresh 0 0)
    config.fault? = none ∧ config.blinkMode = .auto ∧
      ∃ m f, p.StopsAt Rehearsal.stage m f ∧ f.willBlink = true ∧
        p.RunsFreely Rehearsal.stage (m + 3) ∧
        p.result Rehearsal.stage (m + 2) = .frame f ∧
        (p.after Rehearsal.stage (m + 3)).world.elapsed ≤
          (p.after Rehearsal.stage (m + 1)).world.elapsed + 1000 := by
  intro config p
  have hfault : config.fault? = none := by decide +kernel
  obtain ⟨hfree, m, f, hlast, hblinks⟩ := exists_stopsAt_blinking (.bps 200) 50 500
  obtain ⟨-, -, hflippedBack, -, -, hfilled, -⟩ :=
    blinks_in_time hfault rfl (.bytes blinking) (Rehearsal.fresh 0 0) hlast hblinks (hfree _)
  exact ⟨hfault, rfl, m, f, hlast, hblinks, hfree _, hflippedBack, hfilled ⟨10, rfl⟩⟩

/-- A frame of 100 ms outlasts a phase of 60 ms, and is played out all the same: the second
flip comes after 160 ms, and two phases are 120 ms. -/
theorem second_flip_is_late :
    let config : Config :=
      { modemSpeed := .unlimited, frameInterval := 100, blinkDuration := 60, blinkMode := .auto
        minWidth := 1, minHeight := 1, maxWidth := 1, maxHeight := 1 }
    let p := fresh config true (.bytes blinking) (Rehearsal.fresh 0 0)
    config.fault? = none ∧ config.blinkMode = .auto ∧ (∀ n, p.RunsFreely Rehearsal.stage n) ∧
      ∃ m f, p.StopsAt Rehearsal.stage m f ∧ f.willBlink = true ∧
        p.result Rehearsal.stage (m + 1) = .frame { f with blinked := !f.blinked } ∧
        p.result Rehearsal.stage (m + 2) = .frame f ∧
        (p.after Rehearsal.stage (m + 3)).world.elapsed =
          (p.after Rehearsal.stage (m + 1)).world.elapsed + 160 ∧
        ¬(p.after Rehearsal.stage (m + 3)).world.elapsed ≤
          (p.after Rehearsal.stage (m + 1)).world.elapsed + 2 * config.blinkDuration := by
  intro config p
  obtain ⟨hfree, m, f, hlast, hblinks⟩ := exists_stopsAt_blinking .unlimited 100 60
  obtain ⟨hflipped, hflippedBack, htime⟩ := StopsAt.flips rfl hlast hblinks (hfree _)
  have hframes : config.blinkFrames = 1 := by decide
  have hleft : ∀ counted, config.blinkRest counted = 1 := by
    intro counted
    rw [Config.blinkRest, hframes, Nat.mod_one]
  have hlate : (p.after Rehearsal.stage (m + 3)).world.elapsed =
      (p.after Rehearsal.stage (m + 1)).world.elapsed + 160 := by
    have htimes := htime
    rw [Nat.add_assoc] at htimes
    exact htimes.trans (congrArg (fun left => _ + (100 * left + 60)) (hleft _))
  have hphases : 2 * config.blinkDuration = 120 := rfl
  refine ⟨by decide +kernel, rfl, hfree, m, f, hlast, hblinks, hflipped, hflippedBack, hlate, ?_⟩
  rw [hlate, hphases]
  omega

end Performance

end BaudReel
