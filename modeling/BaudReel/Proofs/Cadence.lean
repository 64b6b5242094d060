import BaudReel.Checked.Timing
import BaudReel.Proofs.Beat
import BaudReel.Proofs.Words
import Mathlib.Algebra.GroupWithZero.Nat
import Mathlib.Logic.Function.Iterate

/-!
# The cadence of blinking

A session counts down the frames of its blink phase and flips the phase where none is left.
How many frames have been counted therefore says all: the phases of so many frames that are
over, and whether their number is odd, give the phase (`Config.blinkPhase`), as what remains
of the frames gives what is left of it.

Behind the stream the count stands still, and every call flips the phase once more
(`Session.Flipped`).  Only the first of these calls looks at the frames that are left.

What a session asks of its stage can be read in its record, and so can the times that it
waits (`Performance.waits`): none on the way into the stream, a frame interval in front of
every burst but the first, and behind them the rest of the phase and whole phases.

All this takes for granted that nothing disturbs the session.  Whatever happens to it, there
is always a frame left of the phase, and never more than a whole phase of them, and without
blinking the phase is never flipped (`Session.Counts`).  With so few frames the first wait
behind the stream is a time that a machine can hold (`Session.Counts.sustainWait?_eq`).
-/

namespace BaudReel

namespace Config

variable {config : Config}

/-- The blink phase where so many frames have been counted. -/
def blinkPhase (config : Config) (count : Nat) : Bool :=
  decide (count / config.blinkFrames % 2 = 1)

/-- The first frame is shown in the first phase. -/
theorem blinkPhase_zero (config : Config) : config.blinkPhase 0 = false := by
  rw [blinkPhase, Nat.zero_div]
  rfl

/-- One more frame is counted, and behind the last one of a phase it is flipped. -/
theorem blinkPhase_succ (config : Config) (count : Nat) :
    config.blinkPhase (count + 1) =
      if config.blinkRest count - 1 = 0 then !config.blinkPhase count
      else config.blinkPhase count := by
  have hpos := config.blinkFrames_pos
  have hlt : count % config.blinkFrames < config.blinkFrames := Nat.mod_lt _ hpos
  have hsplit := Nat.div_add_mod count config.blinkFrames
  unfold blinkPhase blinkRest
  by_cases hover : count % config.blinkFrames + 1 = config.blinkFrames
  · have hwhole : count + 1 = config.blinkFrames * (count / config.blinkFrames + 1) := by
      rw [Nat.mul_succ]
      omega
    have hnext : (count + 1) / config.blinkFrames = count / config.blinkFrames + 1 := by
      rw [hwhole, Nat.mul_div_cancel_left _ hpos]
    rw [if_pos (by omega), hnext, ← decide_not, decide_eq_decide]
    omega
  · have hless : count % config.blinkFrames + 1 < config.blinkFrames := by omega
    have hwithin : count + 1 = config.blinkFrames * (count / config.blinkFrames) +
        (count % config.blinkFrames + 1) := by omega
    have hnext : (count + 1) / config.blinkFrames = count / config.blinkFrames := by
      rw [hwithin, Nat.mul_add_div hpos, Nat.div_eq_of_lt hless, Nat.add_zero]
    rw [if_neg (by omega), hnext]

/-- What has been counted of a phase and what is left of it make up a whole one. -/
theorem add_blinkRest (config : Config) (count : Nat) :
    count + config.blinkRest count =
      config.blinkFrames * (count / config.blinkFrames) + config.blinkFrames := by
  have hlt : count % config.blinkFrames < config.blinkFrames := Nat.mod_lt _ config.blinkFrames_pos
  have hsplit := Nat.div_add_mod count config.blinkFrames
  unfold blinkRest
  omega

/-- The frames of a phase fit a 32-bit word. -/
theorem blinkFrames_le_word (config : Config) : config.blinkFrames ≤ Word.max32 :=
  Nat.max_le.2 ⟨by decide, Nat.min_le_right _ _⟩

/-- The frames of a phase take no longer than the phase and an interval, even if one of
these is nothing. -/
theorem interval_mul_frames_le (config : Config) :
    config.frameInterval * config.blinkFrames ≤ config.blinkDuration + config.frameInterval := by
  rcases Nat.eq_zero_or_pos config.frameInterval with hnone | hinterval
  · rw [hnone, Nat.zero_mul]
    exact Nat.zero_le _
  · rcases Nat.eq_zero_or_pos config.blinkDuration with hnone | hduration
    · -- a phase that takes no time still has one frame
      have hshort : min (config.blinkDuration + (max config.frameInterval 1 - 1)) Word.max64 <
          max config.frameInterval 1 := by omega
      have hframes : config.blinkFrames = 1 := by
        rw [blinkFrames, Nat.div_eq_of_lt hshort]
        rfl
      rw [hframes, Nat.mul_one]
      exact Nat.le_add_left _ _
    · exact Nat.le_of_lt (interval_mul_frames_lt hinterval hduration)

end Config

namespace Span

/-- Nanoseconds make up seconds as milliseconds do. -/
theorem nanos_mul (rest count : Nat) :
    rest * nanosPerMilli * count / nanosPerSec = rest * count / 1000 ∧
      rest * nanosPerMilli * count % nanosPerSec = rest * count % 1000 * nanosPerMilli := by
  have hscaled : rest * nanosPerMilli * count = rest * count * nanosPerMilli :=
    Nat.mul_right_comm _ _ _
  have hunit : nanosPerSec = 1000 * nanosPerMilli := by decide
  have hpos : 0 < nanosPerMilli := by decide
  rw [hscaled, hunit]
  exact ⟨Nat.mul_div_mul_right _ _ hpos, Nat.mul_mod_mul_right _ _ _⟩

/-- A product in milliseconds, whole seconds apart. -/
theorem millis_mul (millis count : Nat) :
    millis * count / 1000 = millis / 1000 * count + millis % 1000 * count / 1000 ∧
      millis * count % 1000 = millis % 1000 * count % 1000 := by
  have hproduct : millis * count = 1000 * (millis / 1000 * count) + millis % 1000 * count := by
    rw [← Nat.mul_assoc, ← Nat.add_mul, Nat.div_add_mod]
  rw [hproduct]
  exact ⟨Nat.mul_add_div (by decide) _ _, Nat.mul_add_mod _ _ _⟩

/-- **A product of a time** that is not too long for a machine: neither the nanoseconds nor
the seconds that they make up are too many. -/
theorem times?_ofMillis {millis count : Nat} (hcount : count ≤ Word.max32)
    (hroom : millis * count ≤ 2 * Word.max64) :
    (ofMillis millis).times? count = some (ofMillis (millis * count)) := by
  obtain ⟨hcarry, hleft⟩ := nanos_mul (millis % 1000) count
  obtain ⟨hsecs, hmillis⟩ := millis_mul millis count
  have hrest : millis % 1000 * nanosPerMilli ≤ 999 * nanosPerMilli :=
    Nat.mul_le_mul_right _ (Nat.le_of_lt_succ (Nat.mod_lt millis (by decide)))
  have hnanos : millis % 1000 * nanosPerMilli * count ≤ Word.max64 :=
    Nat.le_trans (Nat.mul_le_mul hrest hcount) (by decide)
  have hwhole : millis / 1000 * count + millis % 1000 * count / 1000 ≤ Word.max64 := by omega
  -- unfolded in one step, since nothing may count up to the nanoseconds of a second
  have htimes : (ofMillis millis).times? count =
      (Word.mul? (millis % 1000 * nanosPerMilli) count).bind fun nanos =>
        (Word.mul? (millis / 1000) count).bind fun secs =>
          (Word.add? secs (nanos / nanosPerSec)).bind fun secs =>
            some ⟨secs, nanos % nanosPerSec⟩ := rfl
  rw [htimes, Word.mul?_eq hnanos, Option.bind_some,
    Word.mul?_eq (Nat.le_trans (Nat.le_add_right _ _) hwhole), Option.bind_some, hcarry, hleft,
    Word.add?_eq hwhole, Option.bind_some, ofMillis, hsecs, hmillis]

end Span

namespace Session

/-- A session that counts the frames of its blink phases: one at least is left of the phase,
and never more than a phase has.  Without blinking the phase is never flipped. -/
structure Counts (config : Config) (s : Session) : Prop where
  config_eq : s.config = config
  left_pos : 0 < s.blinkLeft
  left_le : s.blinkLeft ≤ config.blinkFrames
  still : config.blinkMode = .off → s.blinked = false
  ends : config.blinkMode = .off → ∀ last begun, s.phase ≠ .sustaining last begun

/-- A turn behind which a session counts; without blinking it shows no flipped frame. -/
structure CountsTurn (config : Config) (turn : Turn) : Prop where
  session : turn.session.Counts config
  shown : config.blinkMode = .off → ∀ f, turn.step = .frame f → f.blinked = false

section Counting

variable {config : Config} {s t : Session}

/-- What is told and measured has nothing to do with counting. -/
theorem Counts.congr (h : s.Counts config) {phase : Phase} {sized : Bool} {status : Option Status}
    {strings : Option Nat}
    (ht : t = { s with phase, sized, lastStatus := status, stringsTold := strings })
    (hover : config.blinkMode = .off → ∀ last begun, phase ≠ .sustaining last begun) :
    t.Counts config := by
  subst ht
  exact ⟨h.config_eq, h.left_pos, h.left_le, h.still, hover⟩

/-- A session that has not begun has counted no frame. -/
theorem counts_unbegun (config : Config) (sustain : Bool) : (unbegun config sustain).Counts config :=
  ⟨rfl, config.blinkFrames_pos, Nat.le_refl _, fun _ => rfl, fun _ _ _ => Phase.noConfusion⟩

/-- Going on in the blink phase stays within words. -/
theorem Counts.advanceBlink (h : s.Counts config) : s.advanceBlink.Counts config := by
  have hpos := config.blinkFrames_pos
  have hle := h.left_le
  unfold Session.advanceBlink
  split
  case isTrue => exact h
  case isFalse hsome =>
    have henabled : config.blinkMode ≠ .off := by
      intro hoff
      rw [h.config_eq, hoff] at hsome
      exact hsome rfl
    have hconfig : s.config.blinkFrames = config.blinkFrames := by rw [h.config_eq]
    split
    case isTrue =>
      exact ⟨h.config_eq, hconfig ▸ hpos, Nat.le_of_eq hconfig, fun hoff => absurd hoff henabled,
        h.ends⟩
    case isFalse hleft =>
      exact ⟨h.config_eq, Nat.pos_of_ne_zero hleft, Nat.le_trans (Nat.sub_le _ _) hle, h.still,
        h.ends⟩

/-- Playing a burst stays within words. -/
theorem Counts.playBurst (h : s.Counts config) (reel : Reel) (burst : Burst) (later : List Burst)
    (source : Source) (notices : List Notice) :
    let made := s.playBurst reel burst later
    CountsTurn config ⟨.frame made.1, made.2.1, source, notices⟩ := by
  intro made
  obtain ⟨hframe, status, strings, hsession⟩ := s.playBurst_fst_snd reel burst later
  refine ⟨h.congr hsession fun hoff last begun hsustaining => ?_, fun hoff f hf => ?_⟩
  · -- only a session that blinks by itself goes on behind its last burst
    cases later with
    | nil =>
      have hmode : (s.sustain && s.config.blinkMode == .auto) = false := by
        rw [h.config_eq, hoff]
        exact Bool.and_false _
      rw [burstPhase, phaseAfter, hmode, Bool.false_and, if_neg Bool.false_ne_true] at hsustaining
      exact absurd hsustaining Phase.noConfusion
    | cons next rest => exact absurd hsustaining Phase.noConfusion
  · obtain rfl : s.burstFrame reel burst later = f := hframe.symm.trans (Step.frame.inj hf)
    exact h.still hoff

theorem Counts.begin (h : s.Counts config) (source : Source) (acquired : Acquired) :
    CountsTurn config (.ofMade source (s.begin acquired)) := by
  cases hplan : Burst.plan s.config acquired.data.length with
  | nil =>
    obtain ⟨⟨position, hframe⟩, status, strings, hsession⟩ := s.playNothing_fst_snd acquired
    rw [begin_eq_playNothing hplan]
    refine ⟨h.congr hsession fun _ _ _ => Phase.noConfusion, fun _ f hf => ?_⟩
    rw [← Step.frame.inj hf, hframe]
    rfl
  | cons burst later =>
    have hmeasured : (s.measure acquired.data).2.Counts config := by
      rw [measure_eq]
      exact h.congr rfl h.ends
    rw [(begin_eq_playBurst hplan).2]
    exact hmeasured.playBurst _ _ _ _ _

theorem Counts.acquire (h : s.Counts config) (source : Source) :
    CountsTurn config (s.acquire source) := by
  rw [Session.acquire]
  rcases source.resolve with ⟨_ | acquired, rest⟩
  · exact ⟨h.congr rfl fun _ _ _ => Phase.noConfusion, fun _ _ => (absurd · Step.noConfusion)⟩
  · exact h.begin rest acquired

/-- **One turn** of a session that counts. -/
theorem Counts.turn (h : s.Counts config) (source : Source) :
    CountsTurn config (s.turn source) := by
  cases hphase : s.phase with
  | start =>
    by_cases hready : source.isReady
    · rw [turn_of_ready hphase hready]
      exact h.acquire source
    · obtain ⟨told, htold⟩ := s.placeholder_snd_fst
      rw [turn_of_waiting hphase hready]
      refine ⟨h.congr htold fun _ _ _ => Phase.noConfusion, fun _ f hf => ?_⟩
      rw [← Step.frame.inj hf]
      rfl
  | opening =>
    rw [turn_of_opening hphase]
    exact h.acquire source
  | playing reel burst later =>
    rw [turn_of_playing hphase]
    exact h.advanceBlink.playBurst _ _ _ _ _
  | sustaining last begun =>
    have henabled : config.blinkMode ≠ .off := fun hoff => h.ends hoff last begun hphase
    rw [turn_of_sustaining hphase]
    exact ⟨⟨h.config_eq, h.left_pos, h.left_le, fun hoff => absurd hoff henabled,
      fun hoff => absurd hoff henabled⟩, fun hoff => absurd hoff henabled⟩
  | done =>
    rw [turn_of_done hphase]
    exact ⟨h, fun _ _ => (absurd · Step.noConfusion)⟩

/-- The time that is left of a phase is one that a machine can hold. -/
theorem Counts.sustainWait?_eq (h : s.Counts config) (hinterval : config.frameInterval ≤ Word.max64)
    (hduration : config.blinkDuration ≤ Word.max64) (begun : Bool) :
    s.sustainWait? begun = some (.ofMillis (s.sustainWait begun)) := by
  cases begun with
  | true => rfl
  | false =>
    have hcount := Nat.le_trans h.left_le config.blinkFrames_le_word
    have hfit := Nat.mul_le_mul_left config.frameInterval h.left_le
    have hframes := config.interval_mul_frames_le
    have hroom : s.config.frameInterval * s.blinkLeft ≤ 2 * Word.max64 := by
      rw [h.config_eq]
      omega
    exact Span.times?_ofMillis hcount hroom

end Counting

/-- So many calls behind a last frame that blinks on, each of which has flipped its phase. -/
structure Flipped (config : Config) (last : Frame) (left flips : Nat) (s : Session) : Prop where
  config_eq : s.config = config
  phase_eq : s.phase = .sustaining last (decide (0 < flips))
  blinked_eq : s.blinked = not^[flips] last.blinked
  blinkLeft_eq : s.blinkLeft = left

section Flipping

variable {config : Config} {last : Frame} {left flips : Nat} {s : Session}

/-- **One flip more.**  Only the first waits for what is left of a phase. -/
theorem Flipped.turn (h : s.Flipped config last left flips) (source : Source) :
    s.pause? =
        some (if flips = 0 then config.frameInterval * left else config.blinkDuration) ∧
      (s.turn source).step = .frame { last with blinked := not^[flips + 1] last.blinked } ∧
      (s.turn source).session.Flipped config last left (flips + 1) := by
  have hflip : (!s.blinked) = not^[flips + 1] last.blinked := by
    rw [h.blinked_eq, Function.iterate_succ_apply']
  refine ⟨?_, ?_, ?_⟩
  · rw [pause?, h.phase_eq, ← h.config_eq, ← h.blinkLeft_eq]
    cases flips <;> rfl
  · rw [turn_of_sustaining h.phase_eq, ← hflip]
    rfl
  · rw [turn_of_sustaining h.phase_eq]
    exact ⟨h.config_eq, rfl, hflip, h.blinkLeft_eq⟩

/-- **A run of flips.**  Each call adds one. -/
theorem Flipped.turns (h : s.Flipped config last left flips) (source : Source) (n : Nat) :
    (s.turns source n).1.Flipped config last left (flips + n) := by
  induction n generalizing s source flips with
  | zero => exact h
  | succ n ih =>
    have hrest := ih (h.turn source).2.2 (s.turn source).source
    rw [Nat.add_right_comm] at hrest
    exact hrest

end Flipping

section Rendering

variable {config : Config} {sustain : Bool} {source : Source}

/-- A session that is over stays as it is. -/
theorem turns_of_done {s : Session} (h : s.phase = .done) (source : Source) (n : Nat) :
    s.turns source n = (s, source) := by
  induction n with
  | zero => rfl
  | succ n ih =>
    rw [turns, turn_of_done h]
    exact ih

/-- A session that comes to its source does not wait. -/
theorem pause?_readied (config : Config) (sustain : Bool) (source : Source) :
    (readied config sustain source).pause? = none := by
  unfold readied
  split <;> rfl

/-- No call waits before the stream is open. -/
theorem pause?_of_le_leadIn (config : Config) (sustain : Bool) {n : Nat} (h : n ≤ source.leadIn) :
    ((unbegun config sustain).turns source n).1.pause? = none := by
  rcases Nat.eq_or_lt_of_le h with rfl | hlt
  · rw [turns_leadIn]
    exact pause?_readied config sustain source
  · rcases turn_of_lt_leadIn config sustain hlt with ⟨-, hhere, -⟩ | ⟨-, hhere, -⟩
    · rw [hhere]
      rfl
    · rw [hhere]
      exact pause?_readied config sustain source

/-- Every burst but the first is waited for. -/
theorem pause?_burst (sustain : Bool) {k : Nat}
    (hk : k + 1 < (Burst.plan config source.yield.data.length).length) :
    ((unbegun config sustain).turns source (source.leadIn + (k + 1))).1.pause? =
      some config.frameInterval := by
  have hahead := ahead_of_leadIn config sustain source k
  have hphase := hahead.next _ _ (List.drop_eq_getElem_cons hk)
  rw [pause?, hphase, hahead.config_eq]

/-- Playing a burst does not touch the blink phase. -/
theorem blinked_playBurst (s : Session) (reel : Reel) (burst : Burst) (later : List Burst) :
    (s.playBurst reel burst later).2.1.blinked = s.blinked := by
  obtain ⟨-, status, strings, hsession⟩ := s.playBurst_fst_snd reel burst later
  rw [hsession]

theorem blinked_readied (config : Config) (sustain : Bool) (source : Source) :
    (readied config sustain source).blinked = false := by
  unfold readied
  split <;> rfl

/-- With each frame the phase is that of one more frame. -/
theorem blinked_advanceBlink {s : Session} (henabled : s.config.blinkMode.isEnabled = true)
    {count : Nat} (hleft : s.blinkLeft = s.config.blinkRest count)
    (hblinked : s.blinked = s.config.blinkPhase count) :
    s.advanceBlink.blinked = s.config.blinkPhase (count + 1) := by
  rw [advanceBlink, henabled, Bool.not_true, if_neg Bool.false_ne_true, hleft, hblinked,
    Config.blinkPhase_succ]
  split <;> rfl

/-- **The turn for a burst** is in the phase that the bursts before it make up. -/
theorem blinked_turn (henabled : config.blinkMode.isEnabled = true) (sustain : Bool)
    (source : Source) {k : Nat} (hk : k < (Burst.plan config source.yield.data.length).length) :
    let here := (unbegun config sustain).turns source (source.leadIn + k)
    (here.1.turn here.2).session.blinked = config.blinkPhase k := by
  induction k with
  | zero =>
    intro here
    let opening := readied config sustain source
    have hconfig := (readied_eq config sustain source).1
    have hhere : here = (opening, source.entered) := turns_leadIn ..
    have hplan : Burst.plan opening.config source.yield.data.length = _ :=
      (congrArg (Burst.plan · _) hconfig).trans (List.drop_eq_getElem_cons hk)
    rw [hhere, (turn_entered config sustain source).2, (begin_eq_playBurst hplan).2,
      measure_eq, Config.blinkPhase_zero]
    exact (blinked_playBurst _ _ _ _).trans (blinked_readied config sustain source)
  | succ k ih =>
    intro here
    obtain ⟨f, hbefore⟩ := playsBurst_turn henabled sustain source (Nat.lt_of_succ_lt hk)
    have hahead := ahead_of_leadIn config sustain source k
    have hconfig : here.1.config = config := hahead.config_eq
    have hphase := hahead.next _ _ (List.drop_eq_getElem_cons hk)
    have hhere : here = _ := turns_add (unbegun config sustain) source (source.leadIn + k) 1
    have hleft : here.1.blinkLeft = here.1.config.blinkRest k := by
      rw [hconfig, hhere]
      exact hbefore.blinkLeft_eq
    have hblinked : here.1.blinked = here.1.config.blinkPhase k := by
      rw [hconfig, hhere]
      exact ih (Nat.lt_of_succ_lt hk)
    have hcounted := blinked_advanceBlink (hconfig ▸ henabled) hleft hblinked
    rw [hconfig] at hcounted
    rw [turn_of_playing hphase]
    exact (blinked_playBurst _ _ _ _).trans hcounted

end Rendering

end Session

/-- The time that a line of a record is of, if any. -/
def Occurrence.time? : Occurrence → Option Nat
  | .waited duration _ => some duration
  | .told _ => none

namespace Performance

variable {σ : Type} (stage : Stage σ) (p : Performance σ)

/-- The times that the stage has been asked to wait behind a number of calls. -/
def waits (n : Nat) : List Nat :=
  ((p.withRecord []).after stage.recorded n).world.2.filterMap Occurrence.time?

/-- The waits of one more call come behind those before. -/
theorem waits_succ (n : Nat) :
    p.waits stage (n + 1) =
      p.waits stage n ++ ((p.after stage n).asked stage).filterMap Occurrence.time? := by
  rw [waits, waits, after_recorded, after_recorded, List.range_succ, List.flatMap_append,
    List.flatMap_singleton]
  show List.filterMap _ ([] ++ (_ ++ _)) = List.filterMap _ ([] ++ _) ++ _
  rw [← List.append_assoc, List.filterMap_append]

variable {stage} {p}

/-- An undisturbed call waits if the phase asks for it. -/
theorem Undisturbed.time?_asked (h : p.Undisturbed stage) :
    (p.asked stage).filterMap Occurrence.time? = p.session.pause?.toList := by
  have hawake : ¬stage.cancelled p.world = true := by simp [h.awake]
  have htold : ((p.session.turn p.source).notices.map Occurrence.told).filterMap
      Occurrence.time? = [] := by
    rw [List.filterMap_map]
    exact List.filterMap_eq_nil_iff.2 fun _ _ => rfl
  rw [asked, if_neg hawake]
  cases hpause : p.session.pause? with
  | none => exact htold
  | some time =>
    have hcompleted : (stage.wait time p.world).1 = true := h.completes time hpause
    simp only [if_pos hcompleted]
    exact congrArg (time :: ·) htold

/-- In a free run each call waits as long as its session says. -/
theorem RunsFreely.waits_succ {n : Nat} (h : p.RunsFreely stage (n + 1)) :
    p.waits stage (n + 1) =
      p.waits stage n ++ (p.session.turns p.source n).1.pause?.toList := by
  have hstate := (h.mono (Nat.le_succ n)).state_after
  rw [Performance.waits_succ, (h n (Nat.lt_succ_self n)).time?_asked, ← hstate]

section Run

variable {world : σ} {config : Config} {sustain : Bool} {source : Source}

/-- **Whatever happens to a session,** it counts. -/
theorem counts_after (stage : Stage σ) (world : σ) (config : Config) (sustain : Bool)
    (source : Source) (n : Nat) :
    ((fresh config sustain source world).after stage n).session.Counts config := by
  induction n with
  | zero => exact Session.counts_unbegun config sustain
  | succ n ih =>
    rw [after_succ]
    by_cases hfree : ((fresh config sustain source world).after stage n).Undisturbed stage
    · rw [hfree.next_eq]
      exact (ih.turn _).session
    · obtain ⟨-, -, hstopped, -⟩ := told_of_disturbed hfree
      rw [hstopped]
      exact ih.congr rfl fun _ _ _ => Phase.noConfusion

/-- Without blinking no frame is shown flipped. -/
theorem blinked_eq_false (hoff : config.blinkMode = .off) {n : Nat} {f : Frame}
    (hframe : (fresh config sustain source world).result stage n = .frame f) :
    f.blinked = false := by
  have hundisturbed := runsFreely_of_result hframe n (Nat.lt_succ_self n)
  have hcounts := (counts_after stage world config sustain source n).turn
    ((fresh config sustain source world).after stage n).source
  exact hcounts.shown hoff f (hundisturbed.result_zero.symm.trans hframe)

/-- Nothing has been waited for where the stream is opened. -/
theorem waits_opening {n : Nat} (hn : n ≤ source.leadIn + 1)
    (hfree : (fresh config sustain source world).RunsFreely stage n) :
    (fresh config sustain source world).waits stage n = [] := by
  induction n with
  | zero => rfl
  | succ n ih =>
    have hpause : ((fresh config sustain source world).session.turns source n).1.pause? = none :=
      Session.pause?_of_le_leadIn config sustain (Nat.le_of_succ_le_succ hn)
    have hwaits := hfree.waits_succ
    rw [hwaits, ih (Nat.le_of_succ_le hn) (hfree.mono (Nat.le_succ n))]
    exact congrArg Option.toList hpause

/-- **A frame interval is waited** in front of every burst but the first. -/
theorem waits_burst {k : Nat} (hk : k < (Burst.plan config source.yield.data.length).length)
    (hfree : (fresh config sustain source world).RunsFreely stage (source.leadIn + k + 1)) :
    (fresh config sustain source world).waits stage (source.leadIn + k + 1) =
      List.replicate k config.frameInterval := by
  induction k with
  | zero => exact waits_opening (Nat.le_refl _) hfree
  | succ k ih =>
    have hpause : ((fresh config sustain source world).session.turns source
        (source.leadIn + (k + 1))).1.pause? = some config.frameInterval :=
      Session.pause?_burst sustain hk
    have hbefore := ih (Nat.lt_of_succ_lt hk) (hfree.mono (Nat.le_succ _))
    have hwaits := hfree.waits_succ
    rw [hwaits, List.replicate_succ']
    exact congrArg₂ (· ++ ·) hbefore (congrArg Option.toList hpause)

end Run

section Behind

variable {m : Nat} (hfree : ∀ n, p.RunsFreely stage n)
include hfree

/-- Behind a last frame that blinks on, what is left of the phase is waited for, and then
whole phases. -/
theorem flips_behind {config : Config} {last : Frame} {left : Nat}
    (hflipped : (p.session.turns p.source m).1.Flipped config last left 0) (j : Nat) :
    p.result stage (m + j) = .frame { last with blinked := not^[j + 1] last.blinked } ∧
      p.waits stage (m + (j + 1)) =
        p.waits stage m ++ config.frameInterval * left :: List.replicate j config.blinkDuration := by
  have hthere : ∀ i, (p.session.turns p.source (m + i)).1.Flipped config last left i := by
    intro i
    have hturns := hflipped.turns (p.session.turns p.source m).2 i
    rw [Nat.zero_add, ← Session.turns_add] at hturns
    exact hturns
  refine ⟨?_, ?_⟩
  · rw [(hfree _).result_eq]
    exact ((hthere j).turn _).2.1
  · induction j with
    | zero =>
      rw [(hfree _).waits_succ, (hflipped.turn p.source).1]
      rfl
    | succ j ih =>
      have hpause := ((hthere (j + 1)).turn p.source).1
      rw [if_neg (Nat.succ_ne_zero j)] at hpause
      have hwaits := (hfree (m + (j + 1) + 1)).waits_succ
      rw [hpause, ih] at hwaits
      rw [← Nat.add_assoc, hwaits, List.replicate_succ', List.append_assoc]
      rfl

/-- Behind a last frame that does not, nothing is shown or waited for. -/
theorem ends_behind (hdone : (p.session.turns p.source m).1.phase = .done) (n : Nat) :
    p.result stage (m + n) = .ended ∧ p.waits stage (m + n) = p.waits stage m := by
  have hthere : ∀ i, (p.session.turns p.source (m + i)).1.phase = .done := by
    intro i
    rw [Session.turns_add, Session.turns_of_done hdone]
    exact hdone
  refine ⟨?_, ?_⟩
  · rw [(hfree _).result_eq, Session.outcome, Session.turn_of_done (hthere n)]
  · induction n with
    | zero => rfl
    | succ n ih =>
      have hpause : (p.session.turns p.source (m + n)).1.pause? = none := by
        rw [Session.pause?, hthere n]
      rw [← Nat.add_assoc, (hfree _).waits_succ, hpause, ih]
      exact List.append_nil _

end Behind

section Bursts

variable {world : σ} {config : Config} {sustain : Bool} {source : Source}
  (hfree : ∀ n, (fresh config sustain source world).RunsFreely stage n)
include hfree

/-- The call for a burst shows its frame in the phase that the burst's number has. -/
theorem shown_in_phase (henabled : config.blinkMode.isEnabled = true) {i : Nat}
    (hi : i < (Burst.plan config source.yield.data.length).length) :
    ∃ f, (fresh config sustain source world).result stage (source.leadIn + i) = .frame f ∧
      f.blinked = config.blinkPhase i := by
  obtain ⟨f, hplays⟩ := Session.playsBurst_turn henabled sustain source hi
  have hphase := Session.blinked_turn henabled sustain source hi
  exact ⟨f, (hfree _).result_eq.trans hplays.step_eq, hplays.blinked_eq.symm.trans hphase⟩

/-- Behind the last burst its frame blinks on, or the session is over. -/
theorem behind_bursts (henabled : config.blinkMode.isEnabled = true) {counted : Nat}
    (hlast : counted + 1 = (Burst.plan config source.yield.data.length).length) :
    let p := fresh config sustain source world
    let s := (p.session.turns p.source (source.leadIn + (counted + 1))).1
    ∃ last, p.result stage (source.leadIn + counted) = .frame last ∧
      if Session.blinksOn config sustain last then
        s.Flipped config last (config.blinkRest counted) 0
      else s.phase = .done := by
  intro p s
  obtain ⟨last, hplays⟩ := Session.playsBurst_turn henabled sustain source
    (Nat.lt_of_succ_le (Nat.le_of_eq hlast))
  have hs : s = _ :=
    congrArg Prod.fst (Session.turns_add p.session p.source (source.leadIn + counted) 1)
  have hphase := hplays.behind hlast
  refine ⟨last, (hfree _).result_eq.trans hplays.step_eq, ?_⟩
  rw [hs]
  split
  case isTrue hon =>
    rw [if_pos hon] at hphase
    exact ⟨hplays.config_eq, hphase, hplays.blinked_eq, hplays.blinkLeft_eq⟩
  case isFalse hoff =>
    rw [if_neg hoff] at hphase
    exact hphase

/-- The phase that was running behind the stream began with the frame that flipped it, and
takes the time of all its frames. -/
theorem sum_waits_behind {counted : Nat}
    (hlast : counted < (Burst.plan config source.yield.data.length).length) :
    let p := fresh config sustain source world
    let began := config.blinkFrames * (counted / config.blinkFrames)
    (List.replicate counted config.frameInterval ++
        [config.frameInterval * config.blinkRest counted]).sum =
      (p.waits stage (source.leadIn + began + 1)).sum +
        config.blinkFrames * config.frameInterval := by
  intro p began
  have hbegan : began < (Burst.plan config source.yield.data.length).length :=
    Nat.lt_of_le_of_lt (Nat.mul_div_le counted config.blinkFrames) hlast
  have hwaits : p.waits stage (source.leadIn + began + 1) = _ := waits_burst hbegan (hfree _)
  calc (List.replicate counted config.frameInterval ++
          [config.frameInterval * config.blinkRest counted]).sum
      = (counted + config.blinkRest counted) * config.frameInterval := by
        rw [List.sum_append, List.sum_replicate_nat, List.sum_singleton, Nat.add_mul,
          Nat.mul_comm (config.blinkRest counted)]
    _ = (began + config.blinkFrames) * config.frameInterval := by rw [config.add_blinkRest]
    _ = _ := by rw [hwaits, List.sum_replicate_nat, Nat.add_mul]

end Bursts

/-- **Blinking is counted in frames.**

Let nothing disturb a session that blinks, by itself or through its host, and let its stream
have bursts.  The frames of a phase, and how many bursts there are, then say all of its
cadence:

* The frame of a burst is flipped if an odd number of phases was over before it.
* In front of each burst but the first an interval is waited, and before that nothing is.
* Where the last frame blinks on, the first wait behind it is for what is left of the frames
  of the phase, so that the phase that was running takes the time of all its frames.  Every
  later wait is for a whole phase.  The frames are the last one of the stream, flipped once
  more in every call.
* Where it does not, nothing more is shown, nor waited for.

Without blinking no frame is ever flipped.  And whatever settings there are and whatever
happens, a frame at least is left of the phase, and no more than a phase has, which is a
narrow word; a machine that has words for the interval and the duration computes the time to
wait. -/
theorem blinking_is_counted_in_frames {σ : Type} (stage : Stage σ) (world : σ) (config : Config)
    (sustain : Bool) (source : Source) :
    let p := fresh config sustain source world
    let bursts := (Burst.plan config source.yield.data.length).length
    let first := source.leadIn
    let interval := config.frameInterval
    let frames := config.blinkFrames
    let counted := bursts - 1
    let rest := frames - counted % frames
    ((∀ n, p.RunsFreely stage n) → config.blinkMode.isEnabled = true → 1 ≤ bursts →
      (∀ i < bursts, ∃ f, p.result stage (first + i) = .frame f ∧
        f.blinked = decide (i / frames % 2 = 1)) ∧
      p.waits stage (first + bursts) = List.replicate counted interval ∧
      ∃ last, p.result stage (first + counted) = .frame last ∧
        if Session.blinksOn config sustain last then
          (∀ j, p.result stage (first + counted + j) =
              .frame { last with blinked := not^[j] last.blinked } ∧
            p.waits stage (first + bursts + (j + 1)) =
              List.replicate counted interval ++
                interval * rest :: List.replicate j config.blinkDuration) ∧
          (p.waits stage (first + bursts + 1)).sum =
            (p.waits stage (first + frames * (counted / frames) + 1)).sum + frames * interval
        else ∀ n, p.result stage (first + bursts + n) = .ended ∧
          p.waits stage (first + bursts + n) = List.replicate counted interval) ∧
    (config.blinkMode = .off → ∀ n f, p.result stage n = .frame f → f.blinked = false) ∧
    ∀ n, let s := (p.after stage n).session
      1 ≤ s.blinkLeft ∧ s.blinkLeft ≤ frames ∧ frames ≤ Word.max32 ∧
      (interval ≤ Word.max64 → config.blinkDuration ≤ Word.max64 →
        ∀ begun, s.sustainWait? begun = some (.ofMillis (s.sustainWait begun))) := by
  intro p bursts first interval frames counted rest
  refine ⟨fun hfree henabled hsome => ?_, fun hoff n f hf => blinked_eq_false hoff hf, fun n => ?_⟩
  · have hbursts : counted + 1 = bursts := Nat.sub_add_cancel hsome
    have hcounted : counted < bursts := Nat.lt_of_succ_le (Nat.le_of_eq hbursts)
    have hwaits : p.waits stage (first + bursts) = List.replicate counted interval := by
      rw [← hbursts]
      exact waits_burst hcounted (hfree _)
    obtain ⟨last, hlast, hbehind⟩ := behind_bursts hfree henabled hbursts
    rw [hbursts] at hbehind
    refine ⟨fun i hi => shown_in_phase hfree henabled hi, hwaits, last, hlast, ?_⟩
    split at hbehind
    case isTrue hon =>
      have hflips := flips_behind hfree hbehind
      rw [hwaits] at hflips
      rw [if_pos hon]
      refine ⟨fun j => ⟨?_, (hflips j).2⟩, ?_⟩
      · cases j with
        | zero => exact hlast
        | succ j =>
          have hcall : first + counted + (j + 1) = first + bursts + j := by omega
          rw [hcall]
          exact (hflips j).1
      · have hfirst : p.waits stage (first + bursts + 1) = _ := (hflips 0).2
        rw [hfirst]
        exact sum_waits_behind hfree hcounted
    case isFalse hover =>
      have hends := ends_behind hfree hbehind
      rw [hwaits] at hends
      rw [if_neg hover]
      exact hends
  · have hcounts := counts_after stage world config sustain source n
    exact ⟨hcounts.left_pos, hcounts.left_le, config.blinkFrames_le_word,
      hcounts.sustainWait?_eq⟩

/-- A glyph that blinks at 200 bits each second, so that every byte has a burst of its own,
with ten frames to a phase. -/
theorem blinking_is_counted_in_frames_slow :
    let config : Config :=
      { modemSpeed := .bps 200, blinkMode := .auto
        minWidth := 1, minHeight := 1, maxWidth := 1, maxHeight := 1 }
    let p := fresh config true (.bytes blinking) (Rehearsal.fresh 0 0)
    let bursts := (Burst.plan config blinking.length).length
    let counted := bursts - 1
    ((∀ n, p.RunsFreely Rehearsal.stage n) ∧ config.blinkMode.isEnabled = true ∧ 1 ≤ bursts) ∧
      (∃ last, p.result Rehearsal.stage counted = .frame last ∧
        p.result Rehearsal.stage (counted + 1) =
          .frame { last with blinked := !last.blinked } ∧
        p.waits Rehearsal.stage (bursts + 2) =
          List.replicate counted 50 ++ [50 * (10 - counted % 10), 500]) ∧
      ∀ n, let s := (p.after Rehearsal.stage n).session
        s.blinkLeft ≤ 10 ∧ s.sustainWait? false = some (.ofMillis (s.sustainWait false)) := by
  intro config p bursts counted
  obtain ⟨hfree, m, f, hstops, hblinks⟩ := exists_stopsAt_blinking (.bps 200) 50 500
  have hsome : 1 ≤ bursts := List.length_pos_iff.2 (hstops.plan_ne_nil hblinks)
  obtain ⟨hcadence, -, hcounts⟩ := blinking_is_counted_in_frames Rehearsal.stage
    (Rehearsal.fresh 0 0) config true (.bytes blinking)
  obtain ⟨-, -, last, hlast, hbehind⟩ := hcadence hfree rfl hsome
  have hcall : 0 + counted = m := hstops.eq_lastCall.symm
  have hsame : p.result Rehearsal.stage (0 + counted) = .frame f := by
    rw [hcall]
    exact hstops.shown
  obtain rfl : last = f := Step.frame.inj (hlast.symm.trans hsame)
  have hon : Session.blinksOn config true last = true := hblinks
  rw [if_pos hon] at hbehind
  have hframes : config.blinkFrames = 10 := by decide
  have hflipped : p.result Rehearsal.stage (0 + counted + 1) =
      .frame { last with blinked := !last.blinked } := (hbehind.1 1).1
  have hwaits : p.waits Rehearsal.stage (0 + bursts + 2) = List.replicate counted 50 ++
      [50 * (config.blinkFrames - counted % config.blinkFrames), 500] := (hbehind.1 1).2
  rw [Nat.zero_add] at hsame hflipped hwaits
  rw [hframes] at hwaits
  refine ⟨⟨hfree, rfl, hsome⟩, ⟨last, hsame, hflipped, hwaits⟩, fun n => ?_⟩
  · obtain ⟨-, hle, -, hheld⟩ := hcounts n
    exact ⟨hframes ▸ hle, hheld (by decide) (by decide) false⟩

end Performance

end BaudReel
