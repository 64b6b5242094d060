import BaudReel.Burst
import BaudReel.Stage
import BaudReel.Terminal
/-!
# Playback sessions

A session replays a stream as a sequence of frames, one for each call of
`Performance.next`:

    start ──▶ opening ──▶ playing ──▶ sustaining
      │          │           │            │
      └──────────┴───────────┴────────────┴──▶ done

While its source is still to be acquired, the first frame is an empty
placeholder.  The next call acquires the bytes, measures the whole stream if
the screen may grow, and plays the first burst.  Every later burst waits one
frame interval first.  When the last burst has been played and blinking text
remains, the session may go on flipping the blink phase for ever.

A step of a session is pure: it makes the next frame, the next session and the
notices for the stage.  `Performance.next` asks the source and the stage in
between, and stops at once where the stage is cancelled.
-/

namespace BaudReel

/-- A part of a whole as a fraction. -/
def fractionOf (part whole : Nat) : Float :=
  part.toUInt64.toFloat / whole.toUInt64.toFloat

/-- A stream that is being played. -/
structure Reel where
  data : Array UInt8
  /-- The error that the bytes are the message of, if any. -/
  error : Option SourceError
  terminal : Terminal

/-- How far a session has come. -/
inductive Phase where
  /-- Nothing has been asked of it. -/
  | start
  /-- The placeholder has been shown. -/
  | opening
  /-- Bursts have been played; `burst` is next, and `later` follow. -/
  | playing (reel : Reel) (burst : Burst) (later : List Burst)
  /-- The stream is over and its last frame blinks on.  The first wait of this
  phase finishes the blink phase the stream ended in. -/
  | sustaining (last : Frame) (begun : Bool)
  /-- Nothing more will come. -/
  | done

/-- A playback session. -/
structure Session where
  config : Config
  phase : Phase := .start
  /-- Whether blinking goes on behind the end of the stream. -/
  sustain : Bool := true
  /-- Whether the stream has been measured. -/
  sized : Bool := false
  /-- The blink phase. -/
  blinked : Bool := false
  /-- Frames left of the blink phase. -/
  blinkLeft : Nat
  /-- The status last told. -/
  lastStatus : Option Status := none
  /-- The number of descriptive strings last told. -/
  stringsTold : Option Nat := none

namespace Session

/-- A session that has not begun. -/
def fresh (config : Config) : Session where
  config := config
  blinkLeft := config.blinkFrames

/-- The session ends with the stream even if text blinks. -/
def withoutSustain (s : Session) : Session :=
  { s with sustain := false }

/-- Whether nothing more will come. -/
def isDone (s : Session) : Bool :=
  match s.phase with
  | .done => true
  | _ => false

/-- Ends the session. -/
def stop (s : Session) : Session :=
  { s with phase := .done }

/-- Tells a status, unless it is the one last told. -/
def tellStatus (s : Session) (status : Status) : Session × List Notice :=
  if s.lastStatus.any (·.agrees status) then (s, [])
  else ({ s with lastStatus := some status }, [.status status])

/-- Tells the descriptive strings the first time, and when there are more of
them. -/
def tellMetadata (s : Session) (strings : List String) : Session × List Notice :=
  if s.stringsTold.any (strings.length ≤ ·) then (s, [])
  else ({ s with stringsTold := some strings.length }, [.metadata strings])

/-- Counts a frame of the blink phase, and flips the phase at its end. -/
def advanceBlink (s : Session) : Session :=
  if !s.config.blinkMode.isEnabled then s
  else if s.blinkLeft - 1 = 0 then
    { s with blinked := !s.blinked, blinkLeft := s.config.blinkFrames }
  else { s with blinkLeft := s.blinkLeft - 1 }

/-- The placeholder that is shown while the source is still to be acquired. -/
def placeholder (s : Session) : Frame × Session × List Notice :=
  let frame := Frame.blank s.config {}
  let (s, notices) := s.tellStatus frame.status
  (frame, { s with phase := .opening }, notices)

/-- The terminal of the measuring pass: it has no screen, and goes through the whole stream. -/
def measuringPass (config : Config) (data : List UInt8) : Terminal :=
  ((Terminal.measuring config.maxWidth config.maxHeight).process data).finish

/-- Finds the screen size for a stream.  Where the screen may grow, the measuring pass is run;
what it asks for is kept within the allowed sizes, and the session notes that the stream has been
measured. -/
def measure (s : Session) (data : List UInt8) : (Nat × Nat) × Session :=
  if s.config.needsSizing then
    let (cols, rows) := (measuringPass s.config data).extent
    ((s.config.fitWidth cols, s.config.fitHeight rows), { s with sized := true })
  else ((s.config.minWidth, s.config.minHeight), s)

/-- The screen size for a stream, which does not depend on the session. -/
def sizeFor (config : Config) (data : List UInt8) : Nat × Nat :=
  ((fresh config).measure data).1

/-- The size that the measuring pass asks for, or the smallest one where the screen may not grow. -/
theorem sizeFor_eq (config : Config) (data : List UInt8) :
    sizeFor config data =
      if config.needsSizing then
        let pass := measuringPass config data
        (config.fitWidth pass.extent.1, config.fitHeight pass.extent.2)
      else (config.minWidth, config.minHeight) := by
  unfold sizeFor measure
  exact apply_ite Prod.fst _ _ _

/-- Measuring gives the size and leaves a note if there was something to measure. -/
theorem measure_eq (s : Session) (data : List UInt8) :
    s.measure data =
      (sizeFor s.config data, { s with sized := s.sized || s.config.needsSizing }) := by
  rw [sizeFor_eq, measure]
  cases s.config.needsSizing with
  | true => rw [if_pos rfl, if_pos rfl, Bool.or_true]
  | false => rw [if_neg Bool.false_ne_true, if_neg Bool.false_ne_true, Bool.or_false]

/-- The stream at its beginning, on a screen of the given size. -/
def openReel (config : Config) (acquired : Acquired) (size : Nat × Nat) : Reel where
  data := acquired.data.toArray
  error := acquired.error
  terminal := .rendering size.1 size.2 config.maxWidth config.maxHeight config.transparency

/-- Where no burst is played, an empty screen is all there is. -/
def playNothing (s : Session) (acquired : Acquired) : Frame × Session × List Notice :=
  let total := acquired.data.length
  let position := if total = 0 then 0.0 else fractionOf (s.config.seek.lead total) total
  let frame :=
    { Frame.blank s.config (.stopped position) with
      metadata := some []
      error := acquired.error }
  let (s, strings) := s.tellMetadata []
  let (s, status) := s.tellStatus frame.status
  (frame, s.stop, strings ++ status)

/-- The phase behind a frame of the last burst. -/
def phaseAfter (s : Session) (frame : Frame) : Phase :=
  if s.sustain && s.config.blinkMode == .auto && frame.willBlink then .sustaining frame false
  else .done

/-- Plays one burst.  Behind the last one the terminal is told that the stream
is over. -/
def playBurst (s : Session) (reel : Reel) (burst : Burst) (later : List Burst) :
    Frame × Session × List Notice :=
  let terminal := reel.terminal.process (reel.data.extract burst.start burst.stop).toList
  let terminal := if later.isEmpty then terminal.finish else terminal
  let (bells, terminal) := terminal.takeBells
  let status : Status := ⟨fractionOf burst.stop reel.data.size, !later.isEmpty⟩
  let (s, strings) := s.tellMetadata terminal.metadata
  let (s, statuses) := s.tellStatus status
  let frame :=
    { Frame.capture (terminal.grid?.getD default) s.config.view s.blinked status with
      metadata := some terminal.metadata
      error := reel.error }
  let phase :=
    match later with
    | [] => s.phaseAfter frame
    | next :: rest => .playing { reel with terminal } next rest
  (frame, { s with phase }, List.replicate bells .beep ++ strings ++ statuses)

/-- Begins to play what the source gave. -/
def begin (s : Session) (acquired : Acquired) : Frame × Session × List Notice :=
  let failure := acquired.error.toList.map Notice.failed
  let (frame, s, notices) :=
    match Burst.plan s.config acquired.data.length with
    | [] => s.playNothing acquired
    | burst :: later =>
      let (size, s) := s.measure acquired.data
      s.playBurst (openReel s.config acquired size) burst later
  (frame, s, failure ++ notices)

/-- How long to wait for the next flip of the blink phase. -/
def sustainWait (s : Session) (begun : Bool) : Nat :=
  if begun then s.config.blinkDuration else s.config.frameInterval * s.blinkLeft

/-- Flips the blink phase of the last frame. -/
def flip (s : Session) (last : Frame) : Frame × Session :=
  ({ last with blinked := !s.blinked },
    { s with blinked := !s.blinked, phase := .sustaining last true })

end Session

/-- What a call for the next frame comes to. -/
inductive Step where
  | frame (f : Frame)
  /-- The session has ended. -/
  | ended
  /-- The acquisition of the source broke off. -/
  | brokenOff

/-- The frame of a step, if it has one. -/
def Step.frame? : Step → Option Frame
  | .frame f => some f
  | _ => none

/-- A session on its stage. -/
structure Performance (σ : Type) where
  session : Session
  source : Source
  world : σ

namespace Performance

variable {σ : Type}

/-- Ends the session; the stage is not told. -/
def stop (p : Performance σ) : Step × Performance σ :=
  (.ended, { p with session := p.session.stop })

/-- Hands out a frame and gives its notices to the stage. -/
def present (stage : Stage σ) (p : Performance σ) (made : Frame × Session × List Notice) :
    Step × Performance σ :=
  let (frame, session, notices) := made
  (.frame frame, { p with session, world := stage.tellAll notices p.world })

/-- Acquires the source and plays the first burst. -/
def begin (stage : Stage σ) (p : Performance σ) : Step × Performance σ :=
  match p.source.resolve with
  | (some acquired, source) =>
    { p with source }.present stage (p.session.begin acquired)
  | (none, source) =>
    (.brokenOff, { p with source, session := { p.session with phase := .opening } })

/-- Makes the next frame. -/
def next (stage : Stage σ) (p : Performance σ) : Step × Performance σ :=
  if stage.cancelled p.world then p.stop
  else
    match p.session.phase with
    | .start => if p.source.isReady then p.begin stage else p.present stage p.session.placeholder
    | .opening => p.begin stage
    | .playing reel burst later =>
      let (completed, world) := stage.wait p.session.config.frameInterval p.world
      let p := { p with world }
      if completed then p.present stage (p.session.advanceBlink.playBurst reel burst later)
      else p.stop
    | .sustaining last begun =>
      let (completed, world) := stage.wait (p.session.sustainWait begun) p.world
      let p := { p with world }
      if completed then
        let (frame, session) := p.session.flip last
        (.frame frame, { p with session })
      else p.stop
    | .done => (.ended, p)

/-- Makes up to a number of frames and collects them. -/
def play (stage : Stage σ) : Nat → Performance σ → List Frame × Performance σ
  | 0, p => ([], p)
  | budget + 1, p =>
    match p.next stage with
    | (.frame frame, p) =>
      let (frames, p) := play stage budget p
      (frame :: frames, p)
    | (_, p) => ([], p)

/-- Frames enough for a session that does not outlast its stream: a placeholder
and one for each byte, or one for none. -/
def budgetFor (p : Performance σ) : Nat :=
  match p.source.resolve with
  | (some acquired, _) => acquired.data.length + 2
  | (none, _) => 2

/-- All frames of a session that does not outlast its stream. -/
def playAll (stage : Stage σ) (p : Performance σ) : List Frame × Performance σ :=
  p.play stage p.budgetFor

end Performance

/-- The final screen of a stream, played at once and without pauses. -/
def renderFinal (source : Source) (config : Config) : Frame :=
  let config := { config with modemSpeed := .unlimited }
  let session := (Session.fresh config).withoutSustain
  let (frames, _) := Performance.playAll .silent ⟨session, source, ()⟩
  frames.getLast?.getD (Frame.blank config (.stopped 0.0))

end BaudReel
