import BaudReel.Frame
/-!
# Stages

A session plays on a *stage*: something that can be cancelled, that passes the
time between frames and that is told what happens beside the pictures.  A stage
is given by three operations on a state of its own, about which nothing is
assumed here.
-/

namespace BaudReel

/-- What a stage is told. -/
inductive Notice where
  /-- A bell rang. -/
  | beep
  /-- Playback has come to a new status. -/
  | status (s : Status)
  /-- The descriptive strings found so far. -/
  | metadata (strings : List String)
  /-- The source could not be read. -/
  | failed (error : SourceError)
deriving Inhabited

/-- The surroundings of a session, as operations on their state. -/
structure Stage (σ : Type) where
  /-- Whether the session has been cancelled. -/
  cancelled : σ → Bool
  /-- Waits for a time in milliseconds; tells whether the wait was completed,
  which it is not if the session is cancelled before or during it. -/
  wait : Nat → σ → Bool × σ
  /-- Takes a notice. -/
  tell : Notice → σ → σ

namespace Stage

/-- Gives notices in order. -/
def tellAll (stage : Stage σ) (notices : List Notice) (w : σ) : σ :=
  notices.foldl (fun w n => stage.tell n w) w

/-- A stage that is never cancelled, completes every wait and hears nothing. -/
def silent : Stage Unit where
  cancelled _ := false
  wait _ w := (true, w)
  tell _ w := w

end Stage

end BaudReel
