import BaudReel.Clock
import BaudReel.Session
/-!
# Rehearsals

A rehearsal is a stage on which no real time passes and everything is written
down.  It can be told beforehand to cancel the session at a certain wait or at
a certain bell, so that every way of ending a session can be tried out.
-/

namespace BaudReel

/-- One line of the record of a rehearsal. -/
inductive Occurrence where
  /-- A wait was asked for, and was completed or not. -/
  | waited (duration : Nat) (completed : Bool)
  | told (notice : Notice)
deriving Inhabited

/-- A virtual clock with a cancellation planned for one of its waits. -/
structure ScriptedClock where
  clock : VirtualClock := {}
  /-- The wait before which the session is cancelled, counted from one; zero
  for never. -/
  cancelAt : Nat := 0
  /-- How many waits have been asked for. -/
  asked : Nat := 0
deriving Inhabited

/-- A listener that counts bells, with a cancellation planned for one of
them. -/
structure ScriptedListener where
  /-- The bell at which the session is cancelled, counted from one; zero for
  never. -/
  cancelAt : Nat := 0
  /-- How many bells have rung. -/
  beeps : Nat := 0
deriving Inhabited

/-- The state of a rehearsal. -/
structure Rehearsal where
  tokens : Tokens
  /-- The token the session runs under. -/
  token : Nat
  /-- The token that the listener cancels. -/
  listenerToken : Nat
  clock : ScriptedClock := {}
  listener : ScriptedListener := {}
  /-- What has happened since the record was last taken. -/
  record : Array Occurrence := #[]
deriving Inhabited

namespace Rehearsal

/-- A rehearsal with a token of its own. -/
def fresh (cancelAtWait cancelAtBeep : Nat) : Rehearsal :=
  let (token, tokens) := Tokens.issue {}
  { tokens, token, listenerToken := token
    clock := { cancelAt := cancelAtWait }
    listener := { cancelAt := cancelAtBeep } }

/-- Cancels the session's token. -/
def cancel (r : Rehearsal) : Rehearsal :=
  { r with tokens := r.tokens.cancel r.token }

/-- Puts a new clock in place of the old one. -/
def withClock (r : Rehearsal) : Rehearsal :=
  { r with clock := {} }

/-- Puts a new listener in place of the old one. -/
def withListener (r : Rehearsal) : Rehearsal :=
  { r with listener := {} }

/-- Gives the session a new token; the listener keeps the one it has. -/
def withToken (r : Rehearsal) : Rehearsal :=
  let (token, tokens) := r.tokens.issue
  { r with tokens, token }

/-- Begins anew with nothing planned. -/
def restart (r : Rehearsal) : Rehearsal :=
  let (token, tokens) := r.tokens.issue
  { tokens, token, listenerToken := token, record := r.record }

/-- Time that has passed on the clock. -/
def elapsed (r : Rehearsal) : Nat :=
  r.clock.clock.elapsed

/-- Waits on the virtual clock. -/
def wait (duration : Nat) (r : Rehearsal) : Bool × Rehearsal :=
  let asked := r.clock.asked + 1
  let tokens := if asked = r.clock.cancelAt then r.tokens.cancel r.token else r.tokens
  let (completed, clock) := r.clock.clock.wait duration (tokens.isCancelled r.token)
  (completed,
    { r with
      tokens
      clock := { r.clock with clock, asked }
      record := r.record.push (.waited duration completed) })

/-- Counts a bell. -/
def hearBell (r : Rehearsal) : Rehearsal :=
  let beeps := r.listener.beeps + 1
  { r with
    tokens :=
      if beeps = r.listener.cancelAt then r.tokens.cancel r.listenerToken else r.tokens
    listener := { r.listener with beeps } }

/-- Takes a notice down. -/
def tell (notice : Notice) (r : Rehearsal) : Rehearsal :=
  let r := { r with record := r.record.push (.told notice) }
  match notice with
  | .beep => r.hearBell
  | _ => r

/-- Takes the record and starts a new one. -/
def takeRecord (r : Rehearsal) : Array Occurrence × Rehearsal :=
  (r.record, { r with record := #[] })

/-- The stage of a rehearsal. -/
def stage : Stage Rehearsal where
  cancelled r := r.tokens.isCancelled r.token
  wait := wait
  tell := tell

end Rehearsal

end BaudReel
