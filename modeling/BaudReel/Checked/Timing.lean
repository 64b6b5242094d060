import BaudReel.Checked
import BaudReel.Session

/-!
# Times and bursts in machine words

A session waits for times and plays bursts, and computes both with plain numbers of
milliseconds and bytes.  A machine has words for them: a time is a number of seconds and a
rest in nanoseconds, and the bytes of a burst are counted in a wide word and cut to a
narrow one.  This file gives these computations in words; a sum or a product that is no
word has no result.

A machine also cuts a stream into bursts in rounds that go on as long as bytes are left,
and nothing in a round says that the next one has fewer of them.  So a run of rounds has
a budget here, and no result if it wants more.
-/

namespace BaudReel

namespace Word

/-- A sum, if it is a wide word. -/
def addWide? (a b : Nat) : Option Nat :=
  if a + b ≤ max128 then some (a + b) else none

/-- A product, if it is a wide word. -/
def mulWide? (a b : Nat) : Option Nat :=
  if a * b ≤ max128 then some (a * b) else none

end Word

/-- A time as whole seconds and a rest in nanoseconds. -/
structure Span where
  secs : Nat
  nanos : Nat
deriving DecidableEq, Inhabited

namespace Span

def nanosPerSec : Nat := 1000000000

def nanosPerMilli : Nat := 1000000

/-- A time of so many milliseconds. -/
def ofMillis (millis : Nat) : Span :=
  ⟨millis / 1000, millis % 1000 * nanosPerMilli⟩

/-- Whole milliseconds of a time. -/
def toMillis? (d : Span) : Option Nat := do
  let whole ← Word.mulWide? d.secs 1000
  Word.addWide? whole (d.nanos / nanosPerMilli)

/-- A time so many times over.  Nanoseconds that make up seconds are carried over. -/
def times? (d : Span) (count : Nat) : Option Span := do
  let nanos ← Word.mul? d.nanos count
  let secs ← Word.mul? d.secs count
  let secs ← Word.add? secs (nanos / nanosPerSec)
  some ⟨secs, nanos % nanosPerSec⟩

end Span

/-- Bytes that arrive in a time, at least one and no more than a word counts. -/
def ModemSpeed.burstLength? : ModemSpeed → Span → Option (Option Nat)
  | .bps bits, interval => do
    let millis ← interval.toMillis?
    let product ← Word.mulWide? bits millis
    some (some (min (max (product / 10000) 1) Word.max64))
  | .unlimited, _ => some none

/-- The bytes of a burst of a stream of `total`: all of them if nothing holds them back. -/
def Config.stepLength? (config : Config) (total : Nat) : Option Nat := do
  let length ← config.modemSpeed.burstLength? (.ofMillis config.frameInterval)
  some (max (length.getD total) 1)

/-- How long to wait for the next flip of the blink phase. -/
def Session.sustainWait? (s : Session) (begun : Bool) : Option Span :=
  if begun then some (.ofMillis s.config.blinkDuration)
  else (Span.ofMillis s.config.frameInterval).times? s.blinkLeft

/-- A stream that is being cut: the bursts so far, and where the next one begins. -/
structure Cutting where
  bursts : List Burst
  start : Nat
deriving DecidableEq, Inhabited

namespace Cutting

/-- Cuts off one burst, as long as bytes are left. -/
def round? (step total : Nat) (c : Cutting) : Option Cutting :=
  if c.start < total then
    let stop := min (Word.addUpTo c.start step) total
    some ⟨c.bursts ++ [⟨c.start, stop⟩], stop⟩
  else none

/-- Goes on until no bytes are left.  A run that takes all its rounds has no result. -/
def run? (step total : Nat) : Nat → Cutting → Option Cutting
  | 0, _ => none
  | rounds + 1, c =>
    match c.round? step total with
    | none => some c
    | some next => next.run? step total rounds

end Cutting

/-- The bursts of a stream of `total` bytes of which the first `lead` are shown at once. -/
def Burst.planFrom? (config : Config) (lead total rounds : Nat) : Option (List Burst) := do
  let begun : Cutting := ⟨if 0 < lead then [⟨0, lead⟩] else [], lead⟩
  if config.seek.resume then
    let step ← config.stepLength? total
    let ended ← begun.run? step total rounds
    some ended.bursts
  else some begun.bursts

end BaudReel
