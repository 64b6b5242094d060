import BaudReel.Config
/-!
# Bursts

A stream is played in bursts, one for each frame.  The bytes in front of the
starting position make up the first burst; from there on every burst has the
length that the modem delivers between two frames, except that the last may be
shorter.
-/

namespace BaudReel

/-- The bytes from `start` up to but not including `stop`. -/
structure Burst where
  start : Nat
  stop : Nat
deriving DecidableEq, Inhabited

namespace Burst

/-- Cuts the bytes from `start` up to `total` into bursts of `step` bytes, of
one byte if `step` is zero. -/
def slices (step start total : Nat) : List Burst :=
  if start < total then
    let stop := min (start + max step 1) total
    ⟨start, stop⟩ :: slices step stop total
  else []
termination_by total - start
decreasing_by omega

/-- The bursts that a stream of `total` bytes is played in. -/
def plan (config : Config) (total : Nat) : List Burst :=
  let lead := config.seek.lead total
  let first := if 0 < lead then [⟨0, lead⟩] else []
  if config.seek.resume then
    first ++ slices (config.burstLength.getD total) lead total
  else first

end Burst

end BaudReel
